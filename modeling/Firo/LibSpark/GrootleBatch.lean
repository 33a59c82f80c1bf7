import Firo.LibSpark.GrootleTail

/-! The verifier adds the scalars of all proofs of a batch before one multi-exponentiation. Its
result is the weighted sum of the equations of the single proofs. -/
namespace Firo.LibSpark

open Finset Firo.Lib
open List hiding cons mem_range min range smul_sum sum_eq_zero sum_range_succ sum_range_succ'
  sum_smul

variable {F G : Type} [Field F] [AddCommGroup G] [Module F G]

lemma multiExponent_zipWith_add (w : F) (φ : F → F) (points : List G) {scalars f : List F}
    (h : scalars.length = f.length) :
    multiExponent points (zipWith (fun s a => s + φ a * w) scalars f) =
      multiExponent points scalars + w • multiExponent points (f.map φ) := by
  induction points generalizing scalars f with
  | nil => simp
  | cons g points ih =>
    cases scalars with
    | nil =>
      obtain rfl := length_eq_zero_iff.mp h.symm
      simp [multiExponent]
    | cons s scalars =>
      obtain ⟨a, f, rfl⟩ := exists_cons_of_length_eq_add_one h.symm
      simp only [zipWith_cons_cons, multiExponent_cons, List.map_cons, ih (Nat.succ.inj h)]
      module

variable {S V : List G}

lemma getD_bind (b : F) (hSV : S.length = V.length) (i : ℕ) :
    (zipWith (fun s v => s + b • v) S V).getD i 0 = S.getD i 0 + b • V.getD i 0 := by
  by_cases hi : i < S.length
  · have hi' : i < V.length := by omega
    simp only [getD_eq_getElem?_getD, getElem?_zipWith, getElem?_eq_getElem hi,
      getElem?_eq_getElem hi', Option.getD_some]
  · rw [getD_eq_default _ _ (by rw [length_zipWith]; omega),
      getD_eq_default _ _ (by omega), getD_eq_default _ _ (by omega), smul_zero,
      add_zero]

omit [AddCommGroup G] [Module F G] in
lemma sum_entry_fMatrix (proof : GrootleProof F G) (x : F) {n m j : ℕ} (hn : 0 < n)
    (hj : j < m) : ∑ i ∈ range n, entry (fMatrix proof x n m) n j i = x := by
  obtain ⟨k, rfl⟩ : ∃ k, n = k + 1 := ⟨n - 1, by omega⟩
  have hread : ∀ i < k + 1, entry (fMatrix proof x (k + 1) m) (k + 1) j i =
      if i = 0 then x - ∑ i ∈ range k, proof.f.getD (j * k + i) 0
      else proof.f.getD (j * k + (i - 1)) 0 := by
    intro i hi
    exact getD_rows _ _ hj hi
  rw [sum_congr rfl fun i hi => hread i (mem_range.mp hi), sum_range_succ']
  simp

namespace Grootle

variable (g : Grootle G)

def commitmentEquation (x : F) (proof : GrootleProof F G) : G :=
  multiExponent g.Gi (fMatrix proof x g.n g.m) +
    multiExponent g.Hi ((fMatrix proof x g.n g.m).map fun a => a * (x - a)) +
    proof.z • g.H - proof.A - x • proof.B

/-- The membership equation for `size` elements, which are padded to `n ^ m` elements by
copies of the last one. -/
def membershipEquation (x : F) (f : List F) (size : ℕ) (c : ℕ → G) (c1 : G) (X : ℕ → G)
    (z : F) : G :=
  ∑ i ∈ range (g.n ^ g.m), indexProduct f g.n g.m i • (c (min i (size - 1)) - c1) -
    ∑ j ∈ range g.m, x ^ j • X j - z • g.H

def lastElement (size : ℕ) (S : List G) (i : ℕ) : G :=
  S.getD (S.length - size + i) 0

def serialEquation (x : F) (S : List G) (S1 : G) (size : ℕ) (proof : GrootleProof F G) : G :=
  g.membershipEquation x (fMatrix proof x g.n g.m) size (lastElement size S) S1
    (proof.X.getD · 0) proof.zS

def valueEquation (x : F) (V : List G) (V1 : G) (size : ℕ) (proof : GrootleProof F G) : G :=
  g.membershipEquation x (fMatrix proof x g.n g.m) size (lastElement size V) V1
    (proof.X1.getD · 0) proof.zV

lemma sum_padded {n m size : ℕ} (f : List F) (hpos : 1 ≤ size) (hsize : size ≤ n ^ m) (c : ℕ → G) :
    ∑ i ∈ range (n ^ m), indexProduct f n m i • c (min i (size - 1)) =
      ∑ i ∈ range size, plainCoefficient f n m size i • c i := by
  obtain ⟨k, rfl⟩ : ∃ k, size = k + 1 := ⟨size - 1, by omega⟩
  rw [← sum_range_add_sum_Ico _ (show k ≤ n ^ m by omega), sum_range_succ]
  apply congrArg₂
  · apply sum_congr rfl
    intro i hi
    rw [mem_range] at hi
    rw [plainCoefficient, if_pos (by omega), show min i (k + 1 - 1) = i by omega]
  · rw [plainCoefficient, if_neg (by omega), sum_smul]
    apply sum_congr rfl
    intro i hi
    rw [show min i (k + 1 - 1) = k by have := mem_Ico.mp hi; omega]

lemma membershipEquation_eq {size : ℕ} (x : F) (f : List F) (hpos : 1 ≤ size)
    (hsize : size ≤ g.n ^ g.m) (c : ℕ → G) (c1 : G) (X : ℕ → G) (z : F) :
    g.membershipEquation x f size c c1 X z =
      ∑ i ∈ range size, plainCoefficient f g.n g.m size i • c i -
        (∑ i ∈ range (g.n ^ g.m), indexProduct f g.n g.m i) • c1 -
        ∑ j ∈ range g.m, x ^ j • X j - z • g.H := by
  rw [membershipEquation, ← sum_padded f hpos hsize c, sum_smul, ← sum_sub_distrib]
  simp only [smul_sub]

lemma membershipEquation_bind (x : F) (f) (size : ℕ) (b : F) (c c') (c1 c1' : G) (X X') (z z' : F) :
    g.membershipEquation x f size (fun i => c i + b • c' i) (c1 + b • c1')
        (fun j => X j + b • X' j) (z + b * z') =
      g.membershipEquation x f size c c1 X z + b • g.membershipEquation x f size c' c1' X' z' := by
  have hset : ∀ i, indexProduct f g.n g.m i •
      (c (min i (size - 1)) + b • c' (min i (size - 1)) - (c1 + b • c1')) =
      indexProduct f g.n g.m i • (c (min i (size - 1)) - c1) +
        b • (indexProduct f g.n g.m i • (c' (min i (size - 1)) - c1')) := by
    intro i
    module
  have hX : ∀ j, x ^ j • (X j + b • X' j) = x ^ j • X j + b • (x ^ j • X' j) := by
    intro j
    module
  simp only [membershipEquation, hset, hX, sum_add_distrib, ← smul_sum]
  module

section

structure BatchState.Ok (size : ℕ) (st : BatchState F G) : Prop where
  length_gi : st.giScalars.length = g.n * g.m
  length_hi : st.hiScalars.length = g.n * g.m
  length_commit : st.commitScalars.length = size
  length_points : st.points.length = st.scalars.length

def BatchState.value (commits : List G) (st : BatchState F G) : G :=
  multiExponent st.points st.scalars + st.hScalar • g.H + multiExponent g.Gi st.giScalars +
    multiExponent g.Hi st.hiScalars + multiExponent commits st.commitScalars

omit [AddCommGroup G] [Module F G] in
lemma length_fMatrix (proof : GrootleProof F G) (x : F) :
    (fMatrix proof x g.n g.m).length = g.n * g.m := by
  rw [fMatrix, length_rows, mul_comm]

omit [AddCommGroup G] [Module F G] in
lemma zero_mem_challengePowers (x : F) : 0 ∈ g.challengePowers x ↔ x = 0 := by
  simp only [challengePowers, List.mem_map, List.mem_range]
  constructor
  · rintro ⟨j, -, hzero⟩
    exact eq_zero_of_pow_eq_zero hzero
  · rintro rfl
    exact ⟨1, g.one_lt_m, pow_one 0⟩

lemma value_emptyBatch (commits) (k : ℕ) :
    (g.emptyBatch k : BatchState F G).value g commits = 0 := by
  simp [BatchState.value, emptyBatch, multiExponent_replicate_zero]

variable {size : ℕ} {st : BatchState F G}

lemma finalElement_eq_value (commits) (hst : st.Ok g size) :
    g.finalElement commits st = st.value g commits := by
  have hlength : ∀ {u v : ℕ → G} {a b : ℕ → F}, ((List.range (g.m * g.n)).flatMap
      fun i => [u i, v i]).length = ((List.range (g.m * g.n)).flatMap
      fun i => [a i, b i]).length := by simp
  unfold finalElement BatchState.value
  simp only []
  rw [multiExponent_append hst.length_points, multiExponent_append (by rfl),
    multiExponent_append hlength, multiExponent_interleave,
    multiExponent_eq_sum g.Gi _ (g.length_Gi.trans (mul_comm _ _)).le,
    multiExponent_eq_sum g.Hi _ (g.length_Hi.trans (mul_comm _ _)).le]
  simp only [multiExponent_cons, multiExponent_nil, add_zero]
  abel

variable {f : List F} {x b w1 w2 : F} {S1 V1 : G} {proof : GrootleProof F G} {k : ℕ}
  {roots : List (List UInt8)} {sizes : List ℕ} {proofs : List (GrootleProof F G)}

lemma multiExponent_addCommitScalars (hrows : ∀ j < g.m, ∑ i ∈ range g.n, entry f g.n j i = x)
    (hpos : 1 ≤ size) (hsize : size ≤ g.n ^ g.m) (w2 : F) (commits : List G) {scalars : List F}
    (hlength : scalars.length = commits.length) (hle : size ≤ commits.length) :
    multiExponent commits (addCommitScalars f x w2 g.n g.m size scalars).1 =
      multiExponent commits scalars +
        w2 • ∑ i ∈ range size, plainCoefficient f g.n g.m size i • lastElement size commits i := by
  rw [multiExponent_eq_sum _ _ le_rfl, multiExponent_eq_sum _ _ le_rfl, sum_congr rfl fun i hi => by
      rw [addCommitScalars_getD g.one_lt_n hrows hpos hsize w2 scalars (by omega)
        (by rw [hlength]; exact mem_range.mp hi), add_smul], sum_add_distrib]
  congr 1
  rw [← sum_range_add_sum_Ico _ (show commits.length - size ≤ commits.length by omega),
    sum_eq_zero fun i hi => by rw [if_pos (by rw [hlength]; exact mem_range.mp hi), zero_smul],
    zero_add, sum_Ico_eq_sum_range, show commits.length - (commits.length - size) = size by omega,
    smul_sum]
  apply sum_congr rfl
  intro i hi
  rw [if_neg (by omega), hlength, Nat.add_sub_cancel_left, mul_smul]
  rfl

variable [DecidableEq F] (hash : Transcript F G → F)

def proofChallenge (S1 V1 : G) (root : List UInt8) (proof : GrootleProof F G) : F :=
  g.challenge hash root S1 V1 proof.A proof.B proof.X proof.X1

/-- What the verifier checks about a challenge: no entry of the proof equals it, and its
powers are not zero. -/
def ChallengeOk (x : F) (proof : GrootleProof F G) : Prop :=
  x ∉ proof.f ∧ x ≠ 0

instance (x : F) (proof : GrootleProof F G) : Decidable (ChallengeOk x proof) :=
  inferInstanceAs (Decidable (_ ∧ _))

def weightedEquations (b w1 w2 x : F) (S V : List G) (S1 V1 : G) (size : ℕ)
    (proof : GrootleProof F G) : G :=
  w1 • g.commitmentEquation x proof +
    w2 • (g.serialEquation x S S1 size proof + b • g.valueEquation x V V1 size proof)

lemma processProof_eq_none {root}
    (h : ¬ ChallengeOk (g.proofChallenge hash S1 V1 root proof) proof) :
    g.processProof hash b w1 w2 S1 V1 root size proof st = none := by
  unfold processProof computeFs
  by_cases hmem : g.challenge hash root S1 V1 proof.A proof.B proof.X proof.X1 ∈ proof.f
  · simp only [if_pos hmem]
  · have hzero : g.challenge hash root S1 V1 proof.A proof.B proof.X proof.X1 = 0 := by
      by_contra hne
      exact h ⟨hmem, hne⟩
    simp only [if_neg hmem]
    rw [if_pos ((g.zero_mem_challengePowers _).mpr hzero)]

omit [DecidableEq F] in
lemma addProof_ok (hf : f.length = g.n * g.m) {size length : ℕ} (hsize : size ≤ g.n ^ g.m)
    (hst : st.Ok g length) : (g.addProof b w1 w2 x f S1 V1 size proof st).Ok g length where
  length_gi := by simp [addProof, hst.length_gi, hf]
  length_hi := by simp [addProof, hst.length_hi, hf]
  length_commit := (length_addCommitScalars hsize w2 _).trans hst.length_commit
  length_points := by simp [addProof, hst.length_points, challengePowers]

omit [DecidableEq F] in
lemma value_addProof (b w1 w2 x : F) (hSV : S.length = V.length) (S1 V1 : G) (hpos : 1 ≤ size)
    (hle : size ≤ S.length) (hsize : size ≤ g.n ^ g.m) (proof : GrootleProof F G)
    (hst : st.Ok g S.length) :
    (g.addProof b w1 w2 x (fMatrix proof x g.n g.m) S1 V1 size proof st).value g
        (List.zipWith (fun s v => s + b • v) S V) =
      st.value g (List.zipWith (fun s v => s + b • v) S V) +
        g.weightedEquations b w1 w2 x S V S1 V1 size proof := by
  have hrows : ∀ j < g.m, ∑ i ∈ range g.n, entry (fMatrix proof x g.n g.m) g.n j i = x :=
    fun j hj => sum_entry_fMatrix proof x (Nat.zero_lt_of_lt g.one_lt_n) hj
  have hlength : (List.zipWith (fun s v => s + b • v) S V).length = S.length := by
    rw [List.length_zipWith, ← hSV, min_self]
  have hlast : ∀ i, lastElement size (List.zipWith (fun s v => s + b • v) S V) i =
      lastElement size S i + b • lastElement size V i := by
    intro i
    unfold lastElement
    rw [hlength, ← hSV, getD_bind b hSV]
  have hpoints : multiExponent (g.addProof b w1 w2 x (fMatrix proof x g.n g.m) S1 V1 size proof
      st).points (g.addProof b w1 w2 x (fMatrix proof x g.n g.m) S1 V1 size proof st).scalars =
      multiExponent st.points st.scalars - w1 • proof.A - (x * w1) • proof.B -
        ((∑ i ∈ range (g.n ^ g.m), indexProduct (fMatrix proof x g.n g.m) g.n g.m i) * w2) •
          (S1 + b • V1) -
        w2 • ∑ j ∈ range g.m, x ^ j • (proof.X.getD j 0 + b • proof.X1.getD j 0) := by
    simp only [addProof, addCommitScalars_sum g.one_lt_n hrows hpos hsize, challengePowers,
      List.map_map]
    rw [multiExponent_append hst.length_points, multiExponent_append (by rfl),
      multiExponent_map_range, smul_sum]
    simp only [multiExponent_cons, multiExponent_nil, Function.comp_apply, neg_mul, neg_smul,
      sum_neg_distrib, mul_neg, mul_comm (x ^ _) w2, mul_smul]
    abel
  have hcommit := g.multiExponent_addCommitScalars hrows hpos hsize w2
    (List.zipWith (fun s v => s + b • v) S V) (hst.length_commit.trans hlength.symm)
    (hle.trans_eq hlength.symm)
  have hgi := multiExponent_zipWith_add w1 id g.Gi
    (hst.length_gi.trans (g.length_fMatrix proof x).symm)
  simp only [List.map_id, id] at hgi
  have hhi := multiExponent_zipWith_add w1 (fun a => a * (x - a)) g.Hi
    (hst.length_hi.trans (g.length_fMatrix proof x).symm)
  have hbind := g.membershipEquation_bind x (fMatrix proof x g.n g.m) size b
    (lastElement size S) (lastElement size V) S1 V1 (proof.X.getD · 0) (proof.X1.getD · 0)
    proof.zS proof.zV
  rw [membershipEquation_eq g x _ hpos hsize] at hbind
  simp only [← hlast] at hbind
  rw [weightedEquations, serialEquation, valueEquation, ← hbind]
  unfold BatchState.value commitmentEquation
  rw [hpoints]
  simp only [addProof]
  rw [hgi, hhi, hcommit]
  module

lemma processProof_spec (b w1 w2 : F) (hSV : S.length = V.length) (S1 V1 : G) (root : List UInt8)
    (hpos : 1 ≤ size) (hle : size ≤ S.length) (hbound : S.length ≤ g.n ^ g.m)
    (proof : GrootleProof F G) (hst : st.Ok g S.length)
    (hx : ChallengeOk (g.proofChallenge hash S1 V1 root proof) proof) :
    ∃ st', g.processProof hash b w1 w2 S1 V1 root size proof st = some st' ∧ st'.Ok g S.length ∧
      st'.value g (List.zipWith (fun s v => s + b • v) S V) =
        st.value g (List.zipWith (fun s v => s + b • v) S V) +
          g.weightedEquations b w1 w2 (g.proofChallenge hash S1 V1 root proof) S V S1 V1 size
            proof := by
  obtain ⟨hmem, hne⟩ := hx
  have hpowers : ¬ 0 ∈ g.challengePowers (g.proofChallenge hash S1 V1 root proof) :=
    fun h => hne ((g.zero_mem_challengePowers _).mp h)
  refine ⟨_, ?_, g.addProof_ok (g.length_fMatrix proof _) (hle.trans hbound) hst,
    g.value_addProof b w1 w2 _ hSV S1 V1 hpos hle (hle.trans hbound) proof hst⟩
  unfold processProof computeFs
  simp only [proofChallenge] at hmem hpowers ⊢
  rw [if_neg hmem]
  exact if_neg hpowers

lemma foldlM_processProof (b : F) (weights : ℕ → F × F) (hSV : S.length = V.length)
    (hbound : S.length ≤ g.n ^ g.m) (S1 V1 : List G) (roots : List (List UInt8)) (sizes : List ℕ)
    (proofs : List (GrootleProof F G))
    (hsizes : ∀ t < k, 1 ≤ sizes.getD t 0 ∧ sizes.getD t 0 ≤ S.length) {init : BatchState F G}
    (hinit : init.Ok g S.length)
    (hx : ∀ t < k, ChallengeOk (g.proofChallenge hash (S1.getD t 0) (V1.getD t 0) (roots.getD t [])
      (proofs.getD t default)) (proofs.getD t default)) :
    ∃ st, (List.range k).foldlM (fun st t => g.processProof hash b (weights t).1 (weights t).2
        (S1.getD t 0) (V1.getD t 0) (roots.getD t []) (sizes.getD t 0) (proofs.getD t default)
        st) init = some st ∧ st.Ok g S.length ∧
      st.value g (zipWith (fun s v => s + b • v) S V) =
        init.value g (zipWith (fun s v => s + b • v) S V) +
        ∑ t ∈ range k, g.weightedEquations b (weights t).1 (weights t).2
          (g.proofChallenge hash (S1.getD t 0) (V1.getD t 0) (roots.getD t [])
            (proofs.getD t default)) S V (S1.getD t 0) (V1.getD t 0) (sizes.getD t 0)
          (proofs.getD t default) := by
  induction k with
  | zero => exact ⟨init, rfl, hinit, by simp⟩
  | succ k ih =>
    obtain ⟨st, hrun, hst, hvalue⟩ := ih (fun t ht => hsizes t (Nat.lt_succ_of_lt ht))
      fun t ht => hx t (Nat.lt_succ_of_lt ht)
    obtain ⟨hpos, hle⟩ := hsizes k (Nat.lt_succ_self k)
    obtain ⟨st', hstep, hst', hvalue'⟩ := g.processProof_spec hash b (weights k).1
      (weights k).2 hSV _ _ _ hpos hle hbound _ hst (hx k (Nat.lt_succ_self k))
    refine ⟨st', ?_, hst', ?_⟩
    · rw [range_succ, foldlM_append, hrun, Option.bind_eq_bind, Option.bind_some,
        foldlM_cons, hstep]
      rfl
    · rw [hvalue', hvalue, sum_range_succ, add_assoc]

lemma foldlM_processProof_eq_none (b : F) (weights : ℕ → F × F) (S1 V1 : List G)
    (roots : List (List UInt8)) (sizes : List ℕ) (proofs : List (GrootleProof F G)) {t : ℕ}
    (ht : t < k) (init)
    (hx : ¬ ChallengeOk (g.proofChallenge hash (S1.getD t 0) (V1.getD t 0)
      (roots.getD t []) (proofs.getD t default)) (proofs.getD t default)) :
    (List.range k).foldlM (fun st t => g.processProof hash b (weights t).1 (weights t).2
        (S1.getD t 0) (V1.getD t 0) (roots.getD t []) (sizes.getD t 0) (proofs.getD t default)
        st) init = none := by
  induction k with
  | zero => omega
  | succ k ih =>
    rw [range_succ, foldlM_append]
    rcases Nat.lt_succ_iff_lt_or_eq.mp ht with hlt | rfl
    · rw [ih hlt]
      rfl
    · rw [Option.bind_eq_bind, Option.bind_eq_none_iff]
      intro st _
      rw [foldlM_cons, g.processProof_eq_none hash hx]
      rfl

omit [Field F] [AddCommGroup G] [Module F G] [DecidableEq F] in
lemma lengths_of_structureOk {S S1 V V1} (h : g.structureOk S S1 V V1 roots sizes proofs = true) :
    S.length = V.length ∧ S.length ≤ g.n ^ g.m := by
  simp only [structureOk, Bool.and_eq_true, decide_eq_true_eq, beq_iff_eq] at h
  exact ⟨h.1.1.1.1.1.2, h.1.1.1.1.1.1.2⟩

/-- With proofs of the right structure and usable challenges, the batch gives the sum of the
weighted equations. -/
lemma batchElement_eq_some (b : F) (weights : ℕ → F × F) {S S1 V V1 : List G}
    (hok : g.structureOk S S1 V V1 roots sizes proofs = true)
    (hsizes : ∀ t < proofs.length, 1 ≤ sizes.getD t 0 ∧ sizes.getD t 0 ≤ S.length)
    (hx : ∀ t < proofs.length, ChallengeOk (g.proofChallenge hash (S1.getD t 0) (V1.getD t 0)
      (roots.getD t []) (proofs.getD t default)) (proofs.getD t default)) :
    g.batchElement hash b weights S S1 V V1 roots sizes proofs =
      some (∑ t ∈ range proofs.length, g.weightedEquations b (weights t).1 (weights t).2
        (g.proofChallenge hash (S1.getD t 0) (V1.getD t 0) (roots.getD t [])
          (proofs.getD t default)) S V (S1.getD t 0) (V1.getD t 0) (sizes.getD t 0)
        (proofs.getD t default)) := by
  obtain ⟨hSV, hbound⟩ := g.lengths_of_structureOk hok
  have hlength : (zipWith (fun s v => s + b • v) S V).length = S.length := by
    rw [length_zipWith, ← hSV, min_self]
  have hempty : (g.emptyBatch (zipWith (fun s v => s + b • v) S V).length :
      BatchState F G).Ok g S.length :=
    ⟨length_replicate, length_replicate, length_replicate.trans hlength, rfl⟩
  obtain ⟨st, hrun, hst, hvalue⟩ := g.foldlM_processProof hash b weights hSV hbound S1 V1 roots
    sizes proofs hsizes hempty hx
  unfold batchElement
  rw [if_pos hok]
  simp only [hrun, Option.map_some]
  rw [g.finalElement_eq_value _ hst, hvalue, g.value_emptyBatch, zero_add]

/-- The element that the verifier tests for the identity is the sum over the proofs of the
commitment equation and the membership equation with their weights, the latter the serial
equation plus the bound value equation; without usable challenges there is none. -/
theorem batch_is_weighted_sum (b : F) (weights : ℕ → F × F) {S S1 V V1 : List G}
    {roots : List (List UInt8)} {sizes : List ℕ} {proofs : List (GrootleProof F G)}
    (hok : g.structureOk S S1 V V1 roots sizes proofs = true)
    (hsizes : ∀ t < proofs.length, 1 ≤ sizes.getD t 0 ∧ sizes.getD t 0 ≤ S.length) :
    let proof (t : ℕ) := proofs.getD t default
    let x (t : ℕ) := g.proofChallenge hash (S1.getD t 0) (V1.getD t 0) (roots.getD t []) (proof t)
    g.batchElement hash b weights S S1 V V1 roots sizes proofs =
      if ∀ t < proofs.length, ChallengeOk (x t) (proof t) then
        some (∑ t ∈ range proofs.length, ((weights t).1 • g.commitmentEquation (x t) (proof t) +
            (weights t).2 • (g.serialEquation (x t) S (S1.getD t 0) (sizes.getD t 0) (proof t) +
                b • g.valueEquation (x t) V (V1.getD t 0) (sizes.getD t 0) (proof t))))
      else none := by
  intro proof x
  by_cases hx : ∀ t < proofs.length, ChallengeOk (x t) (proof t)
  · rw [if_pos hx]
    exact g.batchElement_eq_some hash b weights hok hsizes hx
  · rw [if_neg hx]
    push Not at hx
    obtain ⟨t, ht, hbad⟩ := hx
    unfold batchElement
    rw [if_pos hok]
    simp only [g.foldlM_processProof_eq_none hash b weights S1 V1 roots sizes proofs ht _ hbad]
    rfl

end

end Grootle

def smallGrootle : Grootle ℚ :=
  ⟨9, [1, 2, 3, 4], [5, 6, 7, 8], 2, 2, by decide, by decide, by decide, by decide⟩

def smallProof : GrootleProof ℚ ℚ := ⟨1, 2, [3, 4], [5, 6], [7, 8], 1, 1, 1⟩

theorem batch_is_weighted_sum_two :
    smallGrootle.structureOk [1, 2] [3, 4] [5, 6] [7, 8] [[], []] [1, 2]
      [smallProof, smallProof] = true ∧
    (smallGrootle.batchElement (fun _ => 1) 2 (fun _ => (3, 5)) [1, 2] [3, 4] [5, 6] [7, 8]
      [[], []] [1, 2] [smallProof, smallProof]).isSome := by
  have hok : smallGrootle.structureOk [1, 2] [3, 4] [5, 6] [7, 8] [[], []] [1, 2]
      [smallProof, smallProof] = true := by decide +kernel
  have hsizes : ∀ t < [smallProof, smallProof].length,
      1 ≤ ([1, 2] : List ℕ).getD t 0 ∧ ([1, 2] : List ℕ).getD t 0 ≤ ([1, 2] : List ℚ).length := by
    decide
  refine ⟨hok, ?_⟩
  have hsum := smallGrootle.batch_is_weighted_sum (fun _ => 1) 2 (fun _ => (3, 5)) hok hsizes
  have hx : ∀ t < [smallProof, smallProof].length,
      Grootle.ChallengeOk (1 : ℚ) ([smallProof, smallProof].getD t default) := by decide +kernel
  rw [hsum]
  exact (congrArg Option.isSome (if_pos hx)).trans rfl

end Firo.LibSpark
