import Firo.LibSpark.BPPlus

/-! The verifier adds the scalars of all proofs at shared positions before one multi-exponentiation.
Its result is the weighted sum of the equations of the single proofs, whatever their aggregation
sizes. -/
namespace Firo.LibSpark

open Finset Prod
open List hiding choose cons mem_range range smul_sum sum_eq_zero sum_range_succ

variable {F P : Type} [Field F] [AddCommGroup P] [Module F P]

section

variable (ch : BPPlusChallenges F) (proof : BPPlusProof F P) (d : List F) (rounds : ℕ)

def gScalarAt (i : ℕ) : F :=
  (indexScalars ch.e rounds i (proof.r1 * ch.e1 * ch.y⁻¹ ^ i) (proof.s1 * ch.e1)).1 +
    ch.e1 ^ 2 * ch.z

def hScalarAt (i : ℕ) : F :=
  (indexScalars ch.e rounds i (proof.r1 * ch.e1 * ch.y⁻¹ ^ i) (proof.s1 * ch.e1)).2 -
    ch.e1 ^ 2 * (d.getD i 0 * (yNM rounds ch.y * ch.y⁻¹ ^ i) + ch.z)

def addGeneratorPair (w : F) (scalars : List F) (i : ℕ) : List F :=
  (scalars.modify (2 * i) (· + w * gScalarAt ch proof rounds i)).modify (2 * i + 1)
    (· + w * hScalarAt ch proof d rounds i)

section

omit [AddCommGroup P] [Module F P]

lemma addGenerators_eq_foldl (w : F) (NM : ℕ) (scalars) :
    addGenerators ch proof w d rounds NM scalars =
      (List.range NM).foldl (addGeneratorPair ch proof d rounds w) scalars := by
  -- the running powers of `y⁻¹` are those of the index
  have hstate : ∀ n, (List.range n).foldl (fun st i =>
      let gh := indexScalars ch.e rounds i (proof.r1 * ch.e1 * st.2.1) (proof.s1 * ch.e1)
      let scalars := st.1.modify (2 * i) (· + w * (gh.1 + ch.e1 ^ 2 * ch.z))
      let scalars := scalars.modify (2 * i + 1)
        (· + w * (gh.2 - ch.e1 ^ 2 * (d.getD i 0 * st.2.2 + ch.z)))
      (scalars, st.2.1 * ch.y⁻¹, st.2.2 * ch.y⁻¹)) (scalars, 1, yNM rounds ch.y) =
        ((List.range n).foldl (addGeneratorPair ch proof d rounds w) scalars,
          ch.y⁻¹ ^ n, yNM rounds ch.y * ch.y⁻¹ ^ n) := by
    intro n
    induction n with
    | zero => simp
    | succ n ih =>
      rw [range_succ, foldl_append, foldl_append, ih, pow_succ ch.y⁻¹ n, ← mul_assoc]
      rfl
  exact congrArg fst (hstate NM)

lemma length_addGeneratorPair (w : F) (scalars) (i : ℕ) :
    (addGeneratorPair ch proof d rounds w scalars i).length = scalars.length := by
  simp [addGeneratorPair]

lemma length_addGenerators (w : F) (NM : ℕ) (scalars) :
    (addGenerators ch proof w d rounds NM scalars).length = scalars.length := by
  rw [addGenerators_eq_foldl]
  induction NM with
  | zero => rfl
  | succ n ih =>
    rw [range_succ, foldl_append, foldl_cons, List.foldl_nil, length_addGeneratorPair, ih]

end

lemma multiExponent_addGeneratorPair (w : F) (points : List P) {scalars : List F} {i : ℕ}
    (hi : 2 * i + 1 < scalars.length) :
    multiExponent points (addGeneratorPair ch proof d rounds w scalars i) =
      multiExponent points scalars + w • (gScalarAt ch proof rounds i • points.getD (2 * i) 0 +
          hScalarAt ch proof d rounds i • points.getD (2 * i + 1) 0) := by
  rw [addGeneratorPair, multiExponent_modify_add _ _ _ _ (by simpa using hi),
    multiExponent_modify_add _ _ _ _ (by omega)]
  module

lemma multiExponent_addGenerators (w : F) (points : List P) {scalars : List F} {NM : ℕ}
    (h : 2 * NM ≤ scalars.length) :
    multiExponent points (addGenerators ch proof w d rounds NM scalars) =
      multiExponent points scalars +
        w • ∑ i ∈ range NM, (gScalarAt ch proof rounds i • points.getD (2 * i) 0 +
          hScalarAt ch proof d rounds i • points.getD (2 * i + 1) 0) := by
  rw [addGenerators_eq_foldl]
  induction NM with
  | zero => simp
  | succ n ih =>
    have hlength : ((List.range n).foldl (addGeneratorPair ch proof d rounds w) scalars).length =
        scalars.length := by
      rw [← addGenerators_eq_foldl, length_addGenerators]
    rw [range_succ, foldl_append, foldl_cons, List.foldl_nil,
      multiExponent_addGeneratorPair _ _ _ _ _ _ (by omega), ih (by omega), sum_range_succ]
    module

end

namespace BPPlus

variable (bp : BPPlus P)

def paddedC (unpaddedC : List P) : List P :=
  unpaddedC ++ List.replicate (paddedM unpaddedC.length - unpaddedC.length) 0

/-- The part of the equation that is about the generators of the vectors. -/
def generatorTerms (M : ℕ) (proof : BPPlusProof F P) (ch : BPPlusChallenges F) : P :=
  ∑ i ∈ range (bp.N * M), (gScalarAt ch proof proof.L.length i • bp.Gi.getD i 0 +
    hScalarAt ch proof (dVector (fun t => t + t) (ch.z ^ 2) bp.N M) proof.L.length i •
      bp.Hi.getD i 0)

def commitmentTerms (unpaddedC : List P) (proof : BPPlusProof F P) (ch : BPPlusChallenges F) : P :=
  ∑ j ∈ range (paddedM unpaddedC.length),
    (-ch.e1 ^ 2 * ch.z ^ 2 * (yNM proof.L.length ch.y * ch.y) * (ch.z ^ 2) ^ j) •
      (paddedC unpaddedC).getD j 0

def roundTerms (proof : BPPlusProof F P) (ch : BPPlusChallenges F) : P :=
  ∑ j ∈ range proof.L.length, ((-ch.e1 ^ 2 * ch.e.getD j 0 ^ 2) • proof.L.getD j 0 +
    (-ch.e1 ^ 2 * (ch.e.getD j 0)⁻¹ ^ 2) • proof.R.getD j 0)

def gTerm (M : ℕ) (proof : BPPlusProof F P) (ch : BPPlusChallenges F) : F :=
  proof.r1 * ch.y * proof.s1 +
    ch.e1 ^ 2 * (yNM proof.L.length ch.y * ch.y * ch.z * sumD bp.N M (ch.z ^ 2) +
      (ch.z ^ 2 - ch.z) * sumY (bp.N * M) ch.y)

def equation (unpaddedC : List P) (proof : BPPlusProof F P) (ch : BPPlusChallenges F) : P :=
  bp.generatorTerms (paddedM unpaddedC.length) proof ch + commitmentTerms unpaddedC proof ch +
    roundTerms proof ch - proof.B - ch.e1 • proof.A1 - ch.e1 ^ 2 • proof.A +
    bp.gTerm (paddedM unpaddedC.length) proof ch • bp.G + proof.d1 • bp.H

lemma le_paddedM (n : ℕ) : n ≤ paddedM n := by
  rw [paddedM]
  split
  · exact le_rfl
  · rw [Nat.one_shiftLeft]
    exact Nat.lt_log2_self.le

omit [Module F P] in
lemma length_paddedC (unpaddedC : List P) :
    (paddedC unpaddedC).length = paddedM unpaddedC.length := by
  have h := le_paddedM unpaddedC.length
  simp only [paddedC, length_append, length_replicate]
  omega

/-- A batch starts with the interleaved generators of `K` indices. -/
structure BatchOk (K : ℕ) (batch : BPPlusBatch F P) : Prop where
  length_eq : batch.points.length = batch.scalars.length
  bound : 2 * K ≤ batch.points.length
  getD_Gi : ∀ i < K, batch.points.getD (2 * i) 0 = bp.Gi.getD i 0
  getD_Hi : ∀ i < K, batch.points.getD (2 * i + 1) 0 = bp.Hi.getD i 0

variable {bp}

def value (bp : BPPlus P) (batch : BPPlusBatch F P) : P :=
  multiExponent batch.points batch.scalars + batch.gScalar • bp.G + batch.hScalar • bp.H

lemma BatchOk.finalElement_eq {K : ℕ} {batch : BPPlusBatch F P} (h : bp.BatchOk K batch) :
    bp.finalElement batch = bp.value batch := by
  rw [finalElement, multiExponent_append h.length_eq, value]
  simp [add_assoc]

lemma flatMap_pair_getD (u v : ℕ → P) {K i : ℕ} (hi : i < K) :
    ((List.range K).flatMap fun i => [u i, v i]).getD (2 * i) 0 = u i ∧
      ((List.range K).flatMap fun i => [u i, v i]).getD (2 * i + 1) 0 = v i := by
  have hrows : ((List.range K).flatMap fun i => [u i, v i]) =
      rows K 2 fun j b => if b = 0 then u j else v j := by
    simp [rows, range_succ]
  rw [hrows, Nat.mul_comm 2 i]
  exact ⟨getD_rows _ _ hi (by omega : 0 < 2), getD_rows _ _ hi (by omega : 1 < 2)⟩

omit [Module F P] in
lemma emptyBatch_ok (bp : BPPlus P) (maxM : ℕ) :
    bp.BatchOk (maxM * bp.N) (bp.emptyBatch maxM : BPPlusBatch F P) where
  length_eq := by simp [emptyBatch]
  bound := by simp [emptyBatch, Nat.mul_comm]
  getD_Gi _ hi := (flatMap_pair_getD _ _ hi).1
  getD_Hi _ hi := (flatMap_pair_getD _ _ hi).2

lemma value_emptyBatch (bp : BPPlus P) (maxM : ℕ) :
    bp.value (bp.emptyBatch maxM : BPPlusBatch F P) = 0 := by
  simp only [value, emptyBatch, multiExponent_interleave]
  simp

variable {K : ℕ} {batch : BPPlusBatch F P} {unpaddedC : List P} {proof : BPPlusProof F P}

lemma multiExponent_statement (w : F) (ch : BPPlusChallenges F) :
    multiExponent (paddedC unpaddedC ++ [proof.B, proof.A1, proof.A])
      (((List.range (paddedM unpaddedC.length)).map fun j => (· * ch.z ^ 2)^[j]
        (-ch.e1 ^ 2 * ch.z ^ 2 * (yNM proof.L.length ch.y * ch.y) * w)) ++
          [-w, -w * ch.e1, -w * ch.e1 ^ 2]) =
      w • (commitmentTerms unpaddedC proof ch - proof.B - ch.e1 • proof.A1 -
        ch.e1 ^ 2 • proof.A) := by
  have hC : multiExponent (paddedC unpaddedC) ((List.range (paddedM unpaddedC.length)).map
      fun j => (· * ch.z ^ 2)^[j] (-ch.e1 ^ 2 * ch.z ^ 2 * (yNM proof.L.length ch.y * ch.y) * w)) =
      w • commitmentTerms unpaddedC proof ch := by
    rw [multiExponent_eq_sum _ _ (length_paddedC unpaddedC).le, commitmentTerms, smul_sum]
    apply sum_congr rfl
    intro j hj
    rw [getD_eq_getElem _ _ (by simpa using hj), getElem_map, getElem_range,
      mul_right_iterate, smul_smul]
    congr 1
    ring
  rw [multiExponent_append (by simp [length_paddedC]), hC]
  simp only [multiExponent_cons, multiExponent_nil]
  module

lemma multiExponent_rounds (w : F) (ch : BPPlusChallenges F) :
    multiExponent ((List.range proof.L.length).flatMap fun j =>
        [proof.L.getD j 0, proof.R.getD j 0])
      ((List.range proof.L.length).flatMap fun j =>
        [w * (-ch.e1 ^ 2 * ch.e.getD j 0 ^ 2), w * (-ch.e1 ^ 2 * (ch.e.getD j 0)⁻¹ ^ 2)]) =
      w • roundTerms proof ch := by
  rw [multiExponent_interleave, roundTerms, ← sum_add_distrib, smul_sum]
  apply sum_congr rfl
  intro j _
  module

omit [Field F] [Module F P] in
lemma BatchOk.append (h : bp.BatchOk K batch) (points) :
    ∀ i < K, (batch.points ++ points).getD (2 * i) 0 = bp.Gi.getD i 0 ∧
      (batch.points ++ points).getD (2 * i + 1) 0 = bp.Hi.getD i 0 := by
  intro i hi
  have hbound := h.bound
  rw [getD_append _ _ _ _ (by omega), getD_append _ _ _ _ (by omega)]
  exact ⟨h.getD_Gi i hi, h.getD_Hi i hi⟩

lemma BatchOk.value_addProof (h : bp.BatchOk K batch) (w : F) (ch)
    (hK : bp.N * paddedM unpaddedC.length ≤ K) : bp.value (bp.addProof w unpaddedC proof ch batch) =
      bp.value batch + w • bp.equation unpaddedC proof ch := by
  have hbound := h.bound
  have hlength := h.length_eq
  have hgenerators : ∀ points : List P, ∑ i ∈ range (bp.N * paddedM unpaddedC.length),
      (gScalarAt ch proof proof.L.length i • (batch.points ++ points).getD (2 * i) 0 +
        hScalarAt ch proof (dVector (fun t => t + t) (ch.z ^ 2) bp.N
          (paddedM unpaddedC.length)) proof.L.length i •
            (batch.points ++ points).getD (2 * i + 1) 0) =
      bp.generatorTerms (paddedM unpaddedC.length) proof ch := by
    intro points
    apply sum_congr rfl
    intro i hi
    obtain ⟨hG, hH⟩ := h.append points i ((mem_range.mp hi).trans_le hK)
    rw [hG, hH]
  rw [value, value]
  dsimp only [addProof]
  rw [show unpaddedC ++ replicate (paddedM unpaddedC.length - unpaddedC.length) 0 =
      paddedC unpaddedC from rfl, append_assoc batch.points, append_assoc batch.scalars,
    multiExponent_append (by
      rw [length_addGenerators]
      simp [length_paddedC, hlength]),
    multiExponent_addGenerators _ _ _ _ _ _ (by simp; omega), hgenerators,
    multiExponent_append hlength, multiExponent_statement, multiExponent_rounds, equation, gTerm]
  module

omit [Module F P] in
lemma BatchOk.addProof (h : bp.BatchOk K batch) (w : F) (ch) :
    bp.BatchOk K (bp.addProof w unpaddedC proof ch batch) := by
  have hbound := h.bound
  have hlength := h.length_eq
  have hC := length_paddedC unpaddedC
  rw [paddedC] at hC
  dsimp only [BPPlus.addProof]
  simp only [append_assoc batch.points]
  refine ⟨?_, ?_, fun i hi => (h.append _ i hi).1, fun i hi => (h.append _ i hi).2⟩
  · simp only [length_append, length_addGenerators, length_map, length_range,
      length_flatMap, hlength, hC] at hC ⊢
    simp
    omega
  · simp only [length_append]
    omega

section

variable [DecidableEq F] (hash : Transcript F P → F) (weight : ℕ → F)

/-- The element that a pair contributes for weight one; `none` when a challenge is zero. -/
def pairElement (bp : BPPlus P) (pair : List P × BPPlusProof F P) : Option P :=
  (bp.challenges hash pair.1 pair.2).map (bp.equation pair.1 pair.2)

variable {item : (List P × BPPlusProof F P) × ℕ}

lemma BatchOk.processProof (h : bp.BatchOk K batch) {X : P}
    (hX : bp.pairElement hash item.1 = some X) (hK : bp.N * paddedM item.1.1.length ≤ K) :
    ∃ batch', bp.processProof hash weight batch item = some batch' ∧ bp.BatchOk K batch' ∧
      bp.value batch' = bp.value batch + weight item.2 • X := by
  obtain ⟨ch, hch, rfl⟩ := Option.map_eq_some_iff.mp hX
  refine ⟨_, ?_, h.addProof (weight item.2) ch, h.value_addProof (weight item.2) ch hK⟩
  rw [BPPlus.processProof, hch]
  rfl

lemma BatchOk.foldlM_processProof (h : bp.BatchOk K batch) (E : ℕ → P)
    (items : List ((List P × BPPlusProof F P) × ℕ))
    (hE : ∀ item ∈ items, bp.pairElement hash item.1 = some (E item.2))
    (hK : ∀ item ∈ items, bp.N * paddedM item.1.1.length ≤ K) :
    ∃ batch', items.foldlM (bp.processProof hash weight) batch = some batch' ∧
      bp.BatchOk K batch' ∧ bp.value batch' =
        bp.value batch + (items.map fun item => weight item.2 • E item.2).sum := by
  induction items generalizing batch with
  | nil => exact ⟨batch, rfl, h, by simp⟩
  | cons item items ih =>
    obtain ⟨batch₁, hstep, hok, hvalue⟩ :=
      h.processProof hash weight (hE item List.mem_cons_self) (hK item List.mem_cons_self)
    obtain ⟨batch₂, hrun, hok₂, hvalue₂⟩ :=
      ih hok (fun item hi => hE item (List.mem_cons_of_mem _ hi))
        (fun item hi => hK item (List.mem_cons_of_mem _ hi))
    refine ⟨batch₂, ?_, hok₂, ?_⟩
    · rw [foldlM_cons, hstep]
      exact hrun
    · rw [hvalue₂, hvalue, List.map_cons, List.sum_cons, add_assoc]

end

section

variable {Cs : List (List P)}

omit [AddCommGroup P]

lemma foldl_maxM_spec (Cs : List (List P)) (m : ℕ) :
    let r := Cs.foldl (fun m C => if m < paddedM C.length then paddedM C.length else m) m
    m ≤ r ∧ (∀ C ∈ Cs, paddedM C.length ≤ r) ∧ (r = m ∨ ∃ C ∈ Cs, r = paddedM C.length) := by
  induction Cs generalizing m with
  | nil => simp
  | cons C Cs ih =>
    dsimp only at ih ⊢
    simp only [foldl_cons, List.mem_cons, forall_eq_or_imp, exists_eq_or_imp]
    by_cases hlt : m < paddedM C.length
    · obtain ⟨hge, hall, hmem⟩ := ih (paddedM C.length)
      rw [if_pos hlt]
      exact ⟨by omega, ⟨hge, hall⟩, .inr hmem⟩
    · obtain ⟨hge, hall, hmem⟩ := ih m
      rw [if_neg hlt]
      exact ⟨hge, ⟨by omega, hall⟩, hmem.imp_right .inr⟩

lemma le_maxM {C} (hC : C ∈ Cs) : paddedM C.length ≤ maxM Cs :=
  (foldl_maxM_spec Cs 0).2.1 C hC

lemma maxM_mul_le {N bound : ℕ} (h : ∀ C ∈ Cs, N * paddedM C.length ≤ bound) :
    maxM Cs * N ≤ bound := by
  obtain hzero | ⟨C, hC, heq⟩ := (foldl_maxM_spec Cs 0).2.2
  · rw [maxM, hzero]
    omega
  · rw [maxM, heq, Nat.mul_comm]
    exact h C hC

end

section

variable [DecidableEq F] (hash : Transcript F P → F) (weight : ℕ → F)
  (pairs : List (List P × BPPlusProof F P))

def SizesOk (bp : BPPlus P) (pair : List P × BPPlusProof F P) : Prop :=
  bp.sizesOk pair.1 pair.2 = true ∧ bp.N * paddedM pair.1.length ≤ bp.Gi.length

lemma batchElement_eq_some (E : ℕ → P) (hsizes : ∀ pair ∈ pairs, bp.SizesOk pair)
    (hE : ∀ k (hk : k < pairs.length), bp.pairElement hash pairs[k] = some (E k)) :
    bp.batchElement hash weight (pairs.map fst) (pairs.map snd) =
      some (∑ k ∈ range pairs.length, weight k • E k) := by
  have hzip : (pairs.map fst).zip (pairs.map snd) = pairs := by
    rw [zip_map']
    simp
  have hbound : maxM (pairs.map fst) * bp.N ≤ bp.Gi.length := by
    apply maxM_mul_le
    intro C hC
    obtain ⟨pair, hpair, rfl⟩ := List.mem_map.mp hC
    exact (hsizes pair hpair).2
  obtain ⟨batch, hrun, hok, hvalue⟩ :=
    (emptyBatch_ok bp (maxM (pairs.map fst))).foldlM_processProof hash weight E pairs.zipIdx (by
        rintro ⟨pair, k⟩ hitem
        obtain ⟨hk, hget⟩ := List.getElem?_eq_some_iff.mp (mem_zipIdx_iff_getElem?.mp hitem)
        exact hget ▸ hE k hk)
      (by
        rintro ⟨pair, k⟩ hitem
        have hmem : pair ∈ pairs := mem_of_getElem? (mem_zipIdx_iff_getElem?.mp hitem)
        rw [Nat.mul_comm bp.N]
        exact Nat.mul_le_mul_right _ (le_maxM (List.mem_map_of_mem hmem)))
  have hsum : (pairs.zipIdx.map fun item => weight item.2 • E item.2).sum =
      ∑ k ∈ range pairs.length, weight k • E k := by
    have hindices : pairs.zipIdx.map (fun item => weight item.2 • E item.2) =
        (List.range pairs.length).map fun k => weight k • E k := by
      rw [range_eq_range', ← zipIdx_map_snd 0 pairs, List.map_map]
      rfl
    rw [hindices]
    rfl
  rw [batchElement, if_neg (by simp), hzip, if_neg (by
      simp only [Bool.not_eq_true', Bool.not_eq_false, all_eq_true]
      exact fun pair hpair => (hsizes pair hpair).1),
    if_neg (by rw [← bp.sizes]; omega), hrun, Option.map_some, hok.finalElement_eq, hvalue,
    value_emptyBatch, hsum, zero_add]

variable {pair : List P × BPPlusProof F P}

lemma batchElement_single {X : P} (hsizes : bp.SizesOk pair)
    (hX : bp.pairElement hash pair = some X) (w : F) :
    bp.batchElement hash (fun _ => w) [pair.1] [pair.2] = some (w • X) := by
  have heq := batchElement_eq_some hash (fun _ => w) [pair] (fun _ => X)
    (fun p hp => List.mem_singleton.mp hp ▸ hsizes) (fun k hk => by simpa using hX)
  simpa using heq

variable [DecidableEq P]

lemma verify_eq_decide {w : F} (hw : w ≠ 0) {X : P} (hsizes : bp.SizesOk pair)
    (hX : bp.pairElement hash pair = some X) :
    bp.verify hash w pair.1 pair.2 = decide (X = 0) := by
  rw [verify, verifyBatch, batchElement_single hash hsizes hX, Bool.eq_iff_iff]
  simp [hw]

omit [DecidableEq F] [DecidableEq P] in
/-- Two vectors of weights that agree outside `k` and both annihilate `E` agree at `k`,
unless `E k` is zero. -/
lemma weight_unique {n k : ℕ} (hk : k < n) {E : ℕ → P} (hE : E k ≠ 0) {weight weight' : ℕ → F}
    (hagree : ∀ j, j ≠ k → weight j = weight' j) (h : ∑ j ∈ range n, weight j • E j = 0)
    (h' : ∑ j ∈ range n, weight' j • E j = 0) : weight k = weight' k := by
  have hdiff : ∑ j ∈ range n, (weight j - weight' j) • E j = (weight k - weight' k) • E k := by
    apply sum_eq_single k
    · intro j _ hj
      rw [hagree j hj, sub_self, zero_smul]
    · intro hnot
      exact absurd (mem_range.mpr hk) hnot
  have hzero : (weight k - weight' k) • E k = 0 := by
    rw [← hdiff]
    simp only [sub_smul, sum_sub_distrib, h, h', sub_zero]
  exact sub_eq_zero.mp ((smul_eq_zero.mp hzero).resolve_right hE)

/-- For pairs of fitting sizes whose challenges are not zero, the element of the batch is the
weighted sum of their elements. So a batch of pairs that verify alone verifies for all weights, and
a pair that does not verify alone leaves at most one value of its weight, the other weights fixed,
for which the batch verifies. -/
theorem rangeBatch_is_weighted_sum (bp : BPPlus P) (hash : Transcript F P → F)
    (pairs : List (List P × BPPlusProof F P))
    (hwf : ∀ pair ∈ pairs, bp.SizesOk pair ∧ (bp.pairElement hash pair).isSome) :
    ∃ E : ℕ → P, (∀ k (hk : k < pairs.length), bp.pairElement hash pairs[k] = some (E k)) ∧
      (∀ weight : ℕ → F, bp.batchElement hash weight (pairs.map Prod.fst) (pairs.map Prod.snd) =
          some (∑ k ∈ range pairs.length, weight k • E k)) ∧
      ((∀ pair ∈ pairs, ∃ w ≠ 0, bp.verify hash w pair.1 pair.2 = true) → ∀ weight : ℕ → F,
        bp.verifyBatch hash weight (pairs.map Prod.fst) (pairs.map Prod.snd) = true) ∧
      ∀ k (hk : k < pairs.length), (∃ w ≠ 0, bp.verify hash w pairs[k].1 pairs[k].2 = false) →
        ∀ weight weight' : ℕ → F, (∀ j, j ≠ k → weight j = weight' j) →
          bp.verifyBatch hash weight (pairs.map Prod.fst) (pairs.map Prod.snd) = true →
          bp.verifyBatch hash weight' (pairs.map Prod.fst) (pairs.map Prod.snd) = true →
          weight k = weight' k := by
  have halone : ∀ k, ∃ X : P, ∀ hk : k < pairs.length,
      bp.pairElement hash pairs[k] = some X := by
    intro k
    by_cases hk : k < pairs.length
    · obtain ⟨X, hX⟩ := Option.isSome_iff_exists.mp (hwf pairs[k] (getElem_mem hk)).2
      exact ⟨X, fun _ => hX⟩
    · exact ⟨0, fun hk' => absurd hk' hk⟩
  choose E hE using halone
  have hsum : ∀ weight : ℕ → F, bp.batchElement hash weight (pairs.map fst) (pairs.map snd) =
        some (∑ k ∈ range pairs.length, weight k • E k) :=
    fun weight => batchElement_eq_some hash weight pairs E (fun pair hpair => (hwf pair hpair).1) hE
  have hverify : ∀ weight : ℕ → F,
      bp.verifyBatch hash weight (pairs.map fst) (pairs.map snd) = true ↔
        ∑ k ∈ range pairs.length, weight k • E k = 0 := by
    intro weight
    rw [verifyBatch, hsum, beq_iff_eq, Option.some_inj]
  refine ⟨E, hE, hsum, ?_, ?_⟩
  · intro hall weight
    rw [hverify]
    apply sum_eq_zero
    intro k hk
    rw [mem_range] at hk
    obtain ⟨w, hw, hverified⟩ := hall pairs[k] (getElem_mem hk)
    rw [verify_eq_decide hash hw (hwf _ (getElem_mem hk)).1 (hE k hk),
      decide_eq_true_eq] at hverified
    rw [hverified, smul_zero]
  · rintro k hk ⟨w, hw, hrejected⟩ weight weight' hagree haccept haccept'
    rw [verify_eq_decide hash hw (hwf _ (getElem_mem hk)).1 (hE k hk),
      decide_eq_false_iff_not] at hrejected
    exact weight_unique hk hrejected hagree ((hverify weight).mp haccept)
      ((hverify weight').mp haccept')

end

end BPPlus

def smallBPPlus : BPPlus ℚ where
  G := 1
  H := 2
  Gi := [3, 4]
  Hi := [5, 6]
  N := 1
  sizes := rfl
  bitLength := by decide

def smallRangeProof (rounds : ℕ) : BPPlusProof ℚ ℚ where
  A := 1
  A1 := 2
  B := 3
  r1 := 1
  s1 := 2
  d1 := 5
  L := List.replicate rounds 7
  R := List.replicate rounds 8

/-- A batch of a proof for one value and a proof for two values. -/
theorem rangeBatch_is_weighted_sum_two : ∃ E : ℕ → ℚ, ∀ weight : ℕ → ℚ,
      smallBPPlus.batchElement (fun _ => 1) weight [[1], [2, 3]]
        [smallRangeProof 0, smallRangeProof 1] = some (∑ k ∈ range 2, weight k • E k) := by
  obtain ⟨E, -, hsum, -, -⟩ := BPPlus.rangeBatch_is_weighted_sum smallBPPlus (fun _ => (1 : ℚ))
    [([1], smallRangeProof 0), ([2, 3], smallRangeProof 1)]
    (List.forall_mem_cons.mpr ⟨⟨⟨rfl, by decide⟩, by decide +kernel⟩,
      forall_mem_singleton.mpr ⟨⟨rfl, by decide⟩, by decide +kernel⟩⟩)
  exact ⟨E, hsum⟩

end Firo.LibSpark
