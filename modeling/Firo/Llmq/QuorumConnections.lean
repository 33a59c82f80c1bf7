import Firo.Evo.MNList
import Firo.Lib.Loop

/-! The members of a quorum stand on a ring, in the order of their scores. `GetQuorumConnections`
connects a member to those that are a power of two ahead of it. -/
namespace Firo.Llmq

open Firo.Lib Firo.Spark Firo.Evo

structure QuorumMembers where
  mns : List CDeterministicMN
  proTxHash_nodup : (mns.map (·.proTxHash)).Nodup

/-- The hash of a masternode with a modifier, as a number, and its collateral. -/
structure ScoreEnv where
  sha256 : Uint256 → Uint256 → Nat
  collateralOutpoint : CDeterministicMN → Nat ×ₗ Nat

namespace ScoreEnv

variable (env : ScoreEnv) (A : CDeterministicMNList) (maxSize : Nat) (modifier : Uint256)

def calculateScores : List (Nat × CDeterministicMN) :=
  (A.mnMap.filter fun dmn => dmn.pdmnState.nPoSeBanHeight == -1 &&
    dmn.pdmnState.confirmedHash != 0).map fun dmn =>
      (env.sha256 dmn.pdmnState.confirmedHashWithProRegTxHash modifier, dmn)

def calculateQuorum : QuorumMembers where
  mns := ((Keyed.sortBy (fun p : Nat × CDeterministicMN => toLex (p.1, env.collateralOutpoint p.2))
    (env.calculateScores A modifier)).reverse.take maxSize).map Prod.snd
  proTxHash_nodup := by
    have hscores : ((env.calculateScores A modifier).map fun p => p.2.proTxHash).Nodup := by
      rw [calculateScores, List.map_map]
      exact A.proTxHash_nodup.sublist (List.filter_sublist.map _)
    rw [List.map_map]
    refine List.Nodup.sublist ((List.take_sublist _ _).map _) ?_
    exact (((List.reverse_perm _).trans (Keyed.sortBy_perm _ _)).map _).nodup_iff.mpr hscores

end ScoreEnv

structure ConnectState where
  gap : Nat
  gap_max : Nat
  k : Nat
  result : Finset Uint256

/-- One evaluation of the condition of the loop and its body. The pointers of two members are
equal if their hashes are. -/
def connectRound (mns : List CDeterministicMN) (dmn : CDeterministicMN) (i : Nat)
    (s : ConnectState) : Round ConnectState :=
  let gap_max := s.gap_max / 2
  if gap_max ≠ 0 ∨ s.k ≤ 1 then
    match mns[(i + s.gap) % mns.length]? with
    | none => .abort
    | some otherDmn =>
      if otherDmn.proTxHash = dmn.proTxHash then .more { s with gap_max }
      else .more ⟨s.gap * 2, gap_max, s.k + 1, insert otherDmn.proTxHash s.result⟩
  else .stop { s with gap_max }

/-- The loop runs for at most the given number of rounds. -/
def getQuorumConnections (rounds : Nat) (mns : List CDeterministicMN) (forMember : Uint256) :
    Option (Finset Uint256) :=
  match mns.zipIdx.find? fun p => p.1.proTxHash = forMember with
  | none => some ∅
  | some (dmn, i) =>
    (loop (connectRound mns dmn i) rounds ⟨1, mns.length - 1, 0, ∅⟩).map ConnectState.result

section

variable {mns : List CDeterministicMN} (hnodup : (mns.map (·.proTxHash)).Nodup)
include hnodup

lemma getQuorumConnections_eq (rounds : Nat) (i : Fin mns.length) :
    getQuorumConnections rounds mns mns[i].proTxHash =
      (loop (connectRound mns mns[i] i) rounds ⟨1, mns.length - 1, 0, ∅⟩).map
        ConnectState.result := by
  have hfind : (mns.zipIdx.find? fun p => p.1.proTxHash = mns[i].proTxHash) =
      some (mns[i], i.val) := by
    rw [List.find?_eq_some_iff_getElem]
    refine ⟨by simp, i, by simp, by simp, fun j hj => ?_⟩
    have hne := List.nodup_iff_injective_getElem.mp hnodup |>.ne
      (show (⟨j, by simp; omega⟩ : Fin (mns.map (·.proTxHash)).length) ≠ ⟨i, by simp⟩ by
        simp; omega)
    simpa using hne
  rw [getQuorumConnections, hfind]

lemma exists_neighbour (i : Fin mns.length) (gap : Nat) :
    ∃ otherDmn, mns[(i + gap) % mns.length]? = some otherDmn ∧
      (otherDmn.proTxHash = mns[i].proTxHash ↔ mns.length ∣ gap) := by
  have hlt := Nat.mod_lt (i + gap) i.pos
  refine ⟨mns[(i + gap) % mns.length], List.getElem?_eq_getElem hlt, ?_⟩
  have hinj := List.nodup_iff_injective_getElem.mp hnodup |>.eq_iff
    (a := ⟨(i + gap) % mns.length, by simpa using hlt⟩) (b := ⟨i, by simp⟩)
  simp only [List.getElem_map, Fin.mk.injEq] at hinj
  refine hinj.trans ?_
  conv_lhs => rhs; rw [← Nat.mod_eq_of_lt i.isLt]
  rw [← Nat.modEq_zero_iff_dvd]
  exact ⟨fun h => Nat.ModEq.add_left_cancel' (c := i.val) (b := 0) h, fun h => h.add_left i.val⟩

lemma loop_connectRound_eq_none (i : Fin mns.length) (hsmall : mns.length ≤ 2) (rounds : Nat) :
    loop (connectRound mns mns[i] i) rounds ⟨1, mns.length - 1, 0, ∅⟩ = none := by
  -- the step stays at the size of the ring, and the counter alone keeps the loop going
  refine loop_eq_none (I := fun s => s.k < mns.length ∧ s.gap = 2 ^ s.k) (fun s hs => ?_)
    ⟨i.pos, rfl⟩ rounds
  obtain ⟨hk, hgap⟩ := hs
  obtain ⟨otherDmn, hother, hself⟩ := exists_neighbour hnodup i s.gap
  simp only [connectRound, hother, hself, show s.k ≤ 1 by omega, or_true, ↓reduceIte]
  split
  · exact ⟨_, rfl, hk, hgap⟩
  case isFalse hdvd =>
    refine ⟨_, rfl, ?_, by simp only [hgap, pow_succ]⟩
    show s.k + 1 < mns.length
    by_contra hlast
    refine hdvd (hgap ▸ ?_)
    obtain ⟨h₁, h₂⟩ | ⟨h₁, h₂⟩ : mns.length = 1 ∧ s.k = 0 ∨ mns.length = 2 ∧ s.k = 1 := by omega
    · simp [h₁]
    · simp [h₁, h₂]

structure ConnectState.Inv (n : Nat) (own next : Uint256) (s : ConnectState) : Prop where
  gap : s.gap = 2 ^ s.k
  gap_max : s.gap_max = (n - 1) / 2 ^ s.k
  own_notMem : own ∉ s.result
  next_mem : 1 ≤ s.k → next ∈ s.result

omit hnodup in
/-- The distances that the loop reaches are below the size of the ring. -/
lemma ConnectState.Inv.pow_lt {n : Nat} {own next} {s : ConnectState}
    (hs : s.Inv n own next) (hn : 3 ≤ n) (hcond : s.gap_max / 2 ≠ 0 ∨ s.k ≤ 1) : 2 ^ s.k < n := by
  rcases hcond with hcond | hcond
  · rw [hs.gap_max, Nat.div_div_eq_div_mul, ← pow_succ, Nat.div_ne_zero_iff] at hcond
    rw [pow_succ] at hcond
    omega
  · have : 2 ^ s.k ≤ 2 ^ 1 := Nat.pow_le_pow_right (by decide) hcond
    omega

lemma loop_connectRound_spec (i : Fin mns.length) (hn : 3 ≤ mns.length) {rounds : Nat}
    (hrounds : mns.length + 2 < rounds) :
    ∃ s next, loop (connectRound mns mns[i] i) rounds ⟨1, mns.length - 1, 0, ∅⟩ = some s ∧
      mns[(i + 1) % mns.length]? = some next ∧
      mns[i].proTxHash ∉ s.result ∧ next.proTxHash ∈ s.result := by
  obtain ⟨next, hnext, -⟩ := exists_neighbour hnodup i 1
  have hround (s : ConnectState) (hs : s.Inv mns.length mns[i].proTxHash next.proTxHash) :
      (connectRound mns mns[i] i s).Meets
        (ConnectState.Inv mns.length mns[i].proTxHash next.proTxHash)
        (fun s => mns.length + 2 - s.k)
        (fun s => mns[i].proTxHash ∉ s.result ∧ next.proTxHash ∈ s.result)
        (mns.length + 2 - s.k) := by
    by_cases hcond : s.gap_max / 2 ≠ 0 ∨ s.k ≤ 1
    case pos =>
      have hpow := hs.pow_lt hn hcond
      have hk : s.k < 2 ^ s.k := Nat.lt_two_pow_self
      have hne : ¬ mns.length ∣ s.gap := hs.gap ▸ Nat.not_dvd_of_pos_of_lt (by positivity) hpow
      obtain ⟨otherDmn, hother, hiff⟩ := exists_neighbour hnodup i s.gap
      simp only [connectRound, hcond, hother, hiff, hne, ↓reduceIte]
      refine ⟨⟨by simp only [hs.gap, pow_succ], ?_, ?_, fun _ => ?_⟩, ?_⟩
      · simp only [hs.gap_max, Nat.div_div_eq_div_mul, pow_succ]
      · rw [Finset.mem_insert, not_or]
        exact ⟨fun h => hne (hiff.mp h.symm), hs.own_notMem⟩
      · rcases Nat.eq_zero_or_pos s.k with h | h
        · rw [hs.gap, h, pow_zero, hnext] at hother
          exact Option.some.inj hother ▸ Finset.mem_insert_self _ _
        · exact Finset.mem_insert_of_mem (hs.next_mem h)
      · show mns.length + 2 - (s.k + 1) < mns.length + 2 - s.k
        omega
    case neg =>
      simp only [connectRound, hcond, ↓reduceIte]
      push Not at hcond
      exact ⟨hs.own_notMem, hs.next_mem hcond.2.le⟩
  obtain ⟨s, hs, hresult⟩ := loop_spec hround (s := ⟨1, mns.length - 1, 0, ∅⟩)
    ⟨rfl, by simp, by simp, fun h => absurd h (by simp)⟩ hrounds
  exact ⟨s, next, hs, hnext, hresult⟩

end

def QuorumMembers.Connects (q : QuorumMembers) (i j : Fin q.mns.length) : Prop :=
  ∃ rounds result, getQuorumConnections rounds q.mns q.mns[i].proTxHash = some result ∧
    q.mns[j].proTxHash ∈ result

lemma reflTransGen_of_ring {n : Nat} {r} (h : ∀ i j : Fin n, j.val = (i + 1) % n → r i j) (i j) :
      Relation.ReflTransGen r i j := by
  have hwalk (d : Nat) (k : Fin n) (hk : k.val = (i + d) % n) : Relation.ReflTransGen r i k := by
    induction d generalizing k with
    | zero =>
      rw [Nat.add_zero, Nat.mod_eq_of_lt i.isLt] at hk
      exact Fin.ext hk ▸ .refl
    | succ d ih =>
      refine (ih ⟨(i + d) % n, Nat.mod_lt _ i.pos⟩ rfl).tail (h _ _ ?_)
      rw [hk, Nat.mod_add_mod, Nat.add_assoc]
  refine hwalk (n - i + j) j ?_
  rw [show i.val + (n - i + j) = j + n by omega, Nat.add_mod_right, Nat.mod_eq_of_lt j.isLt]

/-- The selection returns for a member exactly if the quorum has at least three members. It then
leaves out the member and has its successor on the ring, which makes the connections of all
members strongly connected. -/
theorem quorum_connections_return_iff (q : QuorumMembers) : (∀ i : Fin q.mns.length,
      (3 ≤ q.mns.length ↔ ∃ rounds result next,
        getQuorumConnections rounds q.mns q.mns[i].proTxHash = some result ∧
        q.mns[(i + 1) % q.mns.length]? = some next ∧
        q.mns[i].proTxHash ∉ result ∧ next.proTxHash ∈ result) ∧
      (q.mns.length ≤ 2 → ∀ rounds, getQuorumConnections rounds q.mns q.mns[i].proTxHash = none)) ∧
    (3 ≤ q.mns.length → ∀ i j, Relation.ReflTransGen q.Connects i j) := by
  have hreturns (hn : 3 ≤ q.mns.length) (i : Fin q.mns.length) : ∃ rounds result next,
      getQuorumConnections rounds q.mns q.mns[i].proTxHash = some result ∧
      q.mns[(i + 1) % q.mns.length]? = some next ∧ q.mns[i].proTxHash ∉ result ∧
      next.proTxHash ∈ result := by
    obtain ⟨s, next, hs, hresult⟩ :=
      loop_connectRound_spec q.proTxHash_nodup i hn (Nat.lt_succ_self _)
    exact ⟨_, s.result, next, by rw [getQuorumConnections_eq q.proTxHash_nodup, hs]; rfl, hresult⟩
  have hstuck (hn : q.mns.length ≤ 2) (i : Fin q.mns.length) (rounds : Nat) :
      getQuorumConnections rounds q.mns q.mns[i].proTxHash = none := by
    rw [getQuorumConnections_eq q.proTxHash_nodup, loop_connectRound_eq_none q.proTxHash_nodup i hn]
    rfl
  refine ⟨fun i => ⟨⟨fun hn => hreturns hn i, ?_⟩, fun hn => hstuck hn i⟩, fun hn => ?_⟩
  · rintro ⟨rounds, result, next, hresult, -⟩
    by_contra hn
    rw [hstuck (by omega) i rounds] at hresult
    cases hresult
  · refine reflTransGen_of_ring fun i j hj => ?_
    obtain ⟨rounds, result, next, hresult, hnext, -, hmem⟩ := hreturns hn i
    rw [← hj, List.getElem?_eq_getElem j.isLt, Option.some.injEq] at hnext
    exact ⟨rounds, result, hresult, hnext ▸ hmem⟩

/-- The quorum of two confirmed masternodes, of which the second one has the higher score. -/
def twoMNs : QuorumMembers :=
  ScoreEnv.calculateQuorum ⟨fun _ _ => 0, fun dmn => toLex (dmn.internalId, 0)⟩
    { mnMap := [⟨1, 1, { confirmedHash := 1 }⟩, ⟨2, 2, { confirmedHash := 1 }⟩] } 50 7

/-- The loop for the second one comes back to itself after a round and goes on for ever. -/
theorem twoMNs_never_connect : twoMNs.mns.map (·.proTxHash) = [2, 1] ∧
    ∀ rounds, getQuorumConnections rounds twoMNs.mns 2 = none := by
  have hlength : twoMNs.mns.length = 2 := by decide +kernel
  refine ⟨by decide +kernel, fun rounds => ?_⟩
  refine (getQuorumConnections_eq twoMNs.proTxHash_nodup rounds ⟨0, by omega⟩).trans ?_
  rw [loop_connectRound_eq_none twoMNs.proTxHash_nodup _ hlength.le]
  rfl

end Firo.Llmq
