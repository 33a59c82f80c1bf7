import Firo.Spark.Accept
import Firo.Spark.NameState

/-! What `CheckSparkNameTx` and the conflict test guarantee about the names that a block carries.
The names of a block are a function of the block and its height. -/
namespace Firo.Spark

open Firo.Lib

variable {vtx : List CTransaction}

namespace CSparkNameManager

variable {m : CSparkNameManager} {env : NameEnv} {cp : ConsensusParams}

/-- What the checks of one name transaction guarantee, with the ownership proofs that
they verified. -/
structure NameChecked (m : CSparkNameManager) (env : NameEnv) (cp : ConsensusParams)
    (tx : CTransaction) (nHeight : Int) (canonical : Bool) (nDoS : Nat) (d : CSparkNameTxData)
    (pos : Nat) : Prop where
  format : checkNameFormat cp nHeight nDoS d = .ok ()
  owner : checkNameOwner m nDoS d = .ok ()
  validity : checkNameValidity m cp nHeight nDoS d = .ok ()
  fee : checkNameFee env cp nHeight nDoS tx d = .ok ()
  unused : isNameTransfer d = true ∨ m.sparkNames[toUpper d.name]? = none →
    m.sparkNameAddresses[d.sparkAddress]? = none
  ownership : checkNameOwnership env canonical nDoS tx d pos = .ok ()
  transfer : isNameTransfer d = true → checkNameTransfer m env cp nHeight canonical nDoS d = .ok ()

variable {tx : CTransaction} {nHeight : Int} {d : CSparkNameTxData}
  {own : Std.ExtTreeMap String CSparkNameTxData}

variable {canonical : Bool} {nDoS pos : Nat}

lemma checkSparkNameData_eq_ok {u}
    (h : m.checkSparkNameData env cp tx nHeight canonical nDoS d pos = .ok u) :
    NameChecked m env cp tx nHeight canonical nDoS d pos := by
  unfold checkSparkNameData at h
  simp only [except_bind_eq_ok, rejectIf_eq_ok] at h
  obtain ⟨_, hformat, _, howner, _, hvalidity, _, hfee, _, -, _, hunused, _, hown, htransfer⟩ := h
  refine ⟨hformat, howner, hvalidity, hfee, fun hfree => ?_, hown, fun ht => ?_⟩
  · rcases hfree with ht | hnone
    · rw [ht, Bool.true_or, Bool.true_and] at hunused
      exact contains_eq_false_iff.mp hunused
    · rw [contains_eq_false_iff.mpr hnone, Bool.not_false, Bool.or_true, Bool.true_and] at hunused
      exact contains_eq_false_iff.mp hunused
  · rw [if_pos ht] at htransfer
    exact htransfer

lemma NameChecked.op (h : NameChecked m env cp tx nHeight canonical nDoS d pos) :
    opType d = if isNameTransfer d then opTransfer else opRegister := by
  have hformat := h.format
  unfold checkNameFormat at hformat
  simp only [except_bind_eq_ok, rejectIf_eq_ok] at hformat
  obtain ⟨_, -, _, -, _, hmax, _, hunreg, -⟩ := hformat
  unfold opType isNameTransfer
  by_cases hversion : 2 ≤ d.nVersion
  · simp only [hversion, decide_true, Bool.true_and, decide_eq_false_iff_not,
      beq_eq_false_iff_ne] at hmax hunreg
    simp only [hversion, if_true, decide_true, Bool.true_and, beq_iff_eq]
    split
    case isTrue ht => exact ht
    case isFalse ht =>
      have hlt : d.operationType.toNat < 3 := UInt8.lt_iff_toNat_lt.mp (UInt8.not_le.mp hmax)
      apply UInt8.toNat_inj.mp
      have h1 : d.operationType.toNat ≠ 1 := fun heq => ht (UInt8.toNat_inj.mp heq)
      have h2 : d.operationType.toNat ≠ 2 := fun heq => hunreg (UInt8.toNat_inj.mp heq)
      change _ = 0
      omega
  · simp [hversion]

lemma NameChecked.accepted (h : NameChecked m env cp tx nHeight canonical nDoS d pos) :
    NameAccepted m (toUpper d.name) d where
  upper := toUpper_idem d.name
  op := h.op
  owner := by
    intro ht data hdata
    have howner := h.owner
    unfold checkNameOwner at howner
    rw [hdata] at howner
    simpa [ht] using howner
  unused := h.unused
  old := by
    intro ht
    have htransfer := h.transfer ht
    unfold checkNameTransfer at htransfer
    dsimp only at htransfer
    split at htransfer
    all_goals
      simp only [except_bind_eq_ok, rejectIf_eq_ok] at htransfer
    · obtain ⟨_, -, _, -, _, hold, -⟩ := htransfer
      simpa using hold
    · obtain ⟨_, -, _, hold, -⟩ := htransfer
      simpa using hold

def txName (env : NameEnv) (cp : ConsensusParams) (nHeight : Int) (tx : CTransaction) :
    Option CSparkNameTxData :=
  if tx.isSparkSpend && decide (cp.nSparkNamesStartBlock ≤ nHeight) then
    match env.parseSparkNameTxData tx
        (tx.isSparkSpendV2 || decide (cp.nSparkChaumV2StartBlock ≤ nHeight)) with
    | .data d _ => some d
    | _ => none
  else none

lemma checkSparkNameTx_eq_ok {data} (h : m.checkSparkNameTx env cp tx nHeight nDoS = .ok data) :
    data = txName env cp nHeight tx ∧
      ∀ d ∈ data, ∃ canonical pos, NameChecked m env cp tx nHeight canonical nDoS d pos := by
  unfold checkSparkNameTx at h
  obtain ⟨_, hspend, hrest⟩ := except_bind_eq_ok.mp h
  rw [rejectIf_eq_ok, Bool.not_eq_false'] at hspend
  unfold txName
  split at hrest
  case isTrue hlow =>
    obtain rfl := Except.ok.inj hrest
    simp [hspend, hlow]
  case isFalse hlow =>
    rw [not_lt] at hlow
    simp only [hspend, hlow, decide_true, Bool.and_true, if_true]
    dsimp only at hrest
    split at hrest
    case h_1 hparse =>
      obtain ⟨_, -, hpure⟩ := except_bind_eq_ok.mp hrest
      obtain rfl := Except.ok.inj hpure
      simp [hparse]
    case h_2 => cases hrest
    case h_3 d pos hparse =>
      obtain ⟨_, hdata, hpure⟩ := except_bind_eq_ok.mp hrest
      obtain rfl := Except.ok.inj hpure
      refine ⟨by simp [hparse], ?_⟩
      rintro d' hd'
      cases hd'
      exact ⟨_, pos, checkSparkNameData_eq_ok hdata⟩

/-- The score of a failure that depends on the chain: none in the mempool. -/
def contextualFailureDoS (nHeight : Int) : Nat :=
  if nHeight = INT_MAX then 0 else 100

/-- The names that the transactions of a block carry, by their upper-case text. -/
def blockNames (env : NameEnv) (cp : ConsensusParams) (nHeight : Int)
    (vtx : List CTransaction) : Std.ExtTreeMap String CSparkNameTxData :=
  vtx.foldl (fun own tx => insertName own (txName env cp nHeight tx)) ∅

/-- The name checks of the transactions of a block: each against the names before the
block and against those that the block already carries. -/
def checkBlockNames (m : CSparkNameManager) (env : NameEnv) (cp : ConsensusParams)
    (nHeight : Int) : List CTransaction → Std.ExtTreeMap String CSparkNameTxData →
      Except Reject (Std.ExtTreeMap String CSparkNameTxData)
  | [], own => .ok own
  | tx :: rest, own =>
    if tx.isSparkSpend then do
      let data ← m.checkSparkNameTx env cp tx nHeight (contextualFailureDoS nHeight)
      match data with
      | none => checkBlockNames m env cp nHeight rest own
      | some d => do
        rejectIf (isInConflict d own) .failed
        checkBlockNames m env cp nHeight rest (own.insert (toUpper d.name) d)
    else checkBlockNames m env cp nHeight rest own

lemma not_isInConflict (h : isInConflict d own = false) : own[toUpper d.name]? = none ∧
      ∀ (k : String) (d' : CSparkNameTxData), own[k]? = some d' →
        d'.sparkAddress ≠ d.sparkAddress := by
  unfold isInConflict at h
  rw [Bool.or_eq_false_iff, contains_eq_false_iff, List.any_eq_false] at h
  refine ⟨h.1, fun k d' hd' => ?_⟩
  simpa using h.2 (k, d') (Std.ExtTreeMap.mem_toList_iff_getElem?_eq_some.mpr hd')

lemma NamesAccepted.empty : NamesAccepted m ∅ := by
  constructor
  · intro k d hd
    simp at hd
  · intro k k' d d' hd
    simp at hd

lemma NamesAccepted.insert (h : NamesAccepted m own) (hd : NameAccepted m (toUpper d.name) d)
    (hconflict : isInConflict d own = false) : NamesAccepted m (own.insert (toUpper d.name) d) := by
  obtain ⟨-, haddr⟩ := not_isInConflict hconflict
  constructor
  · intro k d' hd'
    rw [getElem?_insert_eq] at hd'
    split at hd'
    case isTrue hk =>
      cases hd'
      exact hk ▸ hd
    case isFalse => exact h.accepted k d' hd'
  · intro k k' d₁ d₂ h₁ h₂ heq
    rw [getElem?_insert_eq] at h₁ h₂
    split at h₁
    case isTrue hk =>
      cases h₁
      split at h₂
      case isTrue hk' => exact hk.symm.trans hk'
      case isFalse => exact absurd heq.symm (haddr k' d₂ h₂)
    case isFalse =>
      split at h₂
      case isTrue =>
        cases h₂
        exact absurd heq (haddr k d₁ h₁)
      case isFalse => exact h.distinct k k' d₁ d₂ h₁ h₂ heq

lemma txName_of_not_spend (h : tx.isSparkSpend = false) : txName env cp nHeight tx = none := by
  simp [txName, h]

lemma checkBlockNames_eq_ok {own own'} (hown : NamesAccepted m own)
    (h : checkBlockNames m env cp nHeight vtx own = .ok own') : NamesAccepted m own' ∧
      own' = vtx.foldl (fun own tx => insertName own (txName env cp nHeight tx)) own := by
  induction vtx generalizing own with
  | nil =>
    obtain rfl := Except.ok.inj h
    exact ⟨hown, rfl⟩
  | cons tx rest ih =>
    rw [checkBlockNames] at h
    rw [List.foldl_cons]
    split at h
    case isFalse hspend =>
      rw [txName_of_not_spend (by simpa using hspend)]
      exact ih hown h
    case isTrue hspend =>
      obtain ⟨data, hdata, hrest⟩ := except_bind_eq_ok.mp h
      obtain ⟨hname, hchecked⟩ := checkSparkNameTx_eq_ok hdata
      rw [← hname]
      cases data with
      | none => exact ih hown hrest
      | some d =>
        obtain ⟨_, hconflict, hrest⟩ := except_bind_eq_ok.mp hrest
        obtain ⟨canonical, pos, hd⟩ := hchecked d rfl
        exact ih (hown.insert hd.accepted (rejectIf_eq_ok.mp hconflict)) hrest

lemma upper_blockNames {k} (hk : ((blockNames env cp nHeight vtx)[k]?).isSome) : toUpper k = k := by
  unfold blockNames at hk
  generalize hown : (∅ : Std.ExtTreeMap String CSparkNameTxData) = own at hk
  have hupper : (own[k]?).isSome → toUpper k = k := by simp [← hown]
  clear hown
  induction vtx generalizing own with
  | nil => exact hupper hk
  | cons tx rest ih =>
    rw [List.foldl_cons] at hk
    refine ih _ hk fun hsome => ?_
    unfold insertName at hsome
    split at hsome
    case h_1 d hd =>
      rw [getElem?_insert_eq] at hsome
      split at hsome
      case isTrue heq => rw [← heq, toUpper_idem]
      case isFalse => exact hupper hsome
    case h_2 => exact hupper hsome

end CSparkNameManager

lemma TxsAccepted.checkBlockNames {Coin Tag Proof : Type} [DecidableEq Tag]
    {env : SparkEnv Coin Tag Proof} {cp : ConsensusParams} {v : View Coin Tag} {nHeight : Int}
    {txIds : List Uint256} {ctx ctx' : CheckCtx Coin Tag Proof} {info info' : CSparkTxInfo Coin Tag}
    (h : TxsAccepted env cp v nHeight txIds vtx ctx info ctx' info') :
    v.nameManager.checkBlockNames env.names cp nHeight vtx info.sparkNames =
      .ok info'.sparkNames := by
  induction h with
  | nil => rfl
  | cons hid htx hrest ih =>
    rw [CSparkNameManager.checkBlockNames]
    cases htx with
    | unchecked hspend =>
      rw [if_neg (by simp [hspend])]
      exact ih
    | mint hspend _ _ _ _ hinfo =>
      rw [if_neg (by simp [hspend]), ← ih, hinfo]
    | spend hspend _ _ _ _ data hdata hconflict _ hinfo =>
      rw [if_pos hspend, CSparkNameManager.contextualFailureDoS, hdata]
      cases data with
      | none =>
        rw [← ih, hinfo]
        rfl
      | some d =>
        change (rejectIf (CSparkNameManager.isInConflict d _) Reject.failed >>= fun _ => _) = _
        rw [hconflict d rfl, ← ih, hinfo]
        rfl

end Firo.Spark
