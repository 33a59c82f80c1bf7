import Firo.Lib.Run
import Firo.Spark.Basic

/-! `AddNonLockedTx` and `RemoveNonLockedTx` of `CInstantSendManager`, and the index of inputs in
which `ResolveBlockConflicts` finds the conflicts with a lock. -/
namespace Firo.Llmq

open Firo.Lib Firo.Spark List

structure NonLockedTxInfo where
  pindexMined : Option Uint256 := none
  tx : Option CTransaction := none
  children : Finset Uint256 := ∅

structure NonLockedTxs where
  nonLockedTxs : Uint256 → Option NonLockedTxInfo := fun _ => none
  nonLockedTxsByInputs : List (Uint256 × Nat × Uint256) := []
  pendingRetryTxs : Finset Uint256 := ∅

abbrev TxMap := Uint256 → Option NonLockedTxInfo

def addChild (txid : Uint256) (m : TxMap) (in_ : CTxIn) : TxMap :=
  let info := (m in_.prevout.hash).getD {}
  Function.update m in_.prevout.hash (some { info with children := insert txid info.children })

/-- A parent without a transaction of its own goes with its last child. -/
def removeChild (txid : Uint256) (m : TxMap) (in_ : CTxIn) : TxMap :=
  match m in_.prevout.hash with
  | none => m
  | some info =>
    let info := { info with children := info.children.erase txid }
    Function.update m in_.prevout.hash
      (if info.tx = none ∧ info.children = ∅ then none else some info)

namespace NonLockedTxs

variable (getHash : CTransaction → Uint256)

def addNonLockedTx (tx : CTransaction) (s : NonLockedTxs) : NonLockedTxs :=
  let txid := getHash tx
  let info := (s.nonLockedTxs txid).getD {}
  { s with
    nonLockedTxs := if info.tx.isSome then s.nonLockedTxs else
      tx.vin.foldl (addChild txid)
        (Function.update s.nonLockedTxs txid (some { info with tx := some tx }))
    -- only an entry that was not there before is put into the index
    nonLockedTxsByInputs := if (s.nonLockedTxs txid).isSome then s.nonLockedTxsByInputs else
      s.nonLockedTxsByInputs ++ tx.vin.map fun in_ => (in_.prevout.hash, in_.prevout.n, txid) }

def removeNonLockedTx (txid : Uint256) (retryChildren : Bool) (s : NonLockedTxs) : NonLockedTxs :=
  match s.nonLockedTxs txid with
  | none => s
  | some info =>
    let vin := (info.tx.map (·.vin)).getD []
    { nonLockedTxs := Function.update (vin.foldl (removeChild txid) s.nonLockedTxs) txid none
      -- all entries of the inputs go, whichever transaction they are of
      nonLockedTxsByInputs := s.nonLockedTxsByInputs.filter fun e =>
        ⟨e.1, e.2.1⟩ ∉ vin.map (·.prevout)
      pendingRetryTxs :=
        if retryChildren then s.pendingRetryTxs ∪ info.children else s.pendingRetryTxs }

/-- The assignment of `SyncTransaction` to a tracked transaction. -/
def setMined (txid : Uint256) (pindex : Option Uint256) (s : NonLockedTxs) : NonLockedTxs :=
  { s with
    nonLockedTxs := Function.update s.nonLockedTxs txid
      ((s.nonLockedTxs txid).map fun info => { info with pindexMined := pindex }) }

/-- The conflicts that `ResolveBlockConflicts` collects, with the blocks that they are mined in. -/
def conflicts (inputs : List COutPoint) (islockTxid : Uint256) (s : NonLockedTxs) :
    List (Uint256 × Uint256 × CTransaction) :=
  inputs.flatMap fun in_ => s.nonLockedTxsByInputs.filterMap fun e =>
    if e.1 = in_.hash ∧ e.2.1 = in_.n ∧ e.2.2 ≠ islockTxid then do
      let info ← s.nonLockedTxs e.2.2
      some (← info.pindexMined, e.2.2, ← info.tx)
    else none

inductive Action where
  | add (tx : CTransaction)
  | remove (txid : Uint256) (retryChildren : Bool)
  | setMined (txid : Uint256) (pindex : Option Uint256)

def step (s : NonLockedTxs) : Action → NonLockedTxs
  | .add tx => s.addNonLockedTx getHash tx
  | .remove txid retryChildren => s.removeNonLockedTx txid retryChildren
  | .setMined txid pindex => s.setMined txid pindex

def txOf (m : TxMap) (txid : Uint256) : Option CTransaction :=
  (m txid).bind (·.tx)

def childrenOf (m : TxMap) (txid : Uint256) : Finset Uint256 :=
  ((m txid).map (·.children)).getD ∅

def Spends (s : NonLockedTxs) (txid : Uint256) (o : COutPoint) : Prop :=
  ∃ tx, txOf s.nonLockedTxs txid = some tx ∧ o ∈ tx.vin.map (·.prevout)

structure Exact (s : NonLockedTxs) : Prop where
  index : ∀ o txid, (o.hash, o.n, txid) ∈ s.nonLockedTxsByInputs ↔ s.Spends txid o
  parent : ∀ o txid, s.Spends txid o → txid ∈ childrenOf s.nonLockedTxs o.hash

/-- A transaction is not added after its children, and not removed before them or beside a
conflicting one. -/
def Ok (s : NonLockedTxs) : Action → Prop
  | .add tx => s.nonLockedTxs (getHash tx) = none ∨
      (txOf s.nonLockedTxs (getHash tx)).isSome ∨ tx.vin = []
  | .remove txid _ => ∀ o c, c ≠ txid → s.Spends c o → ¬ s.Spends txid o ∧ o.hash ≠ txid
  | .setMined _ _ => True

section

variable (txid : Uint256) (vin : List CTxIn) (m : TxMap)

lemma txOf_update (h : Uint256) (info) (k) :
    txOf (Function.update m h info) k = if k = h then info.bind (·.tx) else txOf m k := by
  unfold txOf
  rw [Function.update_apply]
  split <;> rfl

lemma childrenOf_update (h : Uint256) (info) (k) : childrenOf (Function.update m h info) k =
      if k = h then (info.map (·.children)).getD ∅ else childrenOf m k := by
  unfold childrenOf
  rw [Function.update_apply]
  split <;> rfl

lemma addChild_spec (in_) : txOf (addChild txid m in_) = txOf m ∧
    ∀ k c, c ∈ childrenOf (addChild txid m in_) k ↔
      c ∈ childrenOf m k ∨ c = txid ∧ in_.prevout.hash = k := by
  refine ⟨funext fun k => ?_, fun k c => ?_⟩
  · rw [addChild, txOf_update]
    split
    case isTrue h => cases hk : m k <;> simp_all [txOf]
    case isFalse => rfl
  · rw [addChild, childrenOf_update]
    split
    case isTrue h => cases hk : m k <;> simp_all [childrenOf, or_comm]
    case isFalse h => simp [Ne.symm h]

lemma removeChild_spec (in_) : txOf (removeChild txid m in_) = txOf m ∧
    ∀ k c, c ∈ childrenOf (removeChild txid m in_) k ↔
      c ∈ childrenOf m k ∧ ¬ (c = txid ∧ in_.prevout.hash = k) := by
  unfold removeChild
  cases hm : m in_.prevout.hash with
  | none =>
    refine ⟨rfl, fun k c => ⟨fun hc => ⟨hc, ?_⟩, And.left⟩⟩
    rintro ⟨-, rfl⟩
    simp [childrenOf, hm] at hc
  | some info =>
    refine ⟨funext fun k => ?_, fun k c => ?_⟩
    · rw [txOf_update]
      split
      case isTrue h => split <;> simp_all [txOf]
      case isFalse => rfl
    · rw [childrenOf_update]
      split
      case isTrue h =>
        subst h
        simp only [childrenOf, hm, Option.map_some, Option.getD_some, and_true]
        have herase : c ∈ info.children ∧ ¬ c = txid ↔ c ∈ info.children.erase txid := by
          rw [Finset.mem_erase, and_comm]
        rw [herase]
        split
        case isTrue hlast => rw [hlast.2]; rfl
        case isFalse => rfl
      case isFalse h => simp [Ne.symm h]

lemma foldl_addChild_spec : txOf (vin.foldl (addChild txid) m) = txOf m ∧
    ∀ k c, c ∈ childrenOf (vin.foldl (addChild txid) m) k ↔
      c ∈ childrenOf m k ∨ c = txid ∧ k ∈ vin.map (·.prevout.hash) := by
  induction vin generalizing m with
  | nil => simp
  | cons in_ vin ih =>
    obtain ⟨htx, hchildren⟩ := addChild_spec txid m in_
    rw [foldl_cons, (ih _).1, htx]
    refine ⟨rfl, fun k c => ?_⟩
    rw [(ih _).2, hchildren, map_cons, mem_cons, @eq_comm _ k]
    tauto

lemma foldl_removeChild_spec : txOf (vin.foldl (removeChild txid) m) = txOf m ∧
    ∀ k c, c ∈ childrenOf (vin.foldl (removeChild txid) m) k ↔
      c ∈ childrenOf m k ∧ ¬ (c = txid ∧ k ∈ vin.map (·.prevout.hash)) := by
  induction vin generalizing m with
  | nil => simp
  | cons in_ vin ih =>
    obtain ⟨htx, hchildren⟩ := removeChild_spec txid m in_
    rw [foldl_cons, (ih _).1, htx]
    refine ⟨rfl, fun k c => ?_⟩
    rw [(ih _).2, hchildren, map_cons, mem_cons, @eq_comm _ k]
    tauto

end

section

variable {getHash} {s : NonLockedTxs}

lemma Exact.setMined (h : s.Exact) (txid) (pindex) : (s.setMined txid pindex).Exact := by
  have htx : txOf (s.setMined txid pindex).nonLockedTxs = txOf s.nonLockedTxs := by
    funext k
    rw [NonLockedTxs.setMined, txOf_update]
    split
    case isTrue h => cases hk : s.nonLockedTxs k <;> simp_all [txOf]
    case isFalse => rfl
  have hspends (c : Uint256) (o : COutPoint) :
      (s.setMined txid pindex).Spends c o ↔ s.Spends c o := by
    unfold Spends
    rw [htx]
  refine ⟨fun o c => (h.index o c).trans (hspends c o).symm, fun o c hc => ?_⟩
  have hchild := h.parent o c ((hspends c o).mp hc)
  rw [NonLockedTxs.setMined, childrenOf_update]
  split
  case isTrue h => cases hk : s.nonLockedTxs txid <;> simp_all [childrenOf]
  case isFalse => exact hchild

lemma spends_removeNonLockedTx (txid) (retryChildren : Bool) (c)
    (o) : (s.removeNonLockedTx txid retryChildren).Spends c o ↔
      c ≠ txid ∧ s.Spends c o := by
  unfold removeNonLockedTx
  split
  case h_1 hnone =>
    refine ⟨fun h => ⟨?_, h⟩, And.right⟩
    rintro rfl
    obtain ⟨tx, htx, -⟩ := h
    simp [txOf, hnone] at htx
  case h_2 =>
    unfold Spends
    simp only [txOf_update, (foldl_removeChild_spec ..).1]
    split
    case isTrue h => simp [h]
    case isFalse h => simp [h]

lemma exact_removeNonLockedTx (hs : s.Exact) (txid) (retryChildren : Bool) :
    (s.removeNonLockedTx txid retryChildren).Exact ↔ s.Ok getHash (.remove txid retryChildren) := by
  cases hinfo : s.nonLockedTxs txid with
  | none =>
    have hsame : s.removeNonLockedTx txid retryChildren = s := by
      rw [removeNonLockedTx, hinfo]
    rw [hsame]
    refine iff_of_true hs fun o c _ hc => ⟨?_, ?_⟩
    · rintro ⟨tx, htx, -⟩
      simp [txOf, hinfo] at htx
    · rintro rfl
      have := hs.parent o c hc
      simp [childrenOf, hinfo] at this
  | some info =>
    have hspends := spends_removeNonLockedTx (s := s) txid retryChildren
    have howner (o : COutPoint) :
        o ∈ ((info.tx.map (·.vin)).getD []).map (·.prevout) ↔ s.Spends txid o := by
      unfold Spends txOf
      rw [hinfo]
      cases htx : info.tx <;> simp [htx]
    have hindex (o : COutPoint) (c : Uint256) :
        (o.hash, o.n, c) ∈ (s.removeNonLockedTx txid retryChildren).nonLockedTxsByInputs ↔
          s.Spends c o ∧ ¬ s.Spends txid o := by
      rw [removeNonLockedTx, hinfo, ← howner, ← hs.index]
      simp
    have hchildren (k c : Uint256) :
        c ∈ childrenOf (s.removeNonLockedTx txid retryChildren).nonLockedTxs k ↔
          k ≠ txid ∧ c ∈ childrenOf s.nonLockedTxs k ∧
            ¬ (c = txid ∧ k ∈ ((info.tx.map (·.vin)).getD []).map (·.prevout.hash)) := by
      rw [removeNonLockedTx, hinfo]
      simp only [childrenOf_update]
      split
      case isTrue h => simp [h]
      case isFalse h => rw [(foldl_removeChild_spec ..).2]; simp [h]
    constructor
    · intro h o c hne hc
      refine ⟨((hindex o c).mp ((h.index o c).mpr ((hspends c o).mpr ⟨hne, hc⟩))).2, ?_⟩
      exact ((hchildren _ _).mp (h.parent o c ((hspends c o).mpr ⟨hne, hc⟩))).1
    · refine fun hok => ⟨fun o c => ?_, fun o c hc => ?_⟩
      · rw [hindex, hspends, and_comm]
        refine and_congr_left fun hc => ⟨?_, fun hne => (hok o c hne hc).1⟩
        rintro hnot rfl
        exact hnot hc
      · obtain ⟨hne, hc⟩ := (hspends c o).mp hc
        exact (hchildren _ _).mpr ⟨(hok o c hne hc).2, hs.parent o c hc, fun h => hne h.1⟩

lemma exact_addNonLockedTx (hs : s.Exact) (tx) :
    (s.addNonLockedTx getHash tx).Exact ↔ s.Ok getHash (.add tx) := by
  cases htracked : txOf s.nonLockedTxs (getHash tx) with
  | some tx' =>
    obtain ⟨info, hinfo, htx⟩ := Option.bind_eq_some_iff.mp htracked
    have hsame : s.addNonLockedTx getHash tx = s := by
      simp [addNonLockedTx, hinfo, htx]
    rw [hsame]
    exact iff_of_true hs (.inr (.inl (by simp [htracked])))
  | none =>
    have hnone : ((s.nonLockedTxs (getHash tx)).getD {}).tx.isSome = false := by
      cases hinfo : s.nonLockedTxs (getHash tx) with
      | none => rfl
      | some info => simpa [txOf, hinfo] using htracked
    have hspends (c : Uint256) (o : COutPoint) : (s.addNonLockedTx getHash tx).Spends c o ↔
        s.Spends c o ∨ c = getHash tx ∧ o ∈ tx.vin.map (·.prevout) := by
      unfold Spends
      simp only [addNonLockedTx, hnone, Bool.false_eq_true, ↓reduceIte,
        (foldl_addChild_spec ..).1, txOf_update]
      split
      case isTrue h => simp [h, htracked]
      case isFalse h => simp [h]
    have hchildren (k c : Uint256) : c ∈ childrenOf (s.addNonLockedTx getHash tx).nonLockedTxs k ↔
          c ∈ childrenOf s.nonLockedTxs k ∨ c = getHash tx ∧ k ∈ tx.vin.map (·.prevout.hash) := by
      simp only [addNonLockedTx, hnone, Bool.false_eq_true, ↓reduceIte,
        (foldl_addChild_spec ..).2, childrenOf_update]
      refine or_congr_left ?_
      split
      case isTrue h => cases hk : s.nonLockedTxs k <;> simp_all [childrenOf]
      case isFalse => rfl
    have hparent (o : COutPoint) (c : Uint256) (h : (s.addNonLockedTx getHash tx).Spends c o) :
        c ∈ childrenOf (s.addNonLockedTx getHash tx).nonLockedTxs o.hash := by
      rw [hchildren]
      refine ((hspends c o).mp h).imp (hs.parent o c) (And.imp_right fun ho => ?_)
      obtain ⟨in_, hin, rfl⟩ := mem_map.mp ho
      exact mem_map_of_mem hin
    have hindex : (∀ o c, (o.hash, o.n, c) ∈ (s.addNonLockedTx getHash tx).nonLockedTxsByInputs ↔
        (s.addNonLockedTx getHash tx).Spends c o) ↔ s.Ok getHash (.add tx) := by
      simp only [hspends, ← hs.index]
      cases hinfo : s.nonLockedTxs (getHash tx) with
      | none =>
        refine iff_of_true (fun o c => ?_) (.inl hinfo)
        simp only [addNonLockedTx, hinfo, Option.isSome_none, Bool.false_eq_true, ↓reduceIte,
          mem_append, mem_map, Prod.mk.injEq]
        refine or_congr_right ⟨?_, ?_⟩
        · rintro ⟨in_, hin, hhash, hn, rfl⟩
          exact ⟨rfl, in_, hin, congrArg₂ COutPoint.mk hhash hn⟩
        · rintro ⟨rfl, in_, hin, rfl⟩
          exact ⟨in_, hin, rfl, rfl, rfl⟩
      | some info =>
        simp only [addNonLockedTx, hinfo, Option.isSome_some, ↓reduceIte]
        constructor
        · intro h
          refine .inr (.inr (eq_nil_iff_forall_not_mem.mpr fun in_ hin => ?_))
          obtain ⟨tx', htx, -⟩ := (hs.index in_.prevout (getHash tx)).mp
            ((h _ _).mpr (.inr ⟨rfl, mem_map_of_mem hin⟩))
          simp [htracked] at htx
        · intro h o c
          have hnil : tx.vin = [] := by simpa [Ok, hinfo, htracked] using h
          simp [hnil]
    exact ⟨fun h => hindex.mp h.index, fun h => ⟨hindex.mpr h, hparent⟩⟩

lemma exact_step_iff (hs : s.Exact) (a) : (s.step getHash a).Exact ↔ s.Ok getHash a := by
  cases a with
  | add tx => exact exact_addNonLockedTx hs tx
  | remove txid retryChildren => exact exact_removeNonLockedTx hs txid retryChildren
  | setMined txid pindex => exact iff_of_true (hs.setMined txid pindex) trivial

/-- In every run whose steps meet the condition the index and the children are exact. -/
lemma exact_of_reach
    (h : Reach (fun s a => some (step getHash s a)) (Ok getHash) {} s) : s.Exact := by
  refine h.invariant ⟨by simp [Spends, txOf], by simp [Spends, txOf]⟩ ?_
  rintro s a s' hs hok hstep
  exact Option.some.inj hstep ▸ (exact_step_iff hs a).mpr hok

end

/-- Under the condition on the steps the index and the children are exact, and all tracked mined
transactions that conflict with a lock are found. A step that misses the condition breaks that. -/
theorem nonLocked_index_exact (getHash : CTransaction → Uint256) :
    (∀ s, Reach (fun s a => some (step getHash s a)) (Ok getHash) {} s → s.Exact ∧
      ∀ inputs islockTxid txid info pindex tx, s.nonLockedTxs txid = some info →
        info.pindexMined = some pindex → info.tx = some tx → txid ≠ islockTxid →
        (∃ o ∈ inputs, o ∈ tx.vin.map (·.prevout)) →
        (pindex, txid, tx) ∈ s.conflicts inputs islockTxid) ∧
    ∀ (s : NonLockedTxs) (a : Action), s.Exact → ((s.step getHash a).Exact ↔ s.Ok getHash a) := by
  refine ⟨fun s hs => ⟨exact_of_reach hs, ?_⟩, fun s a hs => exact_step_iff hs a⟩
  rintro inputs islockTxid txid info pindex tx hinfo hmined htx hne ⟨o, ho, hspent⟩
  have hentry : (o.hash, o.n, txid) ∈ s.nonLockedTxsByInputs :=
    ((exact_of_reach hs).index o txid).mpr ⟨tx, by simp [txOf, hinfo, htx], hspent⟩
  refine mem_flatMap.mpr ⟨o, ho, mem_filterMap.mpr ⟨_, hentry, ?_⟩⟩
  simp [hne, hinfo, hmined, htx]

/-- A transaction with the hash `hash` that spends the first output of `parent`. -/
def spending (hash : Nat) (parent : Uint256) : CTransaction :=
  ⟨1, 0, [⟨⟨parent, 0⟩, [], 0⟩], [], hash, []⟩

/-- The parent 1 is seen before its child 2 and mined: a lock of its input finds the conflict. -/
theorem nonLocked_index_exact_parentFirst : ∃ s,
    Reach (fun s a => some (step (fun tx => tx.nLockTime) s a)) (Ok fun tx => tx.nLockTime) {} s ∧
      s.Exact ∧ (9, 1, spending 1 7) ∈ s.conflicts [⟨7, 0⟩] 3 := by
  obtain ⟨s, hs⟩ : ∃ s, s = [Action.add (spending 1 7), .add (spending 2 1),
    .setMined 1 (some 9)].foldl (step fun tx => tx.nLockTime) {} := ⟨_, rfl⟩
  have hreach : Reach (fun s a => some (step (fun tx => tx.nLockTime) s a))
      (Ok fun tx => tx.nLockTime) {} s :=
    .step (.setMined 1 (some 9)) (.step (.add (spending 2 1)) (.step (.add (spending 1 7)) .init
      (.inl rfl) rfl) (.inl (Option.isNone_iff_eq_none.mp (by decide +kernel))) rfl) trivial
      (by rw [hs]; rfl)
  obtain ⟨hexact, hfound⟩ := (nonLocked_index_exact fun tx => tx.nLockTime).1 s hreach
  have hinfo : (s.nonLockedTxs 1).any (fun info =>
      decide (info.pindexMined = some 9) && decide (info.tx = some (spending 1 7))) = true := by
    rw [hs]
    decide +kernel
  obtain ⟨info, hinfo, hmined⟩ := (Option.any_eq_true ..).mp hinfo
  rw [Bool.and_eq_true, decide_eq_true_eq, decide_eq_true_eq] at hmined
  exact ⟨s, hreach, hexact, hfound [⟨7, 0⟩] 3 1 info 9 (spending 1 7) hinfo hmined.1 hmined.2
    (by decide) ⟨⟨7, 0⟩, by simp, by simp [spending]⟩⟩

/-- The child 2 is seen before its parent 1, which is mined: a lock of the input of the parent does
not find the conflict. -/
theorem parent_after_child_not_found :
    ∃ s, s = [Action.add (spending 2 1), .add (spending 1 7), .setMined 1 (some 9)].foldl
        (step fun tx => tx.nLockTime) {} ∧
      (s.nonLockedTxs 1).map (fun info => (info.pindexMined, info.tx)) =
        some (some 9, some (spending 1 7)) ∧
      s.nonLockedTxsByInputs = [(1, 0, 2)] ∧ s.conflicts [⟨7, 0⟩] 3 = [] :=
  ⟨_, rfl, by decide +kernel, by decide +kernel, by decide +kernel⟩

end NonLockedTxs

end Firo.Llmq
