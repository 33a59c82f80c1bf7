import Firo.Lib.Registry
import Firo.Spark.Node

/-! What connecting a block does to the registered names, and that disconnecting it undoes this.
Both are described on the address and the validity height of each name: the text of a name that a
transfer writes may differ in case from the registered one. -/
namespace Firo.Spark

open Firo.Lib List CSparkNameBlockIndexData
open Option hiding max

variable {Coin Tag : Type}

abbrev NameCore := String × Nat

def CSparkNameBlockIndexData.core (data : CSparkNameBlockIndexData) : NameCore :=
  (data.sparkAddress, data.sparkNameValidityHeight)

lemma toUpper_toUpper (c : Char) : c.toUpper.toUpper = c.toUpper := by
  unfold Char.toUpper
  split
  case isTrue h =>
    -- an upper-case letter is below the lower-case ones
    rw [dif_neg]
    intro hlower
    have hlow := hlower.1
    obtain ⟨ha, hz⟩ := h
    rw [UInt32.le_iff_toNat_le] at hlow ha hz
    simp at hlow ha hz
    omega
  case isFalse => rfl

namespace CSparkNameManager

variable {m m' : CSparkNameManager}

lemma toUpper_idem (name) : toUpper (toUpper name) = toUpper name := by
  apply String.toList_injective
  simp only [toUpper, String.toList_map, List.map_map]
  apply List.map_congr_left
  intro c _
  exact toUpper_toUpper c

def registry (m : CSparkNameManager) : Registry String String CSparkNameBlockIndexData :=
  ⟨m.sparkNames, m.sparkNameAddresses⟩

def core (m : CSparkNameManager) (k : String) : Option NameCore :=
  (m.sparkNames[k]?).map CSparkNameBlockIndexData.core

/-- Names and addresses are each other's inverse, and names are kept in upper case. -/
structure NamesInv (m : CSparkNameManager) : Prop where
  inverse : m.registry.Inverse CSparkNameBlockIndexData.sparkAddress
  upper : ∀ k, (m.sparkNames[k]?).isSome → toUpper k = k

lemma NamesInv.empty : NamesInv {} := by
  constructor
  · intro a k
    simp [registry]
  · simp

/-- The records of the names determine the whole manager. -/
lemma NamesInv.eq_of_sparkNames (h : NamesInv m) (h' : NamesInv m')
    (heq : ∀ k : String, m.sparkNames[k]? = m'.sparkNames[k]?) : m = m' := by
  have hnames : m.sparkNames = m'.sparkNames := Std.ExtTreeMap.ext_getElem? heq
  have haddresses : m.sparkNameAddresses = m'.sparkNameAddresses :=
    h.inverse.keys_eq h'.inverse hnames
  obtain ⟨names, addresses⟩ := m
  obtain ⟨names', addresses'⟩ := m'
  subst hnames haddresses
  rfl

section

variable (l : List (String × CSparkNameBlockIndexData)) (hl : ∀ e ∈ l, toUpper e.1 = e.1)
  (m : CSparkNameManager)
include hl

lemma registry_foldl_dropName : (l.foldl dropName m).registry =
      m.registry.dropAll (l.map fun e => (e.1, e.2.sparkAddress)) := by
  induction l generalizing m with
  | nil => rfl
  | cons e l ih =>
    rw [forall_mem_cons] at hl
    rw [foldl_cons, ih hl.2, map_cons]
    have hdrop : (m.dropName e).registry = m.registry.drop e.1 e.2.sparkAddress := by
      rw [dropName, hl.1]
      rfl
    rw [hdrop]
    rfl

lemma registry_foldl_putName : (l.foldl putName m).registry =
      m.registry.putAll sparkAddress l := by
  induction l generalizing m with
  | nil => rfl
  | cons e l ih =>
    rw [forall_mem_cons] at hl
    rw [foldl_cons, ih hl.2]
    have hput : (m.putName e).registry =
        m.registry.put sparkAddress e.1 e.2 := by
      rw [putName, hl.1]
      rfl
    rw [hput]
    rfl

end

lemma foldl_addName_fst (backup : Bool) (l : List (String × CSparkNameBlockIndexData)) (x) :
    (l.foldl (addName backup) x).1 = l.foldl putName x.1 := by
  induction l generalizing x with
  | nil => rfl
  | cons e l ih => exact ih _

lemma foldl_addName_snd {l : List (String × CSparkNameBlockIndexData)}
    (hl : ∀ e ∈ l, toUpper e.1 = e.1) (hnodup : (l.map Prod.fst).Nodup) (m)
    (removed : Std.ExtTreeMap String CSparkNameBlockIndexData) (k : String) :
    (l.foldl (addName true) (m, removed)).2[k]? =
      if k ∈ l.map Prod.fst then (m.sparkNames[k]?).or removed[k]? else removed[k]? := by
  induction l generalizing m removed with
  | nil => simp
  | cons e l ih =>
    rw [forall_mem_cons] at hl
    rw [map_cons, nodup_cons] at hnodup
    have hstep : addName true (m, removed) e = (m.putName e, (m.sparkNames[e.1]?).toList.foldl
        (fun t old => t.insert e.1 old) removed) := by
      unfold addName
      simp only [hl.1]
      cases m.sparkNames[e.1]? with
      | none => rfl
      | some old => rfl
    rw [foldl_cons, hstep, ih hl.2 hnodup.2]
    have hput : (m.putName e).sparkNames[k]? =
        if e.1 = k then some e.2 else m.sparkNames[k]? := by
      rw [putName, hl.1]
      exact getElem?_insert_eq _ _ _ _
    have hremoved : ((m.sparkNames[e.1]?).toList.foldl (fun t old => t.insert e.1 old)
        removed)[k]? = if e.1 = k then (m.sparkNames[k]?).or removed[k]? else removed[k]? := by
      by_cases hk : e.1 = k
      · subst hk
        cases m.sparkNames[e.1]? with
        | none => simp
        | some old => simp
      · rw [if_neg hk]
        cases m.sparkNames[e.1]? with
        | none => rfl
        | some old => exact (getElem?_insert_eq _ _ _ _).trans (if_neg hk)
    rw [hput, hremoved, map_cons]
    by_cases hk : e.1 = k
    · subst hk
      simp [hnodup.1]
    · have hk' : k ≠ e.1 := fun heq => hk heq.symm
      simp only [if_neg hk, mem_cons, hk', false_or]

def opType (d : CSparkNameTxData) : UInt8 :=
  if 2 ≤ d.nVersion then d.operationType else opRegister

/-- What the checks guarantee about the name data that a block carries under `k`. -/
structure NameAccepted (m : CSparkNameManager) (k : String) (d : CSparkNameTxData) : Prop where
  upper : toUpper k = k
  op : opType d = if isNameTransfer d then opTransfer else opRegister
  owner : isNameTransfer d = false → ∀ data, m.sparkNames[k]? = some data →
    data.sparkAddress = d.sparkAddress
  unused : isNameTransfer d = true ∨ m.sparkNames[k]? = none →
    m.sparkNameAddresses[d.sparkAddress]? = none
  old : isNameTransfer d = true → m.sparkNameAddresses[d.oldSparkAddress]? = some k

/-- The names of a block, each accepted, no two for the same address. -/
structure NamesAccepted (m : CSparkNameManager) (own : Std.ExtTreeMap String CSparkNameTxData) :
    Prop where
  accepted : ∀ k d, own[k]? = some d → NameAccepted m k d
  distinct : ∀ (k k' : String) (d d' : CSparkNameTxData), own[k]? = some d →
    own[k']? = some d' → d.sparkAddress = d'.sparkAddress → k = k'

def addedData (m : CSparkNameManager) (cp : ConsensusParams) (nHeight : Int) (k : String)
    (d : CSparkNameTxData) : CSparkNameBlockIndexData :=
  ⟨d.name, d.sparkAddress, newValidityHeight m cp nHeight k d, d.additionalInfo⟩

def transferredData (m : CSparkNameManager) (k : String) (d : CSparkNameTxData) :
    Option CSparkNameBlockIndexData :=
  if isNameTransfer d then
    (m.sparkNames[k]?).map fun old =>
      ⟨d.name, d.oldSparkAddress, old.sparkNameValidityHeight, old.additionalInfo⟩
  else none

variable {cp : ConsensusParams}

lemma indexSparkName_of_accepted {index : CBlockIndex Coin Tag} {k} {d}
    (hm : NamesInv m) (h : NameAccepted m k d) : indexSparkName m cp index (k, d) = .ok { index with
      addedSparkNames := index.addedSparkNames.insert k (addedData m cp index.nHeight k d)
      removedSparkNames := (transferredData m k d).toList.foldl
        (fun removed old => removed.insert k old) index.removedSparkNames } := by
  have hop : (if 2 ≤ d.nVersion then d.operationType else opRegister) = _ := h.op
  unfold indexSparkName
  simp only [hop]
  cases ht : isNameTransfer d with
  | false => simp [transferredData, ht, addedData]
  | true =>
    obtain ⟨old, hold, -⟩ := (hm.inverse _ _).mp (h.old ht)
    change m.sparkNames[k]? = some old at hold
    simp [transferredData, ht, addedData, getSparkNameBlockHeight, getSparkNameAdditionalData,
      h.upper, hold, orReject, opTransfer, opRegister, bind, Except.bind]

lemma foldlM_indexSparkName (hm : NamesInv m) {l : List (String × CSparkNameTxData)}
    (hl : ∀ e ∈ l, NameAccepted m e.1 e.2) (index : CBlockIndex Coin Tag) :
    l.foldlM (indexSparkName m cp) index = .ok { index with
      addedSparkNames := (l.map fun e => (e.1, addedData m cp index.nHeight e.1 e.2)).foldl
        (fun t e => t.insert e.1 e.2) index.addedSparkNames
      removedSparkNames :=
        (l.filterMap fun e => (transferredData m e.1 e.2).map (e.1, ·)).foldl
          (fun t e => t.insert e.1 e.2) index.removedSparkNames } := by
  induction l generalizing index with
  | nil => rfl
  | cons e l ih =>
    rw [forall_mem_cons] at hl
    rw [foldlM_cons, indexSparkName_of_accepted hm hl.1]
    change l.foldlM (indexSparkName m cp) _ = _
    rw [ih hl.2, filterMap_cons]
    cases transferredData m e.1 e.2 with
    | none => rfl
    | some old => rfl

/-- What `ConnectBlockSpark` does to the names: index the block's names, drop those that
expire, apply the lists of the index. -/
def connect (m : CSparkNameManager) (cp : ConsensusParams) (index : CBlockIndex Coin Tag)
    (own : Std.ExtTreeMap String CSparkNameTxData) :
    Except Reject (CSparkNameManager × CBlockIndex Coin Tag) := do
  let index ← own.toList.foldlM (indexSparkName m cp) index
  let (m, removedNames) := m.removeSparkNamesLosingValidity index.nHeight
  .ok (m.addBlock { index with
    removedSparkNames := removedNames.foldl (fun removed name => removed.insert name.1 name.2)
      index.removedSparkNames } (!own.isEmpty))

/-- The validity height that `newValidityHeight` computes from the registered one. -/
def coreValidity (c : String → Option NameCore) (cp : ConsensusParams) (nHeight : Int)
    (k : String) (d : CSparkNameTxData) : Nat :=
  let remainingBlocks :=
    if cp.nSparkNamesV21StartBlock ≤ nHeight then
      match c k with
      | some (_, height) => max 0 (int32 (int32 height - nHeight))
      | none => 0
    else 0
  uint32 (nHeight + (int32 d.sparkNameValidityBlocks + remainingBlocks))

lemma newValidityHeight_eq {nHeight : Int} {k} {d} (hk : toUpper k = k) :
    newValidityHeight m cp nHeight k d = coreValidity m.core cp nHeight k d := by
  unfold newValidityHeight coreValidity getSparkNameBlockHeight core
  rw [hk]
  cases m.sparkNames[k]? with
  | none => rfl
  | some data => rfl

section

variable (c : String → Option NameCore) (cp : ConsensusParams) (nHeight : Int)
  (own : Std.ExtTreeMap String CSparkNameTxData)

def addedCore (k : String) : Option NameCore :=
  (own[k]?).map fun d => (d.sparkAddress, coreValidity c cp nHeight k d)

def expires (k : String) : Bool :=
  match c k with
  | some (_, height) => decide ((height : Int) ≤ nHeight)
  | none => false

def removedCore (k : String) : Option NameCore :=
  if (own[k]?).isSome || expires c nHeight k then c k else none

def nextCore (k : String) : Option NameCore :=
  (addedCore c cp nHeight own k).or (if expires c nHeight k then none else c k)

end

def listCore (t : Std.ExtTreeMap String CSparkNameBlockIndexData) (k : String) : Option NameCore :=
  (t[k]?).map CSparkNameBlockIndexData.core

/-- What the index of a block may hold before the block is connected on the names `c`:
nothing, or part of what connecting it there records. -/
structure Recordable (c : String → Option NameCore) (cp : ConsensusParams)
    (own : Std.ExtTreeMap String CSparkNameTxData) (index : CBlockIndex Coin Tag) : Prop where
  added : ∀ k x, listCore index.addedSparkNames k = some x →
    addedCore c cp index.nHeight own k = some x
  removed : ∀ k x, listCore index.removedSparkNames k = some x →
    removedCore c index.nHeight own k = some x

structure Recorded (c : String → Option NameCore) (cp : ConsensusParams)
    (own : Std.ExtTreeMap String CSparkNameTxData) (index : CBlockIndex Coin Tag) : Prop where
  added : ∀ k, listCore index.addedSparkNames k = addedCore c cp index.nHeight own k
  removed : ∀ k, listCore index.removedSparkNames k = removedCore c index.nHeight own k

lemma Recorded.recordable {c} {own} {index : CBlockIndex Coin Tag} (h : Recorded c cp own index) :
    Recordable c cp own index :=
  ⟨fun k _ hx => h.added k ▸ hx, fun k _ hx => h.removed k ▸ hx⟩

structure Connecting (m : CSparkNameManager) (cp : ConsensusParams)
    (own : Std.ExtTreeMap String CSparkNameTxData) (index : CBlockIndex Coin Tag) : Prop where
  inv : NamesInv m
  accepted : NamesAccepted m own
  recordable : Recordable m.core cp own index

section

variable {cp : ConsensusParams} {own : Std.ExtTreeMap String CSparkNameTxData}
  {index : CBlockIndex Coin Tag}

def addedNames (m : CSparkNameManager) (cp : ConsensusParams)
    (own : Std.ExtTreeMap String CSparkNameTxData) (index : CBlockIndex Coin Tag) :
    Std.ExtTreeMap String CSparkNameBlockIndexData :=
  (own.toList.map fun e => (e.1, addedData m cp index.nHeight e.1 e.2)).foldl
    (fun t e => t.insert e.1 e.2) index.addedSparkNames

def removedNames (m : CSparkNameManager) (own : Std.ExtTreeMap String CSparkNameTxData)
    (index : CBlockIndex Coin Tag) : Std.ExtTreeMap String CSparkNameBlockIndexData :=
  (m.sparkNames.toList.filter fun e => losesValidity index.nHeight e.2).foldl
    (fun t e => t.insert e.1 e.2)
    ((own.toList.filterMap fun e => (transferredData m e.1 e.2).map (e.1, ·)).foldl
      (fun t e => t.insert e.1 e.2) index.removedSparkNames)

lemma getElem?_addedNames (k) : (addedNames m cp own index)[k]? =
      ((own[k]?).map (addedData m cp index.nHeight k)).or index.addedSparkNames[k]? := by
  unfold addedNames
  rw [getElem?_foldl_insert, lookup_eq_of_graph
    (f := fun k => (own[k]?).map (addedData m cp index.nHeight k))]
  intro k e
  simp [Std.ExtTreeMap.mem_toList_iff_getElem?_eq_some, map_eq_some_iff]

lemma getElem?_removedNames (k) : (removedNames m own index)[k]? =
      ((m.sparkNames[k]?).filter (losesValidity index.nHeight)).or
        (((own[k]?).bind (transferredData m k)).or index.removedSparkNames[k]?) := by
  unfold removedNames
  rw [getElem?_foldl_insert, getElem?_foldl_insert, lookup_eq_of_graph
    (f := fun k => (m.sparkNames[k]?).filter (losesValidity index.nHeight)),
    lookup_eq_of_graph (f := fun k => (own[k]?).bind (transferredData m k))]
  · intro k e
    simp [Std.ExtTreeMap.mem_toList_iff_getElem?_eq_some, bind_eq_some_iff]
  · intro k e
    simp [Std.ExtTreeMap.mem_toList_iff_getElem?_eq_some, filter_eq_some_iff]

lemma expires_core (k) (nHeight : Int) : expires m.core nHeight k = true ↔
      ∃ data, m.sparkNames[k]? = some data ∧ losesValidity nHeight data = true := by
  unfold expires core losesValidity
  cases m.sparkNames[k]? with
  | none => simp
  | some data => simp [CSparkNameBlockIndexData.core]

variable {d : CSparkNameTxData}

namespace Connecting

variable (h : Connecting m cp own index)

include h

lemma listCore_addedNames (k) :
    listCore (addedNames m cp own index) k = addedCore m.core cp index.nHeight own k := by
  unfold listCore
  rw [getElem?_addedNames, map_or]
  cases hd : own[k]? with
  | some d =>
    have hup := (h.accepted.accepted k d hd).upper
    simp [addedCore, hd, addedData, CSparkNameBlockIndexData.core, newValidityHeight_eq hup]
  | none =>
    have hnone : addedCore m.core cp index.nHeight own k = none := by simp [addedCore, hd]
    rw [hnone, map_none, map_none, none_or, eq_none_iff_forall_ne_some]
    intro x hx
    cases hnone.symm.trans (h.recordable.added k x hx)

lemma core_transferred {k} (hd : own[k]? = some d) (ht : isNameTransfer d = true) :
    ∃ e, transferredData m k d = some e ∧ m.core k = some e.core := by
  obtain ⟨old, hold, hown⟩ := (h.inv.inverse _ _).mp ((h.accepted.accepted k d hd).old ht)
  change m.sparkNames[k]? = some old at hold
  refine ⟨⟨d.name, d.oldSparkAddress, old.sparkNameValidityHeight, old.additionalInfo⟩, ?_, ?_⟩
  · simp [transferredData, ht, hold]
  · simp [core, hold, CSparkNameBlockIndexData.core, hown]

section

variable {k : String} {e : CSparkNameBlockIndexData} (he : (removedNames m own index)[k]? = some e)
include he

lemma removedCore_of_mem : removedCore m.core index.nHeight own k = some e.core := by
  rw [getElem?_removedNames, or_eq_some_iff, or_eq_some_iff] at he
  rcases he with hexp | ⟨-, htrans | ⟨-, hold⟩⟩
  · rw [filter_eq_some_iff] at hexp
    have hexpires := (expires_core k index.nHeight).mpr ⟨e, hexp⟩
    simp [removedCore, hexpires, core, hexp.1]
  · obtain ⟨d, hd, hdata⟩ := bind_eq_some_iff.mp htrans
    have ht : isNameTransfer d = true := by
      by_contra hnot
      simp [transferredData, hnot] at hdata
    obtain ⟨e', he', hcore⟩ := h.core_transferred hd ht
    obtain rfl := Option.some.inj (hdata.symm.trans he')
    simp [removedCore, hd, hcore]
  · exact h.recordable.removed k e.core (by simp [listCore, hold])

lemma core_of_mem : m.core k = some e.core := by
  have hr := h.removedCore_of_mem he
  unfold removedCore at hr
  split at hr
  case isTrue => exact hr
  case isFalse => cases hr

end

end Connecting

def afterDrops (m : CSparkNameManager) (own : Std.ExtTreeMap String CSparkNameTxData)
    (index : CBlockIndex Coin Tag) : CSparkNameManager :=
  (removedNames m own index).toList.foldl dropName
    (m.removeSparkNamesLosingValidity index.nHeight).1

lemma registry_removeSparkNamesLosingValidity (nHeight : Int) :
    (m.removeSparkNamesLosingValidity nHeight).1.registry = m.registry.dropAll
      ((m.sparkNames.toList.filter fun e => losesValidity nHeight e.2).map
        fun e => (e.1, e.2.sparkAddress)) := by
  unfold removeSparkNamesLosingValidity
  generalize m.sparkNames.toList.filter (fun e => losesValidity nHeight e.2) = l
  induction l generalizing m with
  | nil => rfl
  | cons e l ih => exact ih

namespace Connecting

variable (h : Connecting m cp own index)

include h

variable {k : String} {e : CSparkNameBlockIndexData}

lemma upper_of_removed (he : (removedNames m own index)[k]? = some e) : toUpper k = k := by
  apply h.inv.upper
  have hcore := h.core_of_mem he
  unfold core at hcore
  obtain ⟨data, hdata, -⟩ := map_eq_some_iff.mp hcore
  simp [hdata]

lemma registry_afterDrops : (afterDrops m own index).registry = m.registry.dropAll
      (((m.sparkNames.toList.filter fun e => losesValidity index.nHeight e.2) ++
        (removedNames m own index).toList).map fun e => (e.1, e.2.sparkAddress)) := by
  unfold afterDrops
  rw [registry_foldl_dropName, registry_removeSparkNamesLosingValidity, map_append]
  · exact (foldl_append).symm
  · intro e he
    exact h.upper_of_removed (Std.ExtTreeMap.mem_toList_iff_getElem?_eq_some.mp he)

lemma sparkNames_afterDrops (k : String) : (afterDrops m own index).sparkNames[k]? =
      if ((removedNames m own index)[k]?).isSome then none else m.sparkNames[k]? := by
  change (afterDrops m own index).registry.records[k]? = _
  rw [h.registry_afterDrops, Registry.records_dropAll, List.map_map]
  refine if_congr ?_ rfl rfl
  change k ∈ List.map Prod.fst _ ↔ _
  rw [List.map_append, List.mem_append, mem_keys_toList, or_iff_right_iff_imp]
  -- an expired name is in the list of removed ones
  intro hexp
  obtain ⟨⟨k, data⟩, hmem, rfl⟩ := List.mem_map.mp hexp
  rw [List.mem_filter, Std.ExtTreeMap.mem_toList_iff_getElem?_eq_some] at hmem
  simp [getElem?_removedNames, hmem.1, hmem.2]

lemma record_of_removed (he : (removedNames m own index)[k]? = some e) :
    ∃ data, m.sparkNames[k]? = some data ∧ data.sparkAddress = e.sparkAddress := by
  have hcore := h.core_of_mem he
  unfold core at hcore
  obtain ⟨data, hdata, heq⟩ := map_eq_some_iff.mp hcore
  exact ⟨data, hdata, congrArg Prod.fst heq⟩

lemma inverse_afterDrops : (afterDrops m own index).registry.Inverse sparkAddress := by
  rw [h.registry_afterDrops]
  apply h.inv.inverse.dropAll
  intro x hx
  obtain ⟨e, he, rfl⟩ := mem_map.mp hx
  rcases mem_append.mp he with hexp | hrem
  · rw [mem_filter, Std.ExtTreeMap.mem_toList_iff_getElem?_eq_some] at hexp
    exact h.inv.inverse.matches_of_record hexp.1
  · rw [Std.ExtTreeMap.mem_toList_iff_getElem?_eq_some] at hrem
    obtain ⟨data, hdata, haddr⟩ := h.record_of_removed hrem
    rw [← haddr]
    exact h.inv.inverse.matches_of_record hdata

lemma isSome_removedNames_of_transfer (hd : own[k]? = some d) (ht : isNameTransfer d = true) :
    ((removedNames m own index)[k]?).isSome := by
  obtain ⟨e, he, -⟩ := h.core_transferred hd ht
  simp [getElem?_removedNames, hd, he]

lemma address_of_added (he : (addedNames m cp own index)[k]? = some e) :
    ∃ d, own[k]? = some d ∧ e.sparkAddress = d.sparkAddress := by
  have hcore : listCore (addedNames m cp own index) k = some e.core := by simp [listCore, he]
  rw [h.listCore_addedNames] at hcore
  obtain ⟨d, hd, heq⟩ := map_eq_some_iff.mp hcore
  exact ⟨d, hd, (congrArg Prod.fst heq).symm⟩

lemma matches_added (hd : own[k]? = some d) :
    (afterDrops m own index).registry.Matches sparkAddress k
      d.sparkAddress := by
  have hacc := h.accepted.accepted k d hd
  constructor
  · intro data hdata
    change (afterDrops m own index).sparkNames[k]? = some data at hdata
    rw [h.sparkNames_afterDrops] at hdata
    split at hdata
    case isTrue => cases hdata
    case isFalse hkept =>
      refine hacc.owner ?_ data hdata
      by_contra ht
      exact hkept (h.isSome_removedNames_of_transfer hd (by simpa using ht))
  · intro k' hk'
    obtain ⟨data, hdata, haddr⟩ := (h.inverse_afterDrops _ _).mp hk'
    change (afterDrops m own index).sparkNames[k']? = some data at hdata
    rw [h.sparkNames_afterDrops] at hdata
    split at hdata
    case isTrue => cases hdata
    case isFalse =>
      have hused : m.sparkNameAddresses[d.sparkAddress]? = some k' :=
        (h.inv.inverse _ _).mpr ⟨data, hdata, haddr⟩
      have hnot : ¬ (isNameTransfer d = true ∨ m.sparkNames[k]? = none) := by
        intro hfree
        cases (hacc.unused hfree).symm.trans hused
      rw [not_or, Bool.not_eq_true] at hnot
      obtain ⟨data', hdata'⟩ := ne_none_iff_exists'.mp hnot.2
      have hk : m.sparkNameAddresses[d.sparkAddress]? = some k :=
        (h.inv.inverse _ _).mpr ⟨data', hdata', hacc.owner hnot.1 data' hdata'⟩
      exact Option.some.inj (hused.symm.trans hk)

lemma upper_of_added (he : (addedNames m cp own index)[k]? = some e) : toUpper k = k := by
  obtain ⟨d, hd, -⟩ := h.address_of_added he
  exact (h.accepted.accepted k d hd).upper

lemma isSome_addedNames (k : String) :
    ((addedNames m cp own index)[k]?).isSome = (own[k]?).isSome := by
  have hcore := congrArg isSome (h.listCore_addedNames k)
  simpa [listCore, addedCore] using hcore

lemma connect_eq :
    ∃ m' removed, m.connect cp index own = .ok (m', { index with
        addedSparkNames := addedNames m cp own index, removedSparkNames := removed }) ∧
      m'.registry = (afterDrops m own index).registry.putAll
        sparkAddress (addedNames m cp own index).toList ∧
      ∀ k : String, removed[k]? = if (own[k]?).isSome
        then ((afterDrops m own index).sparkNames[k]?).or (removedNames m own index)[k]?
        else (removedNames m own index)[k]? := by
  have haccepted : ∀ e ∈ own.toList, NameAccepted m e.1 e.2 := fun e he =>
    h.accepted.accepted e.1 e.2 (Std.ExtTreeMap.mem_toList_iff_getElem?_eq_some.mp he)
  have hupper : ∀ e ∈ (addedNames m cp own index).toList, toUpper e.1 = e.1 := fun e he =>
    h.upper_of_added (Std.ExtTreeMap.mem_toList_iff_getElem?_eq_some.mp he)
  have hconnect : m.connect cp index own =
      .ok (((addedNames m cp own index).toList.foldl (addName (!own.isEmpty))
          (afterDrops m own index, removedNames m own index)).1,
        { index with
          addedSparkNames := addedNames m cp own index
          removedSparkNames := ((addedNames m cp own index).toList.foldl
            (addName (!own.isEmpty)) (afterDrops m own index, removedNames m own index)).2 }) := by
    unfold connect
    rw [foldlM_indexSparkName h.inv haccepted]
    rfl
  refine ⟨_, _, hconnect, ?_, fun k => ?_⟩
  · rw [foldl_addName_fst, registry_foldl_putName _ hupper]
  · cases hempty : own.isEmpty with
    | true =>
      have hown : own = ∅ := Std.ExtTreeMap.isEmpty_iff.mp hempty
      have hnil : (addedNames m cp own index).toList = [] := by
        rw [eq_nil_iff_forall_not_mem]
        intro e he
        obtain ⟨d, hd, -⟩ :=
          h.address_of_added (Std.ExtTreeMap.mem_toList_iff_getElem?_eq_some.mp he)
        simp [hown] at hd
      rw [hnil]
      simp [hown]
    | false =>
      rw [Bool.not_false, foldl_addName_snd hupper (nodup_keys_toList _)]
      simp only [mem_keys_toList, h.isSome_addedNames]

lemma isSome_removedNames_of_not_own (hd : own[k]? = none) :
    ((removedNames m own index)[k]?).isSome = expires m.core index.nHeight k := by
  rw [Bool.eq_iff_iff]
  constructor
  · intro hr
    obtain ⟨e, he⟩ := isSome_iff_exists.mp hr
    have hcore := h.removedCore_of_mem he
    by_contra hexp
    simp [removedCore, hd, hexp] at hcore
  · intro hexp
    obtain ⟨data, hdata, hloses⟩ := (expires_core k index.nHeight).mp hexp
    simp [getElem?_removedNames, hdata, hloses]

lemma inverse_putAll {r : Registry String String CSparkNameBlockIndexData}
    (hr : r.Inverse sparkAddress)
    (hmatches : ∀ (k : String) (d : CSparkNameTxData), own[k]? = some d →
      r.Matches sparkAddress k d.sparkAddress) :
    (r.putAll sparkAddress (addedNames m cp own index).toList).Inverse
      sparkAddress := by
  apply hr.putAll
  · intro e he
    obtain ⟨d, hd, haddr⟩ :=
      h.address_of_added (Std.ExtTreeMap.mem_toList_iff_getElem?_eq_some.mp he)
    rw [haddr]
    exact hmatches _ d hd
  · intro e he e' he'
    rw [Std.ExtTreeMap.mem_toList_iff_getElem?_eq_some] at he he'
    obtain ⟨d, hd, haddr⟩ := h.address_of_added he
    obtain ⟨d', hd', haddr'⟩ := h.address_of_added he'
    constructor
    · intro hk
      rw [hk] at he
      rw [Option.some.inj (he.symm.trans he')]
    · intro heq
      exact h.accepted.distinct _ _ d d' hd hd' (haddr.symm.trans (heq.trans haddr'))

omit h in
lemma sparkNames_of_putAll (hreg : m'.registry = (afterDrops m own index).registry.putAll
      sparkAddress (addedNames m cp own index).toList) (k : String) :
    m'.sparkNames[k]? = ((addedNames m cp own index)[k]?).or
      (afterDrops m own index).sparkNames[k]? := by
  change m'.registry.records[k]? = _
  rw [hreg, Registry.records_putAll (f := fun k => (addedNames m cp own index)[k]?)]
  · rfl
  · exact fun k e => Std.ExtTreeMap.mem_toList_iff_getElem?_eq_some

/-- Connecting a block keeps the invariant, and the names that it leaves, adds and
removes depend on the addresses and validity heights before it only. -/
lemma connect_spec :
    ∃ m' added removed, m.connect cp index own = .ok (m', { index with
        addedSparkNames := added, removedSparkNames := removed }) ∧
      NamesInv m' ∧ m'.core = nextCore m.core cp index.nHeight own ∧
      Recorded m.core cp own { index with
        addedSparkNames := added, removedSparkNames := removed } := by
  obtain ⟨m', removed, hconnect, hreg, hremoved⟩ := h.connect_eq
  have hnames := sparkNames_of_putAll hreg
  refine ⟨m', _, removed, hconnect, ⟨?_, ?_⟩, ?_, h.listCore_addedNames, ?_⟩
  · rw [hreg]
    exact h.inverse_putAll h.inverse_afterDrops fun _ _ => h.matches_added
  · intro k hk
    rw [hnames, isSome_or, Bool.or_eq_true, h.isSome_addedNames, h.sparkNames_afterDrops] at hk
    rcases hk with hown | hkept
    · obtain ⟨d, hd⟩ := isSome_iff_exists.mp hown
      exact (h.accepted.accepted k d hd).upper
    · split at hkept
      case isTrue => cases hkept
      case isFalse => exact h.inv.upper k hkept
  · funext k
    change (m'.sparkNames[k]?).map CSparkNameBlockIndexData.core = _
    rw [hnames, map_or]
    change (listCore (addedNames m cp own index) k).or _ = _
    rw [h.listCore_addedNames, nextCore]
    cases hd : own[k]? with
    | some d => simp [addedCore, hd]
    | none =>
      rw [h.sparkNames_afterDrops, h.isSome_removedNames_of_not_own hd]
      split <;> rfl
  · intro k
    change listCore removed k = removedCore m.core index.nHeight own k
    unfold listCore
    rw [hremoved]
    cases hr : (removedNames m own index)[k]? with
    | some e =>
      have hdrop : (afterDrops m own index).sparkNames[k]? = none := by
        rw [h.sparkNames_afterDrops, hr]
        rfl
      rw [hdrop, none_or, ite_self, h.removedCore_of_mem hr]
      rfl
    | none =>
      have hkept : (afterDrops m own index).sparkNames[k]? = m.sparkNames[k]? := by
        rw [h.sparkNames_afterDrops, hr]
        rfl
      rw [hkept, or_none]
      cases hd : own[k]? with
      | some d => simp [removedCore, hd, core]
      | none =>
        have hexp := h.isSome_removedNames_of_not_own hd
        rw [hr] at hexp
        simp [removedCore, hd, ← hexp]

end Connecting

end

end CSparkNameManager

end Firo.Spark
