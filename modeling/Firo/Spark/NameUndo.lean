import Firo.Spark.NameState

/-! What `RemoveBlock` makes of the names when a block is disconnected, and what `AddBlock` makes of
them when the block index is replayed. -/
namespace Firo.Spark

open Firo.Lib Option

variable {Coin Tag : Type}

namespace CSparkNameManager

variable {m m' : CSparkNameManager}

structure CoreInv (c : String → Option NameCore) : Prop where
  upper : ∀ k x, c k = some x → toUpper k = k
  distinct : ∀ (k k' : String) (x x' : NameCore), c k = some x → c k' = some x' →
    x.1 = x'.1 → k = k'

lemma core_eq_some {k} {x} : m.core k = some x ↔
      ∃ data : CSparkNameBlockIndexData, m.sparkNames[k]? = some data ∧ data.core = x := by
  unfold core
  exact map_eq_some_iff

lemma listCore_eq_some {t} {k} {x} : listCore t k = some x ↔
      ∃ data : CSparkNameBlockIndexData, t[k]? = some data ∧ data.core = x := by
  unfold listCore
  exact map_eq_some_iff

lemma NamesInv.coreInv (h : NamesInv m) : CoreInv m.core := by
  constructor
  · intro k x hx
    obtain ⟨data, hdata, -⟩ := core_eq_some.mp hx
    exact h.upper k (by simp [hdata])
  · intro k k' x x' hx hx' heq
    obtain ⟨data, hdata, rfl⟩ := core_eq_some.mp hx
    obtain ⟨data', hdata', rfl⟩ := core_eq_some.mp hx'
    have hk : m.sparkNameAddresses[data.sparkAddress]? = some k :=
      (h.inverse _ _).mpr ⟨data, hdata, rfl⟩
    have hk' : m.sparkNameAddresses[data.sparkAddress]? = some k' :=
      (h.inverse _ _).mpr ⟨data', hdata', heq.symm⟩
    exact Option.some.inj (hk.symm.trans hk')

/-- A block whose lists were recorded on the names `c` is the tip. -/
structure Disconnecting (c : String → Option NameCore) (cp : ConsensusParams)
    (own : Std.ExtTreeMap String CSparkNameTxData) (m : CSparkNameManager)
    (b : CBlockIndex Coin Tag) : Prop where
  inv : NamesInv m
  coreInv : CoreInv c
  upper : ∀ k : String, (own[k]?).isSome → toUpper k = k
  recorded : Recorded c cp own b
  core_eq : m.core = nextCore c cp b.nHeight own

namespace Disconnecting

variable {c : String → Option NameCore} {cp : ConsensusParams}
  {own : Std.ExtTreeMap String CSparkNameTxData} {b : CBlockIndex Coin Tag}
  (h : Disconnecting c cp own m b)

include h

lemma isSome_added (k : String) : (b.addedSparkNames[k]?).isSome = (own[k]?).isSome := by
  have hcore := congrArg isSome (h.recorded.added k)
  simpa [listCore, addedCore] using hcore

lemma upper_added : ∀ e ∈ b.addedSparkNames.toList, toUpper e.1 = e.1 := by
  intro e he
  rw [Std.ExtTreeMap.mem_toList_iff_getElem?_eq_some] at he
  apply h.upper
  rw [← h.isSome_added, he]
  rfl

lemma core_of_removed {k} {e} (he : b.removedSparkNames[k]? = some e) :
    c k = some e.core ∧ ((own[k]?).isSome || expires c b.nHeight k) = true := by
  have hr := h.recorded.removed k
  rw [listCore_eq_some.mpr ⟨e, he, rfl⟩] at hr
  unfold removedCore at hr
  split at hr
  case isTrue hcond => exact ⟨hr.symm, hcond⟩
  case isFalse => cases hr

lemma upper_removed : ∀ e ∈ b.removedSparkNames.toList, toUpper e.1 = e.1 := by
  intro e he
  rw [Std.ExtTreeMap.mem_toList_iff_getElem?_eq_some] at he
  exact h.coreInv.upper _ _ (h.core_of_removed he).1

lemma sparkNames_drops (k : String) : (b.addedSparkNames.toList.foldl dropName m).sparkNames[k]? =
      if (own[k]?).isSome then none else m.sparkNames[k]? := by
  change (b.addedSparkNames.toList.foldl dropName m).registry.records[k]? = _
  rw [registry_foldl_dropName _ h.upper_added, Registry.records_dropAll, List.map_map]
  refine if_congr ?_ rfl rfl
  change k ∈ List.map Prod.fst _ ↔ _
  rw [mem_keys_toList, h.isSome_added]

lemma inverse_drops : (b.addedSparkNames.toList.foldl dropName m).registry.Inverse
      CSparkNameBlockIndexData.sparkAddress := by
  rw [registry_foldl_dropName _ h.upper_added]
  apply h.inv.inverse.dropAll
  intro x hx
  obtain ⟨⟨k, e⟩, he, rfl⟩ := List.mem_map.mp hx
  rw [Std.ExtTreeMap.mem_toList_iff_getElem?_eq_some] at he
  have hadded := (h.recorded.added k).symm.trans (listCore_eq_some.mpr ⟨e, he, rfl⟩)
  have hcore : m.core k = some e.core := by
    rw [h.core_eq, nextCore, hadded]
    rfl
  obtain ⟨data, hdata, heq⟩ := core_eq_some.mp hcore
  have haddr : data.sparkAddress = e.sparkAddress := congrArg Prod.fst heq
  rw [← haddr]
  exact h.inv.inverse.matches_of_record hdata

lemma core_of_drops {k : String} {data}
    (hdata : (b.addedSparkNames.toList.foldl dropName m).sparkNames[k]? = some data) :
    c k = some data.core ∧ own[k]? = none ∧ expires c b.nHeight k = false := by
  rw [h.sparkNames_drops] at hdata
  split at hdata
  case isTrue => cases hdata
  case isFalse hown =>
    have hnone : own[k]? = none := by simpa using hown
    have hcore : m.core k = some data.core := core_eq_some.mpr ⟨data, hdata, rfl⟩
    rw [h.core_eq, nextCore, addedCore, hnone, map_none, none_or] at hcore
    split at hcore
    case isTrue => cases hcore
    case isFalse hexp => exact ⟨hcore, hnone, by simpa using hexp⟩

lemma inverse_removeBlock :
    (m.removeBlock b).registry.Inverse CSparkNameBlockIndexData.sparkAddress := by
  unfold removeBlock
  rw [registry_foldl_putName _ h.upper_removed]
  apply h.inverse_drops.putAll
  · intro e he
    rw [Std.ExtTreeMap.mem_toList_iff_getElem?_eq_some] at he
    obtain ⟨hcore, hcond⟩ := h.core_of_removed he
    constructor
    · intro data hdata
      obtain ⟨-, hown, hexp⟩ := h.core_of_drops hdata
      simp [hown, hexp] at hcond
    · intro k' hk'
      obtain ⟨data, hdata, haddr⟩ := (h.inverse_drops _ _).mp hk'
      obtain ⟨hcore', -⟩ := h.core_of_drops hdata
      exact h.coreInv.distinct _ _ _ _ hcore' hcore haddr
  · intro e he e' he'
    rw [Std.ExtTreeMap.mem_toList_iff_getElem?_eq_some] at he he'
    constructor
    · intro hk
      rw [hk] at he
      rw [Option.some.inj (he.symm.trans he')]
    · intro heq
      exact h.coreInv.distinct _ _ _ _ (h.core_of_removed he).1 (h.core_of_removed he').1 heq

lemma sparkNames_removeBlock (k : String) :
    (m.removeBlock b).sparkNames[k]? = (b.removedSparkNames[k]?).or
      (if (own[k]?).isSome then none else m.sparkNames[k]?) := by
  change (m.removeBlock b).registry.records[k]? = _
  unfold removeBlock
  rw [registry_foldl_putName _ h.upper_removed,
    Registry.records_putAll (f := fun k => b.removedSparkNames[k]?), ← h.sparkNames_drops]
  · rfl
  · exact fun k e => Std.ExtTreeMap.mem_toList_iff_getElem?_eq_some

lemma core_removeBlock : (m.removeBlock b).core = c := by
  funext k
  change ((m.removeBlock b).sparkNames[k]?).map CSparkNameBlockIndexData.core = c k
  rw [h.sparkNames_removeBlock, map_or]
  change (listCore b.removedSparkNames k).or _ = c k
  rw [h.recorded.removed, removedCore]
  have hcore := congrFun h.core_eq k
  cases hown : own[k]? with
  | some d => simp
  | none =>
    rw [nextCore, addedCore, hown, map_none, none_or] at hcore
    change (if (false || expires c b.nHeight k) = true then c k else none).or (m.core k) = c k
    rw [hcore, Bool.false_or]
    cases expires c b.nHeight k with
    | true => exact or_none
    | false => rfl

lemma namesInv_removeBlock : NamesInv (m.removeBlock b) := by
  refine ⟨h.inverse_removeBlock, fun k hk => ?_⟩
  have hsome : ((m.removeBlock b).core k).isSome := by simpa [core] using hk
  rw [h.core_removeBlock] at hsome
  obtain ⟨x, hx⟩ := isSome_iff_exists.mp hsome
  exact h.coreInv.upper k x hx

end Disconnecting

/-- The records that come back unchanged when a block is connected and disconnected: a
name that does not expire keeps its text only if the transaction that transfers it spells
it alike; and if the index of the block holds a record of a name that the block renews,
from an earlier connection, then that is the current one. -/
structure KeepsRecords (m : CSparkNameManager) (nHeight : Int)
    (own : Std.ExtTreeMap String CSparkNameTxData)
    (removed : Std.ExtTreeMap String CSparkNameBlockIndexData) : Prop where
  transferred : ∀ (k : String) (d : CSparkNameTxData) (old : CSparkNameBlockIndexData),
    own[k]? = some d → isNameTransfer d = true → m.sparkNames[k]? = some old →
    losesValidity nHeight old = false → d.name = old.name
  renewed : ∀ (k : String) (d : CSparkNameTxData) (old stale : CSparkNameBlockIndexData),
    own[k]? = some d → isNameTransfer d = false → m.sparkNames[k]? = some old →
    losesValidity nHeight old = false → removed[k]? = some stale → stale = old

namespace Connecting

variable {cp : ConsensusParams} {own : Std.ExtTreeMap String CSparkNameTxData}
  {index b : CBlockIndex Coin Tag} (h : Connecting m cp own index)

include h

section

variable (hconnect : m.connect cp index own = .ok (m', b))
include hconnect

lemma disconnecting :
    Disconnecting m.core cp own m' b := by
  obtain ⟨m₁, added, removed, hconnect₁, hinv, hcore, hrecorded⟩ := h.connect_spec
  obtain ⟨rfl, rfl⟩ := Prod.mk.inj (Except.ok.inj (hconnect₁.symm.trans hconnect))
  refine ⟨hinv, h.inv.coreInv, fun k hk => ?_, hrecorded, hcore⟩
  obtain ⟨d, hd⟩ := isSome_iff_exists.mp hk
  exact (h.accepted.accepted k d hd).upper

lemma sparkNames_undo (k : String) : (m'.removeBlock b).sparkNames[k]? =
      ((removedNames m own index)[k]?).or m.sparkNames[k]? := by
  obtain ⟨m₁, removed, hconnect₁, hreg, hremoved⟩ := h.connect_eq
  have hdis := h.disconnecting hconnect
  obtain ⟨rfl, rfl⟩ := Prod.mk.inj (Except.ok.inj (hconnect₁.symm.trans hconnect))
  rw [hdis.sparkNames_removeBlock, sparkNames_of_putAll hreg, h.sparkNames_afterDrops]
  change (removed[k]?).or _ = _
  rw [hremoved, h.sparkNames_afterDrops]
  have hadded := h.isSome_addedNames k
  cases hr : (removedNames m own index)[k]? with
  | some e => cases own[k]? <;> simp
  | none =>
    cases hd : own[k]? with
    | some d => simp
    | none =>
      rw [hd, isSome_none, isSome_eq_false_iff, isNone_iff_eq_none] at hadded
      simp [hadded]

lemma undo_eq_iff :
    m'.removeBlock b = m ↔ KeepsRecords m index.nHeight own index.removedSparkNames := by
  have hundo := h.sparkNames_undo hconnect
  constructor
  · intro heq
    rw [heq] at hundo
    constructor
    · intro k d old hd ht hold hloses
      have hk := hundo k
      rw [getElem?_removedNames, hd, hold] at hk
      simp only [filter_some, hloses, bind_some, transferredData, ht, hold,
        Bool.false_eq_true, if_false, if_true, none_or, map_some,
        some_or] at hk
      rw [Option.some.inj hk]
    · intro k d old stale hd ht hold hloses hstale
      have hk := hundo k
      rw [getElem?_removedNames, hd, hold, hstale] at hk
      simp only [filter_some, hloses, bind_some, transferredData, ht,
        Bool.false_eq_true, if_false, none_or, some_or] at hk
      exact (Option.some.inj hk).symm
  · intro hkeeps
    apply (h.disconnecting hconnect).namesInv_removeBlock.eq_of_sparkNames h.inv
    intro k
    rw [hundo]
    cases hr : (removedNames m own index)[k]? with
    | none => rfl
    | some e =>
      obtain ⟨old, hold, hcore⟩ := core_eq_some.mp (h.core_of_mem hr)
      rw [hold, some_or, Option.some.injEq]
      have hexp := h.isSome_removedNames_of_not_own (k := k)
      rw [hr] at hexp
      rw [getElem?_removedNames, hold] at hr
      cases hloses : losesValidity index.nHeight old with
      | true =>
        rw [filter_some, if_pos hloses, some_or] at hr
        exact (Option.some.inj hr).symm
      | false =>
        rw [filter_some, hloses, if_neg Bool.false_ne_true, none_or] at hr
        cases hd : own[k]? with
        | none =>
          -- a name that the block does not carry is only removed when it expires
          obtain ⟨data, hdata, hl⟩ := (expires_core k index.nHeight).mp (hexp hd).symm
          rw [Option.some.inj (hold.symm.trans hdata), hl] at hloses
          cases hloses
        | some d =>
          rw [hd, bind_some] at hr
          cases ht : isNameTransfer d with
          | false =>
            rw [transferredData, ht, if_neg Bool.false_ne_true, none_or] at hr
            exact hkeeps.renewed k d old e hd ht hold hloses hr
          | true =>
            rw [transferredData, ht, if_pos rfl, hold, map_some, some_or] at hr
            cases hr
            obtain ⟨name, sparkAddress, height, info⟩ := old
            obtain rfl : sparkAddress = d.oldSparkAddress := congrArg Prod.fst hcore
            rw [hkeeps.transferred k d _ hd ht hold hloses]

end

end Connecting

def replay (chain : List (CBlockIndex Coin Tag)) : CSparkNameManager :=
  chain.foldr (fun b m => (m.addBlock b false).1) {}

lemma registry_addBlock {b : CBlockIndex Coin Tag}
    (hremoved : ∀ e ∈ b.removedSparkNames.toList, toUpper e.1 = e.1)
    (hadded : ∀ e ∈ b.addedSparkNames.toList, toUpper e.1 = e.1) : (m.addBlock b false).1.registry =
      (m.registry.dropAll (b.removedSparkNames.toList.map fun e => (e.1, e.2.sparkAddress))).putAll
        CSparkNameBlockIndexData.sparkAddress b.addedSparkNames.toList := by
  change ((b.addedSparkNames.toList.foldl (addName false) _).1).registry = _
  rw [foldl_addName_fst, registry_foldl_putName _ hadded, registry_foldl_dropName _ hremoved]

namespace Connecting

variable {cp : ConsensusParams} {own : Std.ExtTreeMap String CSparkNameTxData}
  {index b : CBlockIndex Coin Tag} (h : Connecting m cp own index)

include h

lemma addBlock_eq (hconnect : m.connect cp index own = .ok (m', b)) :
    (m.addBlock b false).1 = m' := by
  obtain ⟨m₁, removed, hconnect₁, hreg, hremoved⟩ := h.connect_eq
  have hdis := h.disconnecting hconnect
  obtain ⟨rfl, rfl⟩ := Prod.mk.inj (Except.ok.inj (hconnect₁.symm.trans hconnect))
  have hregistry := registry_addBlock (m := m) hdis.upper_removed hdis.upper_added
  have hrecords : ∀ k : String, (m.registry.dropAll (removed.toList.map
      fun e => (e.1, e.2.sparkAddress))).records[k]? =
        if (removed[k]?).isSome then none else m.sparkNames[k]? := by
    intro k
    rw [Registry.records_dropAll, List.map_map]
    refine if_congr ?_ rfl rfl
    exact mem_keys_toList
  have hdrops : (m.registry.dropAll (removed.toList.map
      fun e => (e.1, e.2.sparkAddress))).Inverse CSparkNameBlockIndexData.sparkAddress := by
    apply h.inv.inverse.dropAll
    intro x hx
    obtain ⟨⟨k, e⟩, he, rfl⟩ := List.mem_map.mp hx
    rw [Std.ExtTreeMap.mem_toList_iff_getElem?_eq_some] at he
    obtain ⟨data, hdata, hcore⟩ := core_eq_some.mp (hdis.core_of_removed he).1
    have haddr : data.sparkAddress = e.sparkAddress := congrArg Prod.fst hcore
    rw [← haddr]
    exact h.inv.inverse.matches_of_record hdata
  -- the final list of removed names only has more names than the one that `AddBlock` saw
  have hle : ∀ (k : String) (d : CSparkNameBlockIndexData), (m.registry.dropAll
      (removed.toList.map fun e => (e.1, e.2.sparkAddress))).records[k]? = some d →
      (afterDrops m own index).registry.records[k]? = some d := by
    intro k d hd
    rw [hrecords, ite_none_left_eq_some] at hd
    change (afterDrops m own index).sparkNames[k]? = some d
    rw [h.sparkNames_afterDrops, ite_none_left_eq_some]
    refine ⟨fun hr => hd.1 ?_, hd.2⟩
    rw [hremoved]
    split
    case isTrue => simp [hr]
    case isFalse => exact hr
  have hinverse : (m.addBlock { index with
      addedSparkNames := addedNames m cp own index, removedSparkNames := removed }
      false).1.registry.Inverse CSparkNameBlockIndexData.sparkAddress := by
    rw [hregistry]
    apply h.inverse_putAll hdrops
    intro k d hd
    exact (h.matches_added hd).of_le h.inverse_afterDrops hdrops hle
  have hnames : ∀ k : String, (m.addBlock { index with
      addedSparkNames := addedNames m cp own index, removedSparkNames := removed }
      false).1.sparkNames[k]? = m₁.sparkNames[k]? := by
    intro k
    change (m.addBlock { index with
      addedSparkNames := addedNames m cp own index, removedSparkNames := removed }
      false).1.registry.records[k]? = _
    rw [hregistry, Registry.records_putAll (f := fun k => (addedNames m cp own index)[k]?),
      hrecords, sparkNames_of_putAll hreg, h.sparkNames_afterDrops]
    · have hadded := h.isSome_addedNames k
      cases hd : own[k]? with
      | some d =>
        rw [hd, isSome_some, isSome_iff_exists] at hadded
        obtain ⟨e, he⟩ := hadded
        rw [he, some_or, some_or]
      | none =>
        rw [hremoved, hd, isSome_none, if_neg Bool.false_ne_true]
    · exact fun k e => Std.ExtTreeMap.mem_toList_iff_getElem?_eq_some
  refine NamesInv.eq_of_sparkNames ⟨hinverse, fun k hk => ?_⟩ hdis.inv hnames
  rw [hnames] at hk
  exact hdis.inv.upper k hk

end Connecting

end CSparkNameManager

end Firo.Spark
