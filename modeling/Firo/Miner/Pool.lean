import Firo.Lib.Worklist
import Firo.Spark.Spend

/-! The entries of `CTxMemPool` with the links between them: `mapLinks` and `mapNextTx` hold what
`addUnchecked` enters for the inputs of a transaction. `Consistent` is what `CTxMemPool::check`
asserts of the ancestor state. -/
namespace Firo.Miner

open Firo.Lib Firo.Spark List

def OP_SIGMASPEND : UInt8 := 0xc4

def isSigmaSpendInput (txin : CTxIn) : Bool :=
  txin.prevout.hash == 0 && decide (1 ≤ txin.prevout.n) &&
    CScript.startsWith OP_SIGMASPEND txin.scriptSig

def isLelantusJoinSplitInput (txin : CTxIn) : Bool :=
  txin.prevout.isNull && (CScript.startsWith OP_LELANTUSJOINSPLIT txin.scriptSig ||
    CScript.startsWith OP_LELANTUSJOINSPLITPAYLOAD txin.scriptSig)

def isZerocoinRemintInput (txin : CTxIn) : Bool :=
  txin.prevout.isNull && CScript.startsWith OP_ZEROCOINTOSIGMAREMINT txin.scriptSig

def isSigmaSpend (tx : CTransaction) : Bool :=
  tx.vin.any isSigmaSpendInput

def isLelantusJoinSplit (tx : CTransaction) : Bool :=
  (decide (3 ≤ tx.nVersion) && tx.nType == TRANSACTION_LELANTUS) ||
    tx.vin.any isLelantusJoinSplitInput

def isZerocoinRemint (tx : CTransaction) : Bool :=
  tx.vin.any isZerocoinRemintInput

def hasPrivateInputs (tx : CTransaction) : Bool :=
  isSigmaSpend tx || isLelantusJoinSplit tx || tx.isSparkSpend

def WITNESS_SCALE_FACTOR : Nat := 4

/-- An entry of the mempool, with the hash and the size of its transaction. A `txiter` is the
entry that it points to. -/
structure CTxMemPoolEntry where
  tx : CTransaction
  hash : Uint256
  hasWitness : Bool
  serializeSize : Nat
  nFee : Int
  feeDelta : Int
  nTxWeight : Nat
  sigOpCost : Nat
  nCountWithAncestors : Nat
  nSizeWithAncestors : Nat
  nModFeesWithAncestors : Int
  nSigOpCostWithAncestors : Nat
deriving DecidableEq

def CTxMemPoolEntry.getModifiedFee (e : CTxMemPoolEntry) : Int := e.nFee + e.feeDelta

/-- The entries in the order in which the first index of `mapTx` has them, the priorities of
`mapDeltas`, and the option `-bytespersigop`. -/
structure CTxMemPool where
  mapTx : List CTxMemPoolEntry
  priorityDelta : Uint256 → ℚ
  nBytesPerSigOp : Nat

abbrev SetEntries := Finset CTxMemPoolEntry

namespace CTxMemPool

variable (pool : CTxMemPool)

def getTxSize (e : CTxMemPoolEntry) : Nat :=
  (max e.nTxWeight (e.sigOpCost * pool.nBytesPerSigOp) + WITNESS_SCALE_FACTOR - 1) /
    WITNESS_SCALE_FACTOR

def entries : SetEntries := pool.mapTx.toFinset

def inOrder (s : SetEntries) : List CTxMemPoolEntry :=
  (pool.mapTx.filter (· ∈ s)).insertionSort fun a b => a.hash.toNat ≤ b.hash.toNat

/-- An input of `e` is an output of the transaction with the hash. Private spends have no such
inputs. -/
def spendsFrom (e : CTxMemPoolEntry) (hash : Uint256) : Bool :=
  !hasPrivateInputs e.tx && e.tx.vin.any fun txin => txin.prevout.hash == hash

def getMemPoolParents (e : CTxMemPoolEntry) : SetEntries :=
  pool.entries.filter fun p => spendsFrom e p.hash

def getMemPoolChildren (e : CTxMemPoolEntry) : SetEntries :=
  pool.entries.filter fun c => spendsFrom c e.hash

def spends (e : CTxMemPoolEntry) (outpoint : COutPoint) : Bool :=
  !hasPrivateInputs e.tx && e.tx.vin.any fun txin => txin.prevout == outpoint

def isSpent (outpoint : COutPoint) : Bool :=
  pool.mapTx.any fun e => spends e outpoint

def has (hash : Uint256) : Bool :=
  pool.mapTx.any fun e => e.hash == hash

def pick (s : SetEntries) : Option CTxMemPoolEntry := (pool.inOrder s).head?

def calculateDescendants (entryit : CTxMemPoolEntry) (setDescendants : SetEntries) : SetEntries :=
  walk pool.pick pool.getMemPoolChildren pool.mapTx.length
    (if entryit ∈ setDescendants then ∅ else {entryit}) setDescendants

def calculateMemPoolAncestors (entry : CTxMemPoolEntry) : SetEntries :=
  walk pool.pick pool.getMemPoolParents pool.mapTx.length (pool.getMemPoolParents entry) ∅

def package (e : CTxMemPoolEntry) : SetEntries :=
  insert e (pool.calculateMemPoolAncestors e)

/-- What `CTxMemPool::check` asserts: hashes are unique, no transaction depends on itself, and
the ancestor state of each entry is the sum over its ancestors. -/
structure Consistent : Prop where
  nodup : (pool.mapTx.map CTxMemPoolEntry.hash).Nodup
  acyclic : ∀ e ∈ pool.entries, e ∉ pool.calculateMemPoolAncestors e
  count_eq : ∀ e ∈ pool.entries, e.nCountWithAncestors = (pool.package e).card
  size_eq : ∀ e ∈ pool.entries, e.nSizeWithAncestors = ∑ a ∈ pool.package e, pool.getTxSize a
  sigOpCost_eq : ∀ e ∈ pool.entries, e.nSigOpCostWithAncestors = ∑ a ∈ pool.package e, a.sigOpCost
  amount_nonneg : ∀ e ∈ pool.entries, 0 ≤ getSpendTransparentAmount e.tx

variable {pool} {e x y : CTxMemPoolEntry} {s : SetEntries}

lemma mem_entries : e ∈ pool.entries ↔ e ∈ pool.mapTx :=
  mem_toFinset

lemma mem_inOrder (hs : s ⊆ pool.entries) : e ∈ pool.inOrder s ↔ e ∈ s := by
  unfold inOrder
  rw [mem_insertionSort, mem_filter, decide_eq_true_eq, and_iff_right_iff_imp]
  exact fun he => mem_entries.mp (hs he)

lemma picks : Picks pool.entries pool.pick where
  mem s x h := by
    have hx := mem_of_mem_head? h
    unfold inOrder at hx
    rw [mem_insertionSort, mem_filter, decide_eq_true_eq] at hx
    exact hx.2
  none s hs h := by
    rw [pick, head?_eq_none_iff] at h
    rw [Finset.eq_empty_iff_forall_notMem]
    intro e he
    have hmem := (mem_inOrder hs).mpr he
    rw [h] at hmem
    cases hmem

lemma parents_subset (e) : pool.getMemPoolParents e ⊆ pool.entries :=
  Finset.filter_subset _ _

lemma children_subset (e) : pool.getMemPoolChildren e ⊆ pool.entries :=
  Finset.filter_subset _ _

lemma mem_children_iff (hx : x ∈ pool.entries) (hy : y ∈ pool.entries) :
    y ∈ pool.getMemPoolChildren x ↔ x ∈ pool.getMemPoolParents y := by
  simp [getMemPoolChildren, getMemPoolParents, hx, hy]

lemma card_entries_le : pool.entries.card ≤ pool.mapTx.length :=
  toFinset_card_le _

abbrev Descends (pool : CTxMemPool) (x y : CTxMemPoolEntry) : Prop :=
  Leads pool.getMemPoolChildren x y

lemma Descends.mem (hx : x ∈ pool.entries) (h : pool.Descends x y) : y ∈ pool.entries := by
  induction h with
  | refl => exact hx
  | tail _ hbc _ => exact children_subset _ hbc

lemma descends_iff (hy : y ∈ pool.entries) :
    x ∈ pool.entries ∧ pool.Descends x y ↔ Leads pool.getMemPoolParents y x := by
  constructor
  · rintro ⟨hx, h⟩
    induction h with
    | refl => exact .refl
    | tail hab hbc ih =>
      have hb := Descends.mem hx hab
      exact .head ((mem_children_iff hb hy).mp hbc) (ih hb)
  · intro h
    induction h with
    | refl => exact ⟨hy, .refl⟩
    | tail hab hbc ih =>
      have hc := parents_subset _ hbc
      exact ⟨hc, .head ((mem_children_iff hc ih.1).mpr hbc) ih.2⟩

lemma mem_calculateDescendants (hs : Closed pool.getMemPoolChildren s) (hx : x ∈ pool.entries) :
    y ∈ pool.calculateDescendants x s ↔ y ∈ s ∨ pool.Descends x y :=
  mem_walk_singleton picks (fun e _ => children_subset e) hs hx card_entries_le

lemma mem_ancestors_iff : y ∈ pool.calculateMemPoolAncestors e ↔
      ∃ p ∈ pool.getMemPoolParents e, Leads pool.getMemPoolParents p y := by
  have hcard := (Finset.card_le_card
    (Finset.sdiff_subset (s := pool.entries) (t := ∅))).trans card_entries_le
  unfold calculateMemPoolAncestors
  rw [mem_walk picks (fun e _ => parents_subset e)
    ⟨parents_subset e, Finset.disjoint_empty_right _, by simp⟩ hcard]
  simp

lemma mem_package_iff : y ∈ pool.package e ↔ Leads pool.getMemPoolParents e y := by
  unfold package
  rw [Finset.mem_insert, mem_ancestors_iff]
  constructor
  · rintro (rfl | ⟨p, hp, hpy⟩)
    · exact .refl
    · exact .head hp hpy
  · intro h
    rcases Relation.ReflTransGen.cases_head h with rfl | ⟨p, hp, hpy⟩
    · exact .inl rfl
    · exact .inr ⟨p, hp, hpy⟩

lemma self_mem_package : e ∈ pool.package e :=
  Finset.mem_insert_self _ _

lemma parent_mem_package (h : x ∈ pool.package e) (hy : y ∈ pool.getMemPoolParents x) :
    y ∈ pool.package e :=
  mem_package_iff.mpr ((mem_package_iff.mp h).tail hy)

lemma package_subset (he : e ∈ pool.entries) : pool.package e ⊆ pool.entries := by
  intro y hy
  exact ((descends_iff he).mpr (mem_package_iff.mp hy)).1

lemma mem_package_iff_descends (he : e ∈ pool.entries) :
    y ∈ pool.package e ↔ y ∈ pool.entries ∧ pool.Descends y e := by
  rw [mem_package_iff, descends_iff he]

lemma package_subset_package (h : x ∈ pool.package e) : pool.package x ⊆ pool.package e := by
  intro y hy
  rw [mem_package_iff] at h hy ⊢
  exact h.trans hy

namespace Consistent

variable (h : pool.Consistent)

include h

lemma count_lt (he : e ∈ pool.entries) (hp : x ∈ pool.getMemPoolParents e) :
    x.nCountWithAncestors < e.nCountWithAncestors := by
  rw [h.count_eq e he, h.count_eq x (parents_subset e hp)]
  apply Finset.card_lt_card
  rw [Finset.ssubset_iff_of_subset
    (package_subset_package (parent_mem_package self_mem_package hp))]
  refine ⟨e, self_mem_package, fun hmem => h.acyclic e he ?_⟩
  exact mem_ancestors_iff.mpr ⟨x, hp, mem_package_iff.mp hmem⟩

end Consistent

end CTxMemPool

end Firo.Miner
