import Firo.Miner.Pool
import Firo.Miner.Sporks

/-! `FillBlackListForBlockTemplate` and `BlacklistTxsExceedingLimit`. The list is closed under
descendants, also where an entry is taken out of it again. -/
namespace Firo.Miner

open Firo.Lib Firo.Spark
open List hiding not_lt

/-- How the payloads of special transactions are read: the actions of a spork, and the
collateral of a provider registration. -/
structure PayloadEnv where
  getSporkTx : CTransaction → Option (List CSporkAction)
  getProRegTx : CTransaction → Option COutPoint

def isProRegTx (tx : CTransaction) : Bool :=
  decide (3 ≤ tx.nVersion) && tx.nType == TRANSACTION_PROVIDER_REGISTER

namespace CTxMemPool

variable (pool : CTxMemPool) (env : PayloadEnv)

def blackListDescendants (txBlackList : SetEntries) (mi : CTxMemPoolEntry) : SetEntries :=
  (pool.calculateDescendants mi txBlackList).erase mi

def blackListPrivate (mi : CTxMemPoolEntry) (txBlackList : SetEntries) : SetEntries :=
  if hasPrivateInputs mi.tx then pool.blackListDescendants txBlackList mi else txBlackList

def blackListProReg (mi : CTxMemPoolEntry) (txBlackList : SetEntries) : SetEntries :=
  if isProRegTx mi.tx then
    match env.getProRegTx mi.tx with
    | none => txBlackList
    | some collateralOutpoint =>
      if collateralOutpoint.hash ≠ 0 then
        if pool.has collateralOutpoint.hash || pool.isSpent collateralOutpoint then
          pool.calculateDescendants mi txBlackList
        else txBlackList
      else if pool.isSpent ⟨mi.hash, collateralOutpoint.n⟩ then
        pool.blackListDescendants txBlackList mi
      else txBlackList
  else txBlackList

/-- The loop over the mempool, which also collects the spork transactions. -/
def visit (lists : SetEntries × SetEntries) (mi : CTxMemPoolEntry) : SetEntries × SetEntries :=
  if mi ∈ lists.1 then lists
  else (pool.blackListProReg env mi (pool.blackListPrivate mi lists.1),
    if isSporkTx mi.tx && (env.getSporkTx mi.tx).isSome then insert mi lists.2 else lists.2)

/-- The entries of a list whose amounts, added up from the first one, exceed the limit. -/
def exceedingLimit (limit : Int) : Int → List CTxMemPoolEntry → List CTxMemPoolEntry
  | _, [] => []
  | transparentAmount, it :: rest =>
    if limit < transparentAmount + getSpendTransparentAmount it.tx then it :: rest
    else exceedingLimit limit (transparentAmount + getSpendTransparentAmount it.tx) rest

def blackListAll (txBlackList : SetEntries) (l : List CTxMemPoolEntry) : SetEntries :=
  l.foldl (fun txBlackList mi => pool.calculateDescendants mi txBlackList) txBlackList

/-- The Spark spends that are not blocked yet, by their transparent amounts. -/
def limitedTxs (txBlackList : SetEntries) : List CTxMemPoolEntry :=
  (pool.mapTx.filter fun mi => decide (mi ∉ txBlackList) && mi.tx.isSparkSpend).insertionSort
    fun a b => getSpendTransparentAmount a.tx ≤ getSpendTransparentAmount b.tx

def blacklistTxsExceedingLimit (limit : Int) (txBlackList : SetEntries) : SetEntries :=
  pool.blackListAll txBlackList (exceedingLimit limit 0 (pool.limitedTxs txBlackList))

variable (cp : ConsensusParams) (prevSporkMap : ActiveSporkMap) (nHeight : Int)

def visited : SetEntries × SetEntries :=
  pool.mapTx.foldl (pool.visit env) (∅, ∅)

def sporkTxRefs : List CTransaction :=
  ((pool.inOrder (pool.visited env).2).filter (· ∉ (pool.visited env).1)).map CTxMemPoolEntry.tx

def templateSporkMap : ActiveSporkMap :=
  (updateActiveSporkMap nHeight cp env.getSporkTx prevSporkMap (pool.sporkTxRefs env)).2

def blackListDisallowed (sporkMap : ActiveSporkMap) (txBlackList : SetEntries) : SetEntries :=
  if sporkMap.isEmpty then txBlackList
  else pool.blackListAll txBlackList (pool.mapTx.filter fun mi =>
    !(isTransactionAllowed mi.tx sporkMap).isOk)

def fillBlackListForBlockTemplate : SetEntries :=
  let sporkMap := pool.templateSporkMap env cp prevSporkMap nHeight
  let txBlackList := pool.blackListDisallowed sporkMap (pool.visited env).1
  match sporkMap[featureSparkTransparentLimit]? with
  | some limit => pool.blacklistTxsExceedingLimit limit.2 txBlackList
  | none => txBlackList

variable {pool env} {s : SetEntries} {mi x y : CTxMemPoolEntry}

/-- A list of blocked entries: entries of the mempool, with all their descendants. -/
structure Blocked (pool : CTxMemPool) (s : SetEntries) : Prop where
  subset : s ⊆ pool.entries
  closed : Closed pool.getMemPoolChildren s

lemma Blocked.empty : pool.Blocked ∅ :=
  ⟨Finset.empty_subset _, fun _ hx => absurd hx (Finset.notMem_empty _)⟩

lemma Blocked.calculateDescendants (h : pool.Blocked s) (hmi : mi ∈ pool.entries) :
    pool.Blocked (pool.calculateDescendants mi s) := by
  constructor
  · intro y hy
    rcases (mem_calculateDescendants h.closed hmi).mp hy with hs | hdesc
    · exact h.subset hs
    · exact Descends.mem hmi hdesc
  · intro x hx y hy
    rw [mem_calculateDescendants h.closed hmi] at hx ⊢
    rcases hx with hs | hdesc
    · exact .inl (h.closed x hs hy)
    · exact .inr (hdesc.tail hy)

/-- An entry that was not blocked is taken out again: it does not depend on its own
descendants. -/
lemma Blocked.blackListDescendants (h : pool.Blocked s) (hpool : pool.Consistent)
    (hmi : mi ∈ pool.entries) (hnot : mi ∉ s) : pool.Blocked (pool.blackListDescendants s mi) := by
  have hall := h.calculateDescendants hmi
  constructor
  · exact (Finset.erase_subset _ _).trans hall.subset
  · intro x hx y hy
    obtain ⟨hne, hmem⟩ := Finset.mem_erase.mp hx
    refine Finset.mem_erase.mpr ⟨?_, hall.closed x hmem hy⟩
    rintro rfl
    rcases (mem_calculateDescendants h.closed hmi).mp hmem with hs | hdesc
    · exact hnot (h.closed x hs hy)
    · have hx := Descends.mem hmi hdesc
      have hparent := (mem_children_iff hx hmi).mp hy
      exact hpool.acyclic y hmi
        (mem_ancestors_iff.mpr ⟨x, hparent, (descends_iff hx).mp ⟨hmi, hdesc⟩⟩)

lemma subset_blackListDescendants (h : pool.Blocked s) (hmi : mi ∈ pool.entries)
    (hnot : mi ∉ s) : s ⊆ pool.blackListDescendants s mi := by
  intro y hy
  refine Finset.mem_erase.mpr ⟨fun heq => hnot (heq ▸ hy), ?_⟩
  exact (mem_calculateDescendants h.closed hmi).mpr (.inl hy)

lemma notMem_blackListDescendants : mi ∉ pool.blackListDescendants s mi :=
  Finset.notMem_erase _ _

def Behind (pool : CTxMemPool) (x y : CTxMemPoolEntry) : Prop :=
  pool.Descends x y ∧ y ≠ x

lemma mem_blackListDescendants (h : pool.Blocked s) (hmi : mi ∈ pool.entries)
    (hy : pool.Behind mi y) : y ∈ pool.blackListDescendants s mi :=
  Finset.mem_erase.mpr ⟨hy.2, (mem_calculateDescendants h.closed hmi).mpr (.inr hy.1)⟩

/-- What the loop does for the entry `mi`, whatever the list was before. -/
structure Excludes (pool : CTxMemPool) (env : PayloadEnv) (mi : CTxMemPoolEntry)
    (s : SetEntries) : Prop where
  spend : hasPrivateInputs mi.tx = true → ∀ y, pool.Behind mi y → y ∈ s
  external : isProRegTx mi.tx = true → ∀ o, env.getProRegTx mi.tx = some o → o.hash ≠ 0 →
    (pool.has o.hash || pool.isSpent o) = true → mi ∈ s
  own : isProRegTx mi.tx = true → ∀ o, env.getProRegTx mi.tx = some o → o.hash = 0 →
    pool.isSpent ⟨mi.hash, o.n⟩ = true → ∀ y, pool.Behind mi y → y ∈ s

lemma Excludes.mono {s'} (h : pool.Excludes env mi s) (hs : s ⊆ s') : pool.Excludes env mi s' where
  spend hp y hy := hs (h.spend hp y hy)
  external hp o ho hne hspent := hs (h.external hp o ho hne hspent)
  own hp o ho hnull hspent y hy := hs (h.own hp o ho hnull hspent y hy)

lemma Blocked.excludes (h : pool.Blocked s) (hmi : mi ∈ s) : pool.Excludes env mi s where
  spend _ _ hy := h.closed.leads hmi hy.1
  external _ _ _ _ _ := hmi
  own _ _ _ _ _ _ hy := h.closed.leads hmi hy.1

lemma blackListPrivate_spec (hpool : pool.Consistent) (h : pool.Blocked s) (hmi : mi ∈ pool.entries)
    (hnot : mi ∉ s) : pool.Blocked (pool.blackListPrivate mi s) ∧ s ⊆ pool.blackListPrivate mi s ∧
      mi ∉ pool.blackListPrivate mi s ∧
      (hasPrivateInputs mi.tx = true → ∀ y, pool.Behind mi y → y ∈ pool.blackListPrivate mi s) := by
  unfold blackListPrivate
  split
  case isTrue =>
    exact ⟨h.blackListDescendants hpool hmi hnot, subset_blackListDescendants h hmi hnot,
      notMem_blackListDescendants, fun _ y hy => mem_blackListDescendants h hmi hy⟩
  case isFalse hp => exact ⟨h, subset_rfl, hnot, fun hprivate => absurd hprivate hp⟩

lemma blackListProReg_spec (env) (hpool : pool.Consistent) (h : pool.Blocked s)
    (hmi : mi ∈ pool.entries) (hnot : mi ∉ s) :
    pool.Blocked (pool.blackListProReg env mi s) ∧ s ⊆ pool.blackListProReg env mi s ∧
      (isProRegTx mi.tx = true → ∀ o, env.getProRegTx mi.tx = some o → o.hash ≠ 0 →
        (pool.has o.hash || pool.isSpent o) = true → mi ∈ pool.blackListProReg env mi s) ∧
      (isProRegTx mi.tx = true → ∀ o, env.getProRegTx mi.tx = some o → o.hash = 0 →
        pool.isSpent ⟨mi.hash, o.n⟩ = true →
        ∀ y, pool.Behind mi y → y ∈ pool.blackListProReg env mi s) := by
  have hself : mi ∈ pool.calculateDescendants mi s :=
    (mem_calculateDescendants h.closed hmi).mpr (.inr .refl)
  have hsubset : s ⊆ pool.calculateDescendants mi s :=
    fun y hy => (mem_calculateDescendants h.closed hmi).mpr (.inl hy)
  unfold blackListProReg
  split
  case isFalse hreg => exact ⟨h, subset_rfl, fun hp => absurd hp hreg, fun hp => absurd hp hreg⟩
  case isTrue hreg =>
    cases hread : env.getProRegTx mi.tx with
    | none => exact ⟨h, subset_rfl, nofun, nofun⟩
    | some collateral =>
      simp only [Option.some.injEq, forall_eq']
      by_cases hnull : collateral.hash = 0
      · simp only [hnull, ne_eq, not_true_eq_false, if_false]
        split
        case isTrue =>
          exact ⟨h.blackListDescendants hpool hmi hnot, subset_blackListDescendants h hmi hnot,
            nofun, fun _ _ _ y hy => mem_blackListDescendants h hmi hy⟩
        case isFalse hspent =>
          exact ⟨h, subset_rfl, nofun, fun _ _ hspent' => absurd hspent' hspent⟩
      · simp only [hnull, ne_eq, not_false_eq_true, if_true]
        split
        case isTrue =>
          exact ⟨h.calculateDescendants hmi, hsubset, fun _ _ _ => hself, nofun⟩
        case isFalse hfound =>
          exact ⟨h, subset_rfl, fun _ _ hfound' => absurd hfound' hfound, nofun⟩

variable {lists : SetEntries × SetEntries} {l : List CTxMemPoolEntry}

lemma visit_spec (env) (hpool : pool.Consistent) (h : pool.Blocked lists.1)
    (hmi : mi ∈ pool.entries) :
    pool.Blocked (pool.visit env lists mi).1 ∧ lists.1 ⊆ (pool.visit env lists mi).1 ∧
      pool.Excludes env mi (pool.visit env lists mi).1 := by
  unfold visit
  split
  case isTrue hmem => exact ⟨h, subset_rfl, h.excludes hmem⟩
  case isFalse hnot =>
    obtain ⟨hprivate, hsub, hnot', hspend⟩ := blackListPrivate_spec hpool h hmi hnot
    obtain ⟨hblocked, hsub', hexternal, hown⟩ := blackListProReg_spec env hpool hprivate hmi hnot'
    exact ⟨hblocked, hsub.trans hsub', ⟨fun hp y hy => hsub' (hspend hp y hy), hexternal, hown⟩⟩

/-- The entries that the loop has visited are excluded. -/
structure Visiting (pool : CTxMemPool) (env : PayloadEnv) (done : List CTxMemPoolEntry)
    (lists : SetEntries × SetEntries) : Prop where
  blocked : pool.Blocked lists.1
  excludes : ∀ mi ∈ done, pool.Excludes env mi lists.1

lemma Visiting.visit {done} (hpool : pool.Consistent) (h : pool.Visiting env done lists)
    (hmi : mi ∈ pool.entries) : pool.Visiting env (done ++ [mi]) (pool.visit env lists mi) := by
  obtain ⟨hblocked, hsub, hexcludes⟩ := visit_spec env hpool h.blocked hmi
  refine ⟨hblocked, fun e he => ?_⟩
  rcases mem_append.mp he with he | he
  · exact (h.excludes e he).mono hsub
  · obtain rfl := mem_singleton.mp he
    exact hexcludes

lemma visiting_foldl (hpool : pool.Consistent) {done l}
    (h : pool.Visiting env done lists) (hl : ∀ mi ∈ l, mi ∈ pool.entries) :
    pool.Visiting env (done ++ l) (l.foldl (pool.visit env) lists) := by
  induction l generalizing done lists with
  | nil => simpa using h
  | cons mi rest ih =>
    rw [forall_mem_cons] at hl
    have hnext := ih (h.visit hpool hl.1) hl.2
    rwa [append_assoc] at hnext

lemma visiting_visited (hpool : pool.Consistent) :
    pool.Visiting env pool.mapTx (pool.visited env) := by
  have hstart : pool.Visiting env [] (∅, ∅) := ⟨Blocked.empty, nofun⟩
  exact visiting_foldl hpool hstart fun _ => mem_entries.mpr

lemma blackListAll_spec (h : pool.Blocked s) (hl : ∀ mi ∈ l, mi ∈ pool.entries) :
    pool.Blocked (pool.blackListAll s l) ∧ s ⊆ pool.blackListAll s l := by
  induction l generalizing s with
  | nil => exact ⟨h, subset_rfl⟩
  | cons mi rest ih =>
    rw [forall_mem_cons] at hl
    obtain ⟨hblocked, hsub⟩ := ih (h.calculateDescendants hl.1) hl.2
    have hmem := fun y => mem_calculateDescendants (y := y) h.closed hl.1
    exact ⟨hblocked, fun y hy => hsub ((hmem y).mpr (.inl hy))⟩

lemma blackListDisallowed_spec (sporkMap) (h : pool.Blocked s) :
    pool.Blocked (pool.blackListDisallowed sporkMap s) ∧
      s ⊆ pool.blackListDisallowed sporkMap s := by
  unfold blackListDisallowed
  split
  case isTrue => exact ⟨h, subset_rfl⟩
  case isFalse => exact blackListAll_spec h fun mi hmi => mem_entries.mpr (mem_filter.mp hmi).1

def amounts (l : List CTxMemPoolEntry) : Int :=
  (l.map fun e => getSpendTransparentAmount e.tx).sum

lemma exceedingLimit_subset {limit transparentAmount : Int} :
    exceedingLimit limit transparentAmount l ⊆ l := by
  induction l generalizing transparentAmount with
  | nil => exact Subset.refl _
  | cons it rest ih =>
    rw [exceedingLimit]
    split
    · exact Subset.refl _
    · exact subset_cons_of_subset _ ih

lemma blacklistTxsExceedingLimit_spec (h : pool.Blocked s) (limit : Int) :
    pool.Blocked (pool.blacklistTxsExceedingLimit limit s) ∧
      s ⊆ pool.blacklistTxsExceedingLimit limit s := by
  refine blackListAll_spec h fun mi hmi => ?_
  have hlimited := (mem_insertionSort _).mp (exceedingLimit_subset hmi)
  exact mem_entries.mpr (mem_filter.mp hlimited).1

/-- What the list of a template guarantees about the entries that are not on it. -/
structure BlackListed (pool : CTxMemPool) (env : PayloadEnv) (txBlackList : SetEntries) :
    Prop where
  blocked : pool.Blocked txBlackList
  excludes : ∀ mi ∈ pool.entries, pool.Excludes env mi txBlackList

lemma blackListed_fill (env) (hpool : pool.Consistent) (cp) (prevSporkMap) (nHeight : Int) :
    pool.BlackListed env (pool.fillBlackListForBlockTemplate env cp prevSporkMap nHeight) := by
  have hvisited : pool.Visiting env pool.mapTx (pool.visited env) := visiting_visited hpool
  obtain ⟨hblocked, hsub⟩ := blackListDisallowed_spec
    (pool.templateSporkMap env cp prevSporkMap nHeight) hvisited.blocked
  have hexcludes : ∀ mi ∈ pool.entries, pool.Excludes env mi (pool.blackListDisallowed
      (pool.templateSporkMap env cp prevSporkMap nHeight) (pool.visited env).1) :=
    fun mi hmi => (hvisited.excludes mi (mem_entries.mp hmi)).mono hsub
  unfold fillBlackListForBlockTemplate
  dsimp only
  split
  case h_1 limit _ =>
    obtain ⟨hblocked', hsub'⟩ := blacklistTxsExceedingLimit_spec hblocked limit.2
    exact ⟨hblocked', fun mi hmi => (hexcludes mi hmi).mono hsub'⟩
  case h_2 => exact ⟨hblocked, hexcludes⟩

end CTxMemPool

end Firo.Miner
