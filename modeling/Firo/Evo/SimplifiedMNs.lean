import Firo.Evo.MNList

/-! `CSimplifiedMNList`, whose merkle root a coinbase commits to, the difference of two lists that a
light client gets, and `CalcCbTxMerkleRootMNList` with its static caches. -/
namespace Firo.Evo

open Firo.Lib Firo.Spark List Option CDeterministicMN

/-- The bytes that `uint256::Compare` compares, in its order. -/
def memcmpKey (x : Uint256) : List Nat :=
  (List.range 32).map fun i => x.toNat / 256 ^ i % 256

lemma memcmpKey_injective : Function.Injective memcmpKey := by
  intro x y h
  refine BitVec.eq_of_toNat_eq (eq_of_digits (n := 256) (m := 32) x.isLt y.isLt fun j hj => ?_)
  exact map_inj_left.mp h j (mem_range.mpr hj)

structure CSimplifiedMNListEntry where
  proRegTxHash : Uint256
  confirmedHash : Uint256
  service : List UInt8
  pubKeyOperator : List UInt8
  keyIDVoting : List UInt8
  isValid : Bool
deriving DecidableEq

def CDeterministicMN.simplified (dmn : CDeterministicMN) : CSimplifiedMNListEntry where
  proRegTxHash := dmn.proTxHash
  confirmedHash := dmn.pdmnState.confirmedHash
  service := dmn.pdmnState.addr
  pubKeyOperator := dmn.pdmnState.pubKeyOperator
  keyIDVoting := dmn.pdmnState.keyIDVoting
  isValid := dmn.pdmnState.nPoSeBanHeight == -1

def simplifiedMNList (smlEntries : List CSimplifiedMNListEntry) : List CSimplifiedMNListEntry :=
  Keyed.sortBy (memcmpKey ·.proRegTxHash) smlEntries

lemma simplifiedMNList_congr {l l' : List CSimplifiedMNListEntry} (hperm : l.Perm l')
    (hnodup : (l.map (·.proRegTxHash)).Nodup) : simplifiedMNList l = simplifiedMNList l' :=
  Keyed.sortBy_congr hperm fun _ ha _ hb h =>
    Keyed.eq_of_key_eq hnodup ha hb (memcmpKey_injective h)

structure CSimplifiedMNListDiff where
  baseBlockHash : Uint256
  blockHash : Uint256
  deletedMNs : List Uint256
  mnList : List CSimplifiedMNListEntry

def CSimplifiedMNListDiff.apply (diff : CSimplifiedMNListDiff)
    (entries : List CSimplifiedMNListEntry) : List CSimplifiedMNListEntry :=
  Keyed.replaceAll (·.proRegTxHash) (Keyed.deleteAll (·.proRegTxHash) entries diff.deletedMNs)
    diff.mnList

namespace CDeterministicMNList

variable (A B : CDeterministicMNList)

def entries : List CSimplifiedMNListEntry :=
  A.mnMap.map CDeterministicMN.simplified

def sml : List CSimplifiedMNListEntry :=
  simplifiedMNList A.entries

lemma entries_nodup : (A.entries.map (·.proRegTxHash)).Nodup := by
  simpa [entries, simplified, Function.comp_def] using A.proTxHash_nodup

variable {A B} in
lemma sml_congr (h : A.entries.Perm B.entries) : A.sml = B.sml :=
  simplifiedMNList_congr h A.entries_nodup

def buildSimplifiedDiff : CSimplifiedMNListDiff where
  baseBlockHash := A.blockHash
  blockHash := B.blockHash
  deletedMNs := (A.mnMap.filter fun fromPtr => (B.getMN fromPtr.proTxHash).isNone).map (·.proTxHash)
  mnList := (B.mnMap.filter fun toPtr =>
    (A.getMN toPtr.proTxHash).all fun fromPtr => toPtr.simplified ≠ fromPtr.simplified).map
      CDeterministicMN.simplified

variable {A B} in
lemma mem_deletedMNs {h : Uint256} : h ∈ (A.buildSimplifiedDiff B).deletedMNs ↔
    h ∈ A.entries.map (·.proRegTxHash) ∧ h ∉ B.entries.map (·.proRegTxHash) := by
  have hkeys : ∀ C : CDeterministicMNList,
      C.entries.map (·.proRegTxHash) = C.mnMap.map (·.proTxHash) := fun C => by
    simp [entries, simplified]
  simp only [hkeys, buildSimplifiedDiff, List.mem_map, List.mem_filter, Option.isNone_iff_eq_none,
    getMN, Keyed.find_eq_none_iff]
  constructor
  · rintro ⟨dmn, ⟨hmem, hnot⟩, rfl⟩
    exact ⟨⟨dmn, hmem, rfl⟩, hnot⟩
  · rintro ⟨⟨dmn, hmem, rfl⟩, hnot⟩
    exact ⟨dmn, ⟨hmem, hnot⟩, rfl⟩

variable {A B} in
lemma mem_mnList {e} : e ∈ (A.buildSimplifiedDiff B).mnList ↔ e ∈ B.entries ∧ e ∉ A.entries := by
  have hall : ∀ toPtr : CDeterministicMN,
      ((A.getMN toPtr.proTxHash).all fun f => toPtr.simplified ≠ f.simplified) = true ↔
        toPtr.simplified ∉ A.entries := by
    intro toPtr
    rw [Option.all_eq_true, entries, List.mem_map]
    constructor
    · rintro h ⟨fromPtr, hmem, heq⟩
      have hhash : fromPtr.proTxHash = toPtr.proTxHash := congrArg (·.proRegTxHash) heq
      simpa [heq] using h fromPtr (getMN_eq_some_iff.mpr ⟨hmem, hhash⟩)
    · intro h fromPtr hfind
      exact decide_eq_true fun heq => h ⟨fromPtr, (getMN_eq_some_iff.mp hfind).1, heq.symm⟩
  simp only [buildSimplifiedDiff, List.mem_map, List.mem_filter, hall]
  constructor
  · rintro ⟨toPtr, ⟨hmem, hnot⟩, rfl⟩
    exact ⟨mem_map_of_mem hmem, hnot⟩
  · rintro ⟨he, hnot⟩
    obtain ⟨toPtr, hmem, rfl⟩ := mem_map.mp he
    exact ⟨toPtr, ⟨hmem, hnot⟩, rfl⟩

lemma apply_buildSimplifiedDiff_perm : ((A.buildSimplifiedDiff B).apply A.entries).Perm B.entries :=
  Keyed.replaceAll_deleteAll_perm A.entries_nodup B.entries_nodup
    (B.entries_nodup.sublist ((filter_sublist.map _).map _)) (fun _ => mem_mnList)
    fun _ => mem_deletedMNs

end CDeterministicMNList

/-- `CalcHash` of an entry, `ComputeMerkleRoot` with its mutation flag, and `HasSameMNMap`, which
compares the identities of two maps. -/
structure MerkleEnv where
  calcHash : CSimplifiedMNListEntry → Uint256
  computeMerkleRoot : List Uint256 → Uint256 × Bool
  computeMerkleRoot_nil : computeMerkleRoot [] = (0, false)
  hasSameMNMap : CDeterministicMNList → CDeterministicMNList → Bool
  mnMap_eq : ∀ {A B}, hasSameMNMap A B = true → A.mnMap = B.mnMap

def calcMerkleRoot (env : MerkleEnv) (mnList : List CSimplifiedMNListEntry) : Uint256 × Bool :=
  env.computeMerkleRoot (mnList.map env.calcHash)

/-- A client that applies the difference to the entries of the first list has the entries of the
second one, and the root of the second one in whichever order that list iterates. -/
theorem simplified_diff_reconstructs (env : MerkleEnv) (A B : CDeterministicMNList) :
    ((A.buildSimplifiedDiff B).apply A.entries).Perm B.entries ∧
      ∀ B' : CDeterministicMNList, B'.mnMap.Perm B.mnMap →
        simplifiedMNList ((A.buildSimplifiedDiff B).apply A.entries) = B'.sml ∧
        calcMerkleRoot env (simplifiedMNList ((A.buildSimplifiedDiff B).apply A.entries)) =
          calcMerkleRoot env B'.sml := by
  refine ⟨A.apply_buildSimplifiedDiff_perm B, fun B' hperm => ?_⟩
  have hentries : ((A.buildSimplifiedDiff B).apply A.entries).Perm B'.entries :=
    (A.apply_buildSimplifiedDiff_perm B).trans (hperm.map _).symm
  have hsml : simplifiedMNList ((A.buildSimplifiedDiff B).apply A.entries) = B'.sml :=
    (simplifiedMNList_congr hentries.symm B'.entries_nodup).symm
  exact ⟨hsml, congrArg _ hsml⟩

namespace CDeterministicMNList

variable {A B : CDeterministicMNList}

lemma hasCbTxMerkleRootChanges_eq_false : (A.buildDiff B).hasCbTxMerkleRootChanges = false ↔
      (∀ b ∈ B.mnMap, A.getMN b.proTxHash ≠ none) ∧ (∀ a ∈ A.mnMap, B.getMN a.proTxHash ≠ none) ∧
      ∀ b ∈ B.mnMap, ∀ a ∈ A.getMN b.proTxHash, ∀ f ∈ Field.relevantFields,
        Field.differs a.pdmnState b.pdmnState f = false := by
  have hadded : (A.buildDiff B).addedMNs = [] ↔ ∀ b ∈ B.mnMap, A.getMN b.proTxHash ≠ none := by
    rw [buildDiff, ← perm_nil, (Keyed.sortBy_perm _ _).congr_left, perm_nil, filter_eq_nil_iff]
    simp
  have hremoved : (A.buildDiff B).removedMns = [] ↔ ∀ a ∈ A.mnMap, B.getMN a.proTxHash ≠ none := by
    simp [buildDiff]
  have hupdated : ((A.buildDiff B).updatedMNs.any fun p => p.2.any Field.relevantFields.contains)
      = false ↔ ∀ b ∈ B.mnMap, ∀ a ∈ A.getMN b.proTxHash, ∀ f ∈ Field.relevantFields,
        Field.differs a.pdmnState b.pdmnState f = false := by
    rw [buildDiff_updatedMNs, List.any_eq_false]
    constructor
    · intro h b hb a ha f hf
      by_contra hdiff
      have hmem : f ∈ Field.diff a.pdmnState b.pdmnState :=
        Field.mem_diff.mpr (Bool.eq_true_of_not_eq_false hdiff)
      refine h (b.internalId, Field.diff a.pdmnState b.pdmnState) ?_ ?_
      · refine mem_filterMap.mpr ⟨b, hb, ?_⟩
        rw [mem_def.mp ha, bind_some, if_neg (ne_nil_of_mem hmem)]
      · exact any_eq_true.mpr ⟨f, hmem, contains_iff_mem.mpr hf⟩
    · intro h p hp hany
      obtain ⟨b, hb, hsome⟩ := mem_filterMap.mp hp
      obtain ⟨a, ha, hif⟩ := bind_eq_some_iff.mp hsome
      obtain ⟨f, hf, hrel⟩ := any_eq_true.mp hany
      split_ifs at hif
      cases hif
      have hsame := h b hb a ha f (contains_iff_mem.mp hrel)
      rw [Field.mem_diff.mp hf] at hsame
      exact Bool.noConfusion hsame
  rw [← hadded, ← hremoved, ← hupdated, CDeterministicMNListDiff.hasCbTxMerkleRootChanges]
  simp [and_assoc]

lemma simplified_eq {a b : CDeterministicMN} (hhash : a.proTxHash = b.proTxHash)
    (h : ∀ f ∈ Field.relevantFields, Field.differs a.pdmnState b.pdmnState f = false) :
    a.simplified = b.simplified := by
  simp only [Field.relevantFields, mem_cons, not_mem_nil, or_false, forall_eq_or_imp,
    forall_eq, Field.differs, bne_eq_false_iff_eq] at h
  obtain ⟨hban, hconfirmed, hkey, hvoting, haddr⟩ := h
  simp [simplified, hhash, hban, hconfirmed, hkey, hvoting, haddr]

lemma entries_perm_of_unchanged (h : (A.buildDiff B).hasCbTxMerkleRootChanges = false) :
    A.entries.Perm B.entries := by
  obtain ⟨hadded, hremoved, hsame⟩ := hasCbTxMerkleRootChanges_eq_false.mp h
  refine Keyed.perm_of_mem_iff A.entries_nodup B.entries_nodup fun e => ⟨fun he => ?_, fun he => ?_⟩
  · obtain ⟨a, ha, rfl⟩ := mem_map.mp he
    obtain ⟨b, hb⟩ := ne_none_iff_exists'.mp (hremoved a ha)
    obtain ⟨hmem, hhash⟩ := getMN_eq_some_iff.mp hb
    have hback : A.getMN b.proTxHash = some a := getMN_eq_some_iff.mpr ⟨ha, hhash.symm⟩
    exact mem_map.mpr ⟨b, hmem, (simplified_eq hhash.symm (hsame b hmem a hback)).symm⟩
  · obtain ⟨b, hb, rfl⟩ := mem_map.mp he
    obtain ⟨a, ha⟩ := ne_none_iff_exists'.mp (hadded b hb)
    obtain ⟨hmem, hhash⟩ := getMN_eq_some_iff.mp ha
    exact mem_map.mpr ⟨a, hmem, simplified_eq hhash (hsame b hb a ha)⟩

end CDeterministicMNList

/-- The static variables of `CalcCbTxMerkleRootMNList`. -/
structure MNRootCache where
  deterministicMNListCached : CDeterministicMNList := {}
  merkleRootCached : Uint256 := 0
  mutatedCached : Bool := false
  hasCached : Bool := false
  smlCached : List CSimplifiedMNListEntry := []

def calcCbTxMerkleRootMNList (env : MerkleEnv) (list : CDeterministicMNList)
    (pindexPrev : Option Uint256) (cbTxMerkleRootMNListChanged : Bool) (c : MNRootCache) :
    (Uint256 × Bool) × MNRootCache :=
  if !cbTxMerkleRootMNListChanged && c.hasCached &&
      pindexPrev == some c.deterministicMNListCached.blockHash then
    ((c.merkleRootCached, !c.mutatedCached), { c with deterministicMNListCached := list })
  else if c.hasCached && env.hasSameMNMap list c.deterministicMNListCached then
    ((c.merkleRootCached, !c.mutatedCached), c)
  else if list.sml = c.smlCached then
    ((c.merkleRootCached, !c.mutatedCached),
      { c with deterministicMNListCached := list, hasCached := true })
  else
    (((calcMerkleRoot env list.sml).1, !(calcMerkleRoot env list.sml).2),
      { deterministicMNListCached := list
        merkleRootCached := (calcMerkleRoot env list.sml).1
        mutatedCached := (calcMerkleRoot env list.sml).2
        hasCached := true
        smlCached := list.sml })

/-- A call made for a block or for a template; the flag is the one of `ProcessBlock`, or `true`.
`prevs` are the hashes that occur as `pindexPrev`, and the list under such a hash is that of its
block. A template has another hash, the null one or that of a header whose merkle root is not yet
set, and of its list nothing is asked. -/
structure MNRootCall (prevs : Set Uint256) (listOf : Uint256 → CDeterministicMNList) where
  list : CDeterministicMNList
  pindexPrev : Option Uint256
  changed : Bool
  ofBlock : list.blockHash ∈ prevs → list.mnMap.Perm (listOf list.blockHash).mnMap
  prev_mem : ∀ h ∈ pindexPrev, h ∈ prevs
  flag : ∀ h ∈ pindexPrev, changed = true ∨
    changed = ((listOf h).buildDiff list).hasCbTxMerkleRootChanges

namespace MNRootCache

variable {env : MerkleEnv} {prevs : Set Uint256} {listOf : Uint256 → CDeterministicMNList}
  {c : MNRootCache}

/-- The cached root is that of the cached entries, which are those of the cached list, and this list
is the one of its block if a call can name the block as the previous one. -/
structure Inv (env : MerkleEnv) (prevs : Set Uint256) (listOf : Uint256 → CDeterministicMNList)
    (c : MNRootCache) : Prop where
  root : (c.merkleRootCached, c.mutatedCached) = calcMerkleRoot env c.smlCached
  sml : c.hasCached = true → c.deterministicMNListCached.sml = c.smlCached
  ofBlock : c.hasCached = true → c.deterministicMNListCached.blockHash ∈ prevs →
    c.deterministicMNListCached.mnMap.Perm (listOf c.deterministicMNListCached.blockHash).mnMap

lemma Inv.init : Inv env prevs listOf {} where
  root := env.computeMerkleRoot_nil.symm
  sml := fun h => Bool.noConfusion h
  ofBlock := fun h => Bool.noConfusion h

/-- If the cached list belongs to the previous block and nothing has changed, it is the list of the
call. -/
lemma Inv.sml_of_unchanged (hinv : Inv env prevs listOf c) (call : MNRootCall prevs listOf)
    (hchanged : call.changed = false) (hcached : c.hasCached = true)
    (hprev : call.pindexPrev = some c.deterministicMNListCached.blockHash) :
    call.list.sml = c.smlCached := by
  have hflag := (call.flag _ hprev).resolve_left (by simp [hchanged])
  have hperm := CDeterministicMNList.entries_perm_of_unchanged (hflag.symm.trans hchanged)
  rw [← hinv.sml hcached]
  have hcache := hinv.ofBlock hcached (call.prev_mem _ hprev)
  exact (CDeterministicMNList.sml_congr ((hcache.map _).trans hperm)).symm

/-- A call returns the root of its list and keeps the invariant of the cache. -/
lemma Inv.calc (hinv : Inv env prevs listOf c) (call : MNRootCall prevs listOf) :
    (calcCbTxMerkleRootMNList env call.list call.pindexPrev call.changed c).1 =
        ((calcMerkleRoot env call.list.sml).1, !(calcMerkleRoot env call.list.sml).2) ∧
      Inv env prevs listOf
        (calcCbTxMerkleRootMNList env call.list call.pindexPrev call.changed c).2 := by
  have hroot : call.list.sml = c.smlCached → (c.merkleRootCached, !c.mutatedCached) =
      ((calcMerkleRoot env call.list.sml).1, !(calcMerkleRoot env call.list.sml).2) := by
    intro hsml
    rw [hsml, ← hinv.root]
  unfold calcCbTxMerkleRootMNList
  split_ifs with hblock hmap hsml
  · simp only [Bool.and_eq_true, Bool.not_eq_true', beq_iff_eq] at hblock
    obtain ⟨⟨hchanged, hcached⟩, hprev⟩ := hblock
    have hsml := hinv.sml_of_unchanged call hchanged hcached hprev
    exact ⟨hroot hsml, hinv.root, fun _ => hsml, fun _ => call.ofBlock⟩
  · obtain ⟨hcached, hsame⟩ := Bool.and_eq_true_iff.mp hmap
    have hsml : call.list.sml = c.deterministicMNListCached.sml := by
      rw [CDeterministicMNList.sml, CDeterministicMNList.entries, env.mnMap_eq hsame]
      rfl
    exact ⟨hroot (hsml.trans (hinv.sml hcached)), hinv⟩
  · exact ⟨hroot hsml, hinv.root, fun _ => hsml, fun _ => call.ofBlock⟩
  · exact ⟨rfl, rfl, fun _ => rfl, fun _ => call.ofBlock⟩

end MNRootCache

variable {prevs : Set Uint256} {listOf : Uint256 → CDeterministicMNList}

def runMNRootCalls (env : MerkleEnv) (calls : List (MNRootCall prevs listOf)) : MNRootCache :=
  calls.foldl (fun c call =>
    (calcCbTxMerkleRootMNList env call.list call.pindexPrev call.changed c).2) {}

lemma inv_runMNRootCalls (env : MerkleEnv) (calls : List (MNRootCall prevs listOf)) :
    MNRootCache.Inv env prevs listOf (runMNRootCalls env calls) :=
  foldlRecOn calls _ MNRootCache.Inv.init fun _ hinv call _ => (hinv.calc call).2

/-- After any calls the cached function answers as `CSimplifiedMNList(list).CalcMerkleRoot` does,
and lists whose difference has no relevant change have the same simplified list. -/
theorem cached_mn_merkle_root_eq (env : MerkleEnv) (prevs : Set Uint256)
    (listOf : Uint256 → CDeterministicMNList) (calls : List (MNRootCall prevs listOf))
    (call : MNRootCall prevs listOf) :
    (calcCbTxMerkleRootMNList env call.list call.pindexPrev call.changed
        (runMNRootCalls env calls)).1 =
      ((calcMerkleRoot env call.list.sml).1, !(calcMerkleRoot env call.list.sml).2) ∧
    ∀ A B : CDeterministicMNList, (A.buildDiff B).hasCbTxMerkleRootChanges = false →
      A.entries.Perm B.entries ∧ A.sml = B.sml := by
  refine ⟨((inv_runMNRootCalls env calls).calc call).1, fun A B hsame => ?_⟩
  have hperm := CDeterministicMNList.entries_perm_of_unchanged hsame
  exact ⟨hperm, CDeterministicMNList.sml_congr hperm⟩

end Firo.Evo
