import Mathlib

/-! The cache of `unordered_lru_cache.h`. Each entry carries the value that the counter had at its
last access, and an insertion into a cache with more entries than `truncateThreshold` sorts the
entries by these stamps and erases all but the first `maxSize`. The insertion comes after the
truncation, so one entry more than the threshold can be there. -/
namespace Firo

open List hiding not_le

/-- `std::unordered_map` as a list with no key twice; the order of the list means nothing. -/
abbrev MapType (Key Value : Type) : Type := AList fun _ : Key => Value × ℕ

structure UnorderedLruCache (Key Value : Type) where
  cacheMap : MapType Key Value := ∅
  maxSize : ℕ
  truncateThreshold : ℕ
  /-- `int64_t`; it counts the accesses, and a cache sees fewer than `2 ^ 63` of them. -/
  accessCounter : ℕ := 0

inductive CacheCall (Key Value : Type) where
  | insert (key : Key) (v : Value)
  | emplace (key : Key) (v : Value)
  | get (key : Key)
  | existsKey (key : Key)
  | erase (key : Key)
  | clear

namespace UnorderedLruCache

variable {Key Value : Type}

/-- The constructor; that it asserts `maxSize` not to be zero makes no difference below. -/
def create (maxSize truncateThreshold : ℕ) : UnorderedLruCache Key Value where
  maxSize := maxSize
  truncateThreshold :=
    if truncateThreshold = 0 then maxSize * 2 % 2 ^ 64 else truncateThreshold

section

variable (c : UnorderedLruCache Key Value)

def size : ℕ := c.cacheMap.entries.length

lemma length_keys : c.cacheMap.keys.length = c.size :=
  length_map _

/-- The entries by their last accesses, in descending order. -/
def byAccess : List (Sigma fun _ : Key => Value × ℕ) :=
  c.cacheMap.entries.mergeSort fun e e' => decide (e'.2.2 ≤ e.2.2)

lemma byAccess_perm : c.byAccess.Perm c.cacheMap.entries :=
  mergeSort_perm _ _

lemma mem_take_byAccess (n : ℕ) (e) :
    e ∈ c.byAccess.take n ↔ e ∈ c.cacheMap.entries ∧ e.1 ∉ (c.byAccess.drop n).keys := by
  have hnodup : c.byAccess.keys.Nodup :=
    (c.byAccess_perm.map Sigma.fst).nodup_iff.mpr c.cacheMap.keys_nodup
  rw [← take_append_drop n c.byAccess, List.keys, map_append, nodup_append'] at hnodup
  rw [← c.byAccess_perm.mem_iff]
  constructor
  · intro h
    exact ⟨mem_of_mem_take h, hnodup.2.2 (mem_map_of_mem h)⟩
  · rintro ⟨h, hdrop⟩
    rw [← take_append_drop n c.byAccess, mem_append] at h
    rcases h with h | h
    · exact h
    · exact absurd (mem_map_of_mem h) hdrop

variable [DecidableEq Key]

def eraseAll (m : MapType Key Value) (l : List (Sigma fun _ : Key => Value × ℕ)) :
    MapType Key Value :=
  l.foldl (fun m e => m.erase e.1) m

def truncateIfNeeded : UnorderedLruCache Key Value :=
  if c.size ≤ c.truncateThreshold then c
  else { c with cacheMap := eraseAll c.cacheMap (c.byAccess.drop c.maxSize) }

/-- Writes an entry with the next stamp. -/
def stamp (key : Key) (v : Value) : UnorderedLruCache Key Value :=
  { c with
    cacheMap := c.cacheMap.insert key (v, c.accessCounter)
    accessCounter := c.accessCounter + 1 }

/-- `_emplace`, which is all that `emplace` and `insert` do. -/
def emplace (key : Key) (v : Value) : UnorderedLruCache Key Value :=
  c.truncateIfNeeded.stamp key v

def get (key : Key) : Option Value × UnorderedLruCache Key Value :=
  match c.cacheMap.lookup key with
  | some e => (some e.1, c.stamp key e.1)
  | none => (none, c)

/-- `exists`, which finds and stamps an entry as `get` does. -/
def existsKey (key : Key) : Bool × UnorderedLruCache Key Value :=
  ((c.get key).1.isSome, (c.get key).2)

def step : CacheCall Key Value → UnorderedLruCache Key Value
  | .insert key v | .emplace key v => c.emplace key v
  | .get key => (c.get key).2
  | .existsKey key => (c.existsKey key).2
  | .erase key => { c with cacheMap := c.cacheMap.erase key }
  | .clear => { c with cacheMap := ∅ }

def run (calls : List (CacheCall Key Value)) : UnorderedLruCache Key Value :=
  calls.foldl (·.step ·) c

/-- The key that a call accesses: a lookup that misses accesses nothing. -/
def accessed : CacheCall Key Value → Option Key
  | .insert key _ | .emplace key _ => some key
  | .get key | .existsKey key => (c.cacheMap.lookup key).map fun _ => key
  | .erase _ | .clear => none

/-- The keys that the calls access, the most recent first. -/
def accesses (c : UnorderedLruCache Key Value) : List (CacheCall Key Value) → List Key
  | [] => []
  | call :: calls => (c.step call).accesses calls ++ (c.accessed call).toList

end

end UnorderedLruCache

variable {Key Value : Type} [DecidableEq Key]

/-- What a call does to a map that forgets nothing. -/
def CacheCall.write (m : Key → Option Value) : CacheCall Key Value → Key → Option Value
  | .insert key v | .emplace key v => Function.update m key (some v)
  | .get _ | .existsKey _ => m
  | .erase key => Function.update m key none
  | .clear => fun _ => none

/-- The value last inserted for a key since its last erase. -/
def lastInserted (calls : List (CacheCall Key Value)) : Key → Option Value :=
  calls.foldl CacheCall.write fun _ => none

namespace UnorderedLruCache

variable {c : UnorderedLruCache Key Value} {log : List Key} {m : Key → Option Value} {key : Key}
  {v : Value} {e : Value × ℕ}

lemma lookup_eraseAll (m : MapType Key Value) (l : List (Sigma fun _ : Key => Value × ℕ))
    (key : Key) : (eraseAll m l).lookup key = if key ∈ l.keys then none else m.lookup key := by
  induction l generalizing m with
  | nil => simp [eraseAll]
  | cons e l ih =>
    change (eraseAll (m.erase e.1) l).lookup key = _
    rw [ih, keys_cons]
    by_cases hkey : key = e.1
    · subst hkey
      simp
    · simp [hkey, AList.lookup_erase_ne hkey]

/-- What a truncation leaves are the first entries in the order of the accesses. -/
lemma entries_truncateIfNeeded (h : c.truncateThreshold < c.size) :
    c.truncateIfNeeded.cacheMap.entries.Perm (c.byAccess.take c.maxSize) := by
  have hnodup : (c.byAccess.take c.maxSize).Nodup :=
    (c.byAccess_perm.nodup_iff.mpr c.cacheMap.nodupKeys.nodup).sublist (take_sublist _ _)
  rw [truncateIfNeeded, if_neg (by omega), perm_ext_iff_of_nodup (AList.nodupKeys _).nodup hnodup]
  rintro ⟨key, e⟩
  rw [mem_take_byAccess, ← AList.mem_lookup_iff, ← AList.mem_lookup_iff, lookup_eraseAll]
  split
  case isTrue hdrop => simp [hdrop]
  case isFalse hdrop => simp [hdrop]

lemma lookup_truncateIfNeeded (h : c.truncateIfNeeded.cacheMap.lookup key = some e) :
    c.cacheMap.lookup key = some e := by
  by_cases hle : c.size ≤ c.truncateThreshold
  · rwa [truncateIfNeeded, if_pos hle] at h
  · have hmem := (entries_truncateIfNeeded (by omega)).mem_iff.mp (AList.mem_lookup_iff.mp h)
    exact AList.mem_lookup_iff.mpr ((c.mem_take_byAccess _ _).mp hmem).1

lemma size_truncateIfNeeded (h : c.truncateThreshold < c.size) :
    c.truncateIfNeeded.size = min c.maxSize c.size := by
  have hlength := (entries_truncateIfNeeded h).length_eq
  rwa [length_take, c.byAccess_perm.length_eq] at hlength

/-- The entries that a truncation keeps have no earlier stamps than those it erases. -/
lemma stamp_le_of_truncated (hlt : c.truncateThreshold < c.size) {key' : Key} {e' : Value × ℕ}
    (h : c.truncateIfNeeded.cacheMap.lookup key = some e) (h' : c.cacheMap.lookup key' = some e')
    (hgone : key' ∉ c.truncateIfNeeded.cacheMap) : e'.2 ≤ e.2 := by
  have hperm := entries_truncateIfNeeded hlt
  have hsorted : c.byAccess.Pairwise fun e e' => e'.2.2 ≤ e.2.2 := by
    refine (pairwise_mergeSort ?_ ?_ _).imp of_decide_eq_true
    · simp only [decide_eq_true_eq]
      omega
    · simp only [Bool.or_eq_true, decide_eq_true_eq]
      omega
  have hmem : ⟨key', e'⟩ ∈ c.byAccess := c.byAccess_perm.mem_iff.mpr (AList.mem_lookup_iff.mp h')
  rw [← take_append_drop c.maxSize c.byAccess] at hsorted hmem
  rcases mem_append.mp hmem with hmem | hmem
  · exact absurd (mem_keys_of_mem (hperm.mem_iff.mpr hmem)) hgone
  · have hkept := hperm.mem_iff.mp (AList.mem_lookup_iff.mp h)
    exact (pairwise_append.mp hsorted).2.2 _ hkept _ hmem

/-- A cache against the keys accessed so far and the map that forgets nothing: the stamp of an entry
is the time of the last access to its key. -/
structure Tracks (c : UnorderedLruCache Key Value) (log : List Key) (m : Key → Option Value) :
    Prop where
  counter : c.accessCounter = log.length
  entry : ∀ key e, c.cacheMap.lookup key = some e →
    m key = some e.1 ∧ e.2 + log.idxOf key + 1 = log.length
  size_le : c.size ≤ max c.maxSize c.truncateThreshold + 1

lemma Tracks.truncateIfNeeded (h : Tracks c log m) : Tracks c.truncateIfNeeded log m ∧
    c.truncateIfNeeded.size ≤ max c.truncateIfNeeded.maxSize
      c.truncateIfNeeded.truncateThreshold := by
  have hentry : ∀ key e, c.truncateIfNeeded.cacheMap.lookup key = some e → _ :=
    fun key e he => h.entry key e (lookup_truncateIfNeeded he)
  by_cases hle : c.size ≤ c.truncateThreshold
  · rw [UnorderedLruCache.truncateIfNeeded, if_pos hle]
    exact ⟨h, le_max_of_le_right hle⟩
  · have hmin := size_truncateIfNeeded (not_le.mp hle)
    rw [UnorderedLruCache.truncateIfNeeded, if_neg hle] at hentry hmin ⊢
    have hsize := hmin.trans_le ((min_le_left _ _).trans (le_max_left _ c.truncateThreshold))
    exact ⟨⟨h.counter, hentry, hsize.trans (Nat.le_succ _)⟩, hsize⟩

lemma Tracks.stamp (h : Tracks c log m)
    (hsize : (c.stamp key v).size ≤ max c.maxSize c.truncateThreshold + 1) :
    Tracks (c.stamp key v) (key :: log) (Function.update m key (some v)) := by
  refine ⟨congrArg (· + 1) h.counter, fun key' e he => ?_, hsize⟩
  change (c.cacheMap.insert key (v, c.accessCounter)).lookup key' = some e at he
  by_cases hkey : key' = key
  · subst hkey
    rw [AList.lookup_insert, Option.some.injEq] at he
    subst he
    simp [h.counter]
  · rw [AList.lookup_insert_ne hkey] at he
    obtain ⟨hm, hstamp⟩ := h.entry key' e he
    rw [Function.update_of_ne hkey, idxOf_cons_ne _ (Ne.symm hkey), length_cons]
    exact ⟨hm, by omega⟩

lemma size_stamp (c : UnorderedLruCache Key Value) (key : Key) (v : Value) :
    (c.stamp key v).size = (c.cacheMap.keys.erase key).length + 1 := by
  rw [← length_keys]
  exact congrArg List.length (AList.keys_insert c.cacheMap)

/-- An access that finds its key writes the value that is there. -/
lemma Tracks.hit (h : Tracks c log m) (he : c.cacheMap.lookup key = some e) :
    Tracks (c.stamp key e.1) (key :: log) m := by
  have hmem : key ∈ c.cacheMap := AList.lookup_isSome.mp (he ▸ rfl)
  have hsize : (c.stamp key e.1).size = c.size := by
    rw [size_stamp, length_erase_of_mem hmem, length_keys,
      Nat.sub_add_cancel (c.length_keys ▸ length_pos_of_mem hmem)]
  have hstamp := h.stamp (hsize.trans_le h.size_le)
  rwa [← (h.entry key e he).1, Function.update_eq_self] at hstamp

/-- One call keeps the relation between the cache, the log of accesses and the writes. -/
lemma Tracks.step (h : Tracks c log m) (call) :
    Tracks (c.step call) ((c.accessed call).toList ++ log) (call.write m) := by
  have hemplace : ∀ key v, Tracks (c.emplace key v) (key :: log)
      (Function.update m key (some v)) := by
    intro key v
    obtain ⟨htruncated, hsize⟩ := h.truncateIfNeeded
    refine htruncated.stamp ?_
    rw [size_stamp, Nat.add_le_add_iff_right]
    exact (length_erase_le.trans (length_keys _).le).trans hsize
  have hget : ∀ key, Tracks (c.get key).2
      (((c.cacheMap.lookup key).map fun _ => key).toList ++ log) m := by
    intro key
    unfold UnorderedLruCache.get
    cases hlookup : c.cacheMap.lookup key with
    | none => exact h
    | some e => exact h.hit hlookup
  cases call with
  | insert key v => exact hemplace key v
  | emplace key v => exact hemplace key v
  | get key => exact hget key
  | existsKey key => exact hget key
  | erase key =>
    have hsize : (c.step (.erase key)).size ≤ c.size := by
      rw [← length_keys, ← length_keys]
      exact (AList.keys_erase key c.cacheMap ▸ length_erase_le)
    refine ⟨h.counter, fun key' e he => ?_, hsize.trans h.size_le⟩
    change (c.cacheMap.erase key).lookup key' = some e at he
    by_cases hkey : key' = key
    · rw [hkey, AList.lookup_erase] at he
      cases he
    · rw [AList.lookup_erase_ne hkey] at he
      obtain ⟨hm, hstamp⟩ := h.entry key' e he
      exact ⟨(Function.update_of_ne hkey _ _).trans hm, hstamp⟩
  | clear => exact ⟨h.counter, nofun, Nat.zero_le _⟩

/-- A sequence of calls keeps it too. -/
lemma Tracks.run (h : Tracks c log m) (calls) :
    Tracks (c.run calls) (c.accesses calls ++ log) (calls.foldl CacheCall.write m) := by
  induction calls generalizing c log m with
  | nil => exact h
  | cons call calls ih =>
    rw [accesses, append_assoc]
    exact ih (h.step call)

/-- A truncation keeps the entries whose keys were accessed last. -/
lemma Tracks.idxOf_lt (h : Tracks c log m) (hlt : c.truncateThreshold < c.size) {key' : Key}
    (hkept : c.truncateIfNeeded.cacheMap.lookup key = some e) (hkey' : key' ∈ c.cacheMap)
    (hgone : key' ∉ c.truncateIfNeeded.cacheMap) : log.idxOf key < log.idxOf key' := by
  obtain ⟨e', he'⟩ := Option.isSome_iff_exists.mp (AList.lookup_isSome.mpr hkey')
  have hle := stamp_le_of_truncated hlt hkept he' hgone
  have hstamp := (h.entry key e (lookup_truncateIfNeeded hkept)).2
  have hstamp' := (h.entry key' e' he').2
  have hmem : key ∈ log := idxOf_lt_length_iff.mp (by omega)
  have hne : log.idxOf key ≠ log.idxOf key' := by
    rw [Ne, idxOf_inj hmem]
    rintro rfl
    exact hgone (AList.lookup_isSome.mp (hkept ▸ rfl))
  omega

/-- After all calls on a cache as it is created: a hit returns the value last inserted since the
last erase; there is at most one entry more than the larger of the two bounds; and a truncation
keeps the `maxSize` entries whose keys come first among the accesses. -/
theorem lru_cache_is_lossy_map (maxSize truncateThreshold : ℕ)
    (calls : List (CacheCall Key Value)) :
    let c₀ : UnorderedLruCache Key Value := create maxSize truncateThreshold
    let c := c₀.run calls
    (∀ key v, (c.get key).1 = some v → lastInserted calls key = some v) ∧
    (∀ key, (c.existsKey key).1 = true → (lastInserted calls key).isSome) ∧
    c.size ≤ max c.maxSize c.truncateThreshold + 1 ∧
    (c.truncateThreshold < c.size → c.truncateIfNeeded.size = min c.maxSize c.size ∧
      ∀ key e, c.truncateIfNeeded.cacheMap.lookup key = some e → c.cacheMap.lookup key = some e ∧
        ∀ key' ∈ c.cacheMap, key' ∉ c.truncateIfNeeded.cacheMap →
          (c₀.accesses calls).idxOf key < (c₀.accesses calls).idxOf key') := by
  intro c₀ c
  have h : Tracks c (c₀.accesses calls ++ []) (lastInserted calls) :=
    Tracks.run ⟨rfl, nofun, Nat.zero_le _⟩ calls
  rw [append_nil] at h
  have hhit : ∀ key v, (c.get key).1 = some v → lastInserted calls key = some v := by
    intro key v hget
    unfold get at hget
    cases he : c.cacheMap.lookup key with
    | none => simp [he] at hget
    | some e =>
      rw [he] at hget
      exact (h.entry key e he).1.trans hget
  refine ⟨hhit, fun key hexists => ?_, h.size_le, fun hlt => ⟨size_truncateIfNeeded hlt, ?_⟩⟩
  · obtain ⟨v, hv⟩ := Option.isSome_iff_exists.mp hexists
    rw [hhit key v hv, Option.isSome_some]
  · intro key e he
    exact ⟨lookup_truncateIfNeeded he, fun _ hkey' hgone => h.idxOf_lt hlt he hkey' hgone⟩

/-- The third key finds two entries, which are not too many, and makes three. -/
theorem lru_cache_exceeds_threshold :
    let c : UnorderedLruCache ℕ ℕ := (create 1 0).run [.insert 0 0, .insert 1 1, .insert 2 2]
    c.truncateThreshold < c.size := by
  decide

/-- Of the keys in a map that forgets nothing, those after whose last access fewer than `n` other
keys were accessed are in the cache. -/
structure Retains (n : ℕ) (c : UnorderedLruCache Key Value) (log : List Key)
    (m : Key → Option Value) : Prop where
  maxSize : c.maxSize = n
  mem : ∀ key, (m key).isSome → (log.take (log.idxOf key)).toFinset.card < n → key ∈ c.cacheMap

namespace Retains

variable {n : ℕ}

/-- The keys that are kept in the place of one that is erased were all accessed after it. -/
lemma truncateIfNeeded (h : Retains n c log m) (htracks : Tracks c log m) :
    Retains n c.truncateIfNeeded log m := by
  by_cases hle : c.size ≤ c.truncateThreshold
  · rwa [UnorderedLruCache.truncateIfNeeded, if_pos hle]
  have hlt := not_le.mp hle
  have hperm := entries_truncateIfNeeded hlt
  have hmin := size_truncateIfNeeded hlt
  refine ⟨by rw [UnorderedLruCache.truncateIfNeeded, if_neg hle, h.maxSize], fun key hm hcard => ?_⟩
  have hkey := h.mem key hm hcard
  by_contra hgone
  have hrecent : c.truncateIfNeeded.cacheMap.keys.toFinset ⊆
      (log.take (log.idxOf key)).toFinset := by
    intro kept hkept
    rw [mem_toFinset] at hkept ⊢
    obtain ⟨e, he⟩ := Option.isSome_iff_exists.mp (AList.lookup_isSome.mpr hkept)
    have hidx := htracks.idxOf_lt hlt he hkey hgone
    have hmem := idxOf_lt_length_iff.mp (hidx.trans_le idxOf_le_length)
    exact (mem_take_iff_idxOf_lt hmem).mpr hidx
  have hsize := Finset.card_le_card hrecent
  rw [toFinset_card_of_nodup (AList.keys_nodup _), length_keys, hmin, h.maxSize] at hsize
  -- so there are no more entries than are kept
  have hfit : c.byAccess.length ≤ c.maxSize := by
    rw [c.byAccess_perm.length_eq, h.maxSize]
    change c.size ≤ n
    omega
  rw [take_of_length_le hfit] at hperm
  exact hgone (((hperm.trans c.byAccess_perm).map Sigma.fst).mem_iff.mpr hkey)

lemma stamp (h : Retains n c log m) (key) (v) :
    Retains n (c.stamp key v) (key :: log) (Function.update m key (some v)) := by
  refine ⟨h.maxSize, fun key' hm hcard => ?_⟩
  rw [UnorderedLruCache.stamp, AList.mem_insert]
  by_cases hkey : key' = key
  · exact .inl hkey
  · rw [Function.update_of_ne hkey] at hm
    rw [idxOf_cons_ne _ (Ne.symm hkey), take_succ_cons, toFinset_cons] at hcard
    exact .inr (h.mem key' hm ((Finset.card_le_card (Finset.subset_insert _ _)).trans_lt hcard))

lemma step (h : Retains n c log m) (htracks : Tracks c log m) (call) :
    Retains n (c.step call) ((c.accessed call).toList ++ log) (call.write m) := by
  have hget : ∀ key, Retains n (c.get key).2
      (((c.cacheMap.lookup key).map fun _ => key).toList ++ log) m := by
    intro key
    unfold UnorderedLruCache.get
    cases hlookup : c.cacheMap.lookup key with
    | none => exact h
    | some e =>
      have hstamp := h.stamp key e.1
      rwa [← (htracks.entry key e hlookup).1, Function.update_eq_self] at hstamp
  cases call with
  | insert key v | emplace key v => exact (h.truncateIfNeeded htracks).stamp key v
  | get key | existsKey key => exact hget key
  | erase key =>
    refine ⟨h.maxSize, fun key' hm hcard => AList.mem_erase.mpr ?_⟩
    change (Function.update m key none key').isSome at hm
    by_cases hkey : key' = key
    · simp [hkey] at hm
    · rw [Function.update_of_ne hkey] at hm
      exact ⟨hkey, h.mem key' hm hcard⟩
  | clear => exact ⟨h.maxSize, nofun⟩

lemma run (h : Retains n c log m) (htracks : Tracks c log m) (calls) :
    Retains n (c.run calls) (c.accesses calls ++ log) (calls.foldl CacheCall.write m) := by
  induction calls generalizing c log m with
  | nil => exact h
  | cons call calls ih =>
    rw [accesses, append_assoc]
    exact ih (h.step htracks call) (htracks.step call)

end Retains

/-- After all calls on a cache as it is created, a key that was inserted and not erased since is
found with its last value while fewer than `maxSize` other keys were accessed after it. -/
theorem lru_cache_retains_recent (maxSize truncateThreshold : ℕ)
    (calls : List (CacheCall Key Value)) (key : Key) (v : Value)
    (hlast : lastInserted calls key = some v)
    (hrecent : let log := (create maxSize truncateThreshold).accesses calls
      (log.take (log.idxOf key)).toFinset.card < maxSize) :
    (((create maxSize truncateThreshold).run calls).get key).1 = some v := by
  let c : UnorderedLruCache Key Value := create maxSize truncateThreshold
  have htracks : Tracks c [] fun _ => none := ⟨rfl, nofun, Nat.zero_le _⟩
  have hretains := Retains.run ⟨rfl, nofun⟩ htracks calls
  rw [append_nil] at hretains
  have hmem := hretains.mem key (Option.isSome_of_mem hlast) hrecent
  obtain ⟨e, he⟩ := Option.isSome_iff_exists.mp (AList.lookup_isSome.mpr hmem)
  unfold get
  rw [he]
  exact ((htracks.run calls).entry key e he).1.symm.trans hlast

/-- The last insertion truncates three entries to two; the lookup has made the first key recent. -/
theorem lru_cache_retains_recent_touched : (((create 2 2 : UnorderedLruCache ℕ ℕ).run
    [.insert 0 7, .insert 1 1, .insert 2 2, .get 0, .insert 3 3]).get 0).1 = some 7 :=
  lru_cache_retains_recent 2 2 _ 0 7 rfl (by decide)

end UnorderedLruCache

end Firo
