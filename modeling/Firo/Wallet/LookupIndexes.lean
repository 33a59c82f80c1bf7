import Firo.Wallet.MintLookup

/-! Every call on the wallet's mints is a sequence of replacements of single mints. Index entries
always point to stored mints with their key. A mint is lost to an index exactly when a replacement
drops an entry that the replaced mint owns and that another mint with the same key needs. -/
namespace Firo.Wallet

open Firo.Lib Firo.Spark List Option SecondaryIndex

variable {Coin K Hash : Type} [Ord Hash] [Std.TransOrd Hash] [Std.LawfulEqOrd Hash]
  [DecidableEq Hash] {hashes : MintHashes Coin K Hash}

def coinKey (hashes : MintHashes Coin K Hash) (mint : CSparkMintMeta Coin K) : Option Hash :=
  if hashes.isNull mint.coin then none else some (hashes.getSparkCoinHash mint.coin)

def nonceKey (hashes : MintHashes Coin K Hash) (mint : CSparkMintMeta Coin K) : Option Hash :=
  some (hashes.getNonceHash mint.k)

namespace CSparkWallet

variable {w w' : CSparkWallet Coin K Hash} {h : Hash} {new : Option (CSparkMintMeta Coin K)}

def records (w : CSparkWallet Coin K Hash) (h : Hash) : Option (CSparkMintMeta Coin K) :=
  w.coinMeta[h]?

def coinIndex (w : CSparkWallet Coin K Hash) (key : Hash) : Option Hash := w.coinLookup[key]?

def nonceIndex (w : CSparkWallet Coin K Hash) (key : Hash) : Option Hash := w.nonceLookup[key]?

/-- The mint at `h` is replaced, or erased, with its entries in both indexes. -/
structure Replaced (hashes : MintHashes Coin K Hash) (w w' : CSparkWallet Coin K Hash) (h : Hash)
    (new : Option (CSparkMintMeta Coin K)) : Prop where
  records_eq : w'.records = Function.update w.records h new
  coin_eq : w'.coinIndex = SecondaryIndex.replace (coinKey hashes) w.records w.coinIndex h new
  nonce_eq : w'.nonceIndex = SecondaryIndex.replace (nonceKey hashes) w.records w.nonceIndex h new

lemma getElem?_dropOwned (index) (key owner a : Hash) : (dropOwned index key owner)[a]? =
      if key = a ∧ index[a]? = some owner then none else index[a]? := by
  unfold dropOwned
  split
  · rename_i howned
    rw [getElem?_erase_eq]
    by_cases hkey : key = a
    · subst hkey
      simp [howned]
    · simp [hkey]
  · rename_i hother
    by_cases hkey : key = a
    · subst hkey
      simp [hother]
    · simp [hkey]

variable (mint : CSparkMintMeta Coin K)

lemma coinIndex_removeFromLookups : (w.removeFromLookups hashes h mint).coinIndex =
      SecondaryIndex.drop (coinKey hashes) w.coinIndex h (some mint) := by
  funext key
  simp only [coinIndex, removeFromLookups, SecondaryIndex.drop, bind_some, coinKey]
  by_cases hnull : hashes.isNull mint.coin = true <;> simp [hnull, getElem?_dropOwned]

lemma nonceIndex_removeFromLookups : (w.removeFromLookups hashes h mint).nonceIndex =
      SecondaryIndex.drop (nonceKey hashes) w.nonceIndex h (some mint) := by
  funext key
  simp [nonceIndex, removeFromLookups, SecondaryIndex.drop, nonceKey, getElem?_dropOwned]

lemma coinIndex_addToLookups : (w.addToLookups hashes h mint).coinIndex =
      add (coinKey hashes) w.coinIndex h (some mint) := by
  funext key
  simp only [coinIndex, addToLookups, add, bind_some, coinKey]
  by_cases hnull : hashes.isNull mint.coin = true <;> simp [hnull, getElem?_insert_eq]

lemma nonceIndex_addToLookups : (w.addToLookups hashes h mint).nonceIndex =
      add (nonceKey hashes) w.nonceIndex h (some mint) := by
  funext key
  simp [nonceIndex, addToLookups, add, nonceKey, getElem?_insert_eq]

omit [Std.LawfulEqOrd Hash] in
lemma coinMeta_storeMint : (w.storeMint hashes mint h).coinMeta = w.coinMeta.insert h mint := by
  unfold storeMint
  split <;> rfl

lemma replaced_storeMint (w) (mint)
    (h : Hash) : Replaced hashes w (w.storeMint hashes mint h) h (some mint) := by
  have hrecords : (w.storeMint hashes mint h).records =
      Function.update w.records h (some mint) := by
    funext a
    simp only [records, coinMeta_storeMint, getElem?_insert_eq, Function.update_apply, eq_comm]
  refine ⟨hrecords, ?_, ?_⟩
  · unfold storeMint SecondaryIndex.replace
    rw [coinIndex_addToLookups]
    congr 1
    cases hold : w.coinMeta[h]? with
    | none =>
      rw [records, hold, drop_none]
      rfl
    | some old =>
      rw [records, hold, ← coinIndex_removeFromLookups]
      rfl
  · unfold storeMint SecondaryIndex.replace
    rw [nonceIndex_addToLookups]
    congr 1
    cases hold : w.coinMeta[h]? with
    | none =>
      rw [records, hold, drop_none]
      rfl
    | some old =>
      rw [records, hold, ← nonceIndex_removeFromLookups]
      rfl

lemma replaced_eraseMint (w) (h : Hash) : Replaced hashes w (w.eraseMint hashes h) h none := by
  unfold eraseMint
  cases hold : w.coinMeta[h]? with
  | none =>
    have hsame : Function.update w.records h none = w.records := by
      rw [← show w.records h = none from hold, Function.update_eq_self]
    refine ⟨hsame.symm, ?_, ?_⟩
    · simp [SecondaryIndex.replace, records, hold]
    · simp [SecondaryIndex.replace, records, hold]
  | some old =>
    refine ⟨?_, ?_, ?_⟩
    · funext a
      change (w.coinMeta.erase h)[a]? = _
      simp only [getElem?_erase_eq, Function.update_apply, records, eq_comm]
    · rw [SecondaryIndex.replace, add_none, records, hold, ← coinIndex_removeFromLookups]
      rfl
    · rw [SecondaryIndex.replace, add_none, records, hold, ← nonceIndex_removeFromLookups]
      rfl

structure Sound (hashes : MintHashes Coin K Hash) (w : CSparkWallet Coin K Hash) : Prop where
  coin : SecondaryIndex.Sound (coinKey hashes) w.records w.coinIndex
  nonce : SecondaryIndex.Sound (nonceKey hashes) w.records w.nonceIndex

/-- Replacing the mint at `h` takes an index entry from another stored mint. -/
def Orphans (hashes : MintHashes Coin K Hash) (w : CSparkWallet Coin K Hash) (h : Hash)
    (new : Option (CSparkMintMeta Coin K)) : Prop :=
  SecondaryIndex.Orphans (coinKey hashes) w.records w.coinIndex h new ∨
    SecondaryIndex.Orphans (nonceKey hashes) w.records w.nonceIndex h new

omit [Std.LawfulEqOrd Hash] in
lemma Sound.replaced (hsound : Sound hashes w) (hreplaced : Replaced hashes w w' h new) :
    Sound hashes w' := by
  obtain ⟨hrecords, hcoin, hnonce⟩ := hreplaced
  constructor
  · rw [hrecords, hcoin]
    exact hsound.coin.replace
  · rw [hrecords, hnonce]
    exact hsound.nonce.replace

lemma validateLookupIndexes_iff (hsound : Sound hashes w) :
    w.validateLookupIndexes hashes = true ↔ Complete (coinKey hashes) w.records w.coinIndex ∧
        SecondaryIndex.Complete (nonceKey hashes) w.records w.nonceIndex := by
  have hcoinEntries : ∀ entry ∈ w.coinLookup.toList, ((w.coinMeta[entry.2]?).any fun mint =>
      decide (hashes.getSparkCoinHash mint.coin = entry.1)) = true := by
    intro entry hentry
    have hkey := hsound.coin entry.1 entry.2
      (Std.ExtTreeMap.mem_toList_iff_getElem?_eq_some.mp hentry)
    obtain ⟨mint, hmint, hkey⟩ := bind_eq_some_iff.mp hkey
    rw [coinKey] at hkey
    split at hkey
    · cases hkey
    · change w.coinMeta[entry.2]? = some mint at hmint
      simpa [hmint] using hkey
  have hnonceEntries : ∀ entry ∈ w.nonceLookup.toList, ((w.coinMeta[entry.2]?).any fun mint =>
      decide (hashes.getNonceHash mint.k = entry.1)) = true := by
    intro entry hentry
    have hkey := hsound.nonce entry.1 entry.2
      (Std.ExtTreeMap.mem_toList_iff_getElem?_eq_some.mp hentry)
    obtain ⟨mint, hmint, hkey⟩ := bind_eq_some_iff.mp hkey
    change w.coinMeta[entry.2]? = some mint at hmint
    simpa [hmint] using Option.some.inj hkey
  rw [validateLookupIndexes, all_eq_true.mpr hcoinEntries,
    List.all_eq_true.mpr hnonceEntries, Bool.true_and, Bool.true_and, List.all_eq_true]
  simp only [Prod.forall, Std.ExtTreeMap.mem_toList_iff_getElem?_eq_some, Bool.and_eq_true,
    Bool.or_eq_true, Std.ExtTreeMap.contains_eq_isSome_getElem?]
  constructor
  · intro hall
    constructor
    · intro h i hkey
      obtain ⟨mint, hmint, hkey⟩ := bind_eq_some_iff.mp hkey
      rw [coinKey] at hkey
      split at hkey
      · cases hkey
      · rename_i hnull
        cases hkey
        exact (hall h mint hmint).1.resolve_left hnull
    · intro h i hkey
      obtain ⟨mint, hmint, hkey⟩ := bind_eq_some_iff.mp hkey
      cases hkey
      exact (hall h mint hmint).2
  · rintro ⟨hcoin, hnonce⟩ h mint hmint
    have hrecord : w.records h = some mint := hmint
    refine ⟨?_, hnonce h _ (by rw [hrecord]; rfl)⟩
    by_cases hnull : hashes.isNull mint.coin = true
    · exact Or.inl hnull
    · refine Or.inr (hcoin h _ ?_)
      rw [hrecord, bind_some, coinKey, if_neg hnull]

lemma validateLookupIndexes_replaced_iff (hsound : Sound hashes w)
    (hvalid : w.validateLookupIndexes hashes = true) (hreplaced : Replaced hashes w w' h new) :
    w'.validateLookupIndexes hashes = true ↔ ¬Orphans hashes w h new := by
  obtain ⟨hcoin, hnonce⟩ := (validateLookupIndexes_iff hsound).mp hvalid
  rw [validateLookupIndexes_iff (hsound.replaced hreplaced), hreplaced.records_eq,
    hreplaced.coin_eq, hreplaced.nonce_eq, complete_replace_iff hsound.coin hcoin,
    complete_replace_iff hsound.nonce hnonce, Orphans, not_or]

end CSparkWallet

inductive MintOp (Coin K Hash : Type)
  | addOrUpdate (mint : CSparkMintMeta Coin K) (lTagHash : Hash)
  | store (mint : CSparkMintMeta Coin K) (lTagHash : Hash)
  | erase (lTagHash : Hash)

namespace MintOp

def lTagHash : MintOp Coin K Hash → Hash
  | addOrUpdate _ h => h
  | store _ h => h
  | erase h => h

def new : MintOp Coin K Hash → Option (CSparkMintMeta Coin K)
  | addOrUpdate mint _ => some mint
  | store mint _ => some mint
  | erase _ => none

def apply (hashes : MintHashes Coin K Hash) (w : CSparkWallet Coin K Hash) :
    MintOp Coin K Hash → CSparkWallet Coin K Hash
  | addOrUpdate mint h => w.addOrUpdateMint hashes mint h
  | store mint h => w.storeMint hashes mint h
  | erase h => w.eraseMint hashes h

lemma replaced_apply (w) (op : MintOp Coin K Hash) :
    CSparkWallet.Replaced hashes w (op.apply hashes w) op.lTagHash op.new := by
  cases op with
  | addOrUpdate mint h =>
    have hstored : CSparkWallet.Replaced hashes w (w.storeMint hashes mint h) h (some mint) :=
      CSparkWallet.replaced_storeMint w mint h
    exact ⟨hstored.records_eq, hstored.coin_eq, hstored.nonce_eq⟩
  | store mint h => exact CSparkWallet.replaced_storeMint w mint h
  | erase h => exact CSparkWallet.replaced_eraseMint w h

end MintOp

inductive WalletCall (Coin K Hash : Type)
  | addOrUpdateMint (mint : CSparkMintMeta Coin K) (lTagHash : Hash)
  | updateMint (mint : CSparkMintMeta Coin K) (order : List Hash)
  | updateMintInMemory (mint : CSparkMintMeta Coin K) (order : List Hash)
  | eraseMint (hash : Hash)
  | removeSparkMints (mints : List Coin)
  | removeSparkSpends (lTagHashes : List Hash)

variable [DecidableEq K] (recover : Coin → Option Hash)

namespace WalletCall

def run (hashes : MintHashes Coin K Hash) (w : CSparkWallet Coin K Hash) :
    WalletCall Coin K Hash → CSparkWallet Coin K Hash
  | addOrUpdateMint mint h => w.addOrUpdateMint hashes mint h
  | updateMint mint order => w.updateMint hashes mint order
  | updateMintInMemory mint order => w.updateMintInMemory hashes mint order
  | eraseMint h => w.eraseMint hashes h
  | removeSparkMints mints => w.removeSparkMints hashes recover mints
  | removeSparkSpends lTagHashes => w.removeSparkSpends hashes lTagHashes

def ops (w : CSparkWallet Coin K Hash) : WalletCall Coin K Hash → List (MintOp Coin K Hash)
  | addOrUpdateMint mint h => [.addOrUpdate mint h]
  | updateMint mint order => (order.filter (w.sameMint mint)).map (.addOrUpdate mint)
  | updateMintInMemory mint order => ((order.find? (w.sameMint mint)).map (.store mint)).toList
  | eraseMint h => [.erase h]
  | removeSparkMints mints => (mints.filterMap recover).map .erase
  | removeSparkSpends lTagHashes => lTagHashes.filterMap fun h =>
      (w.coinMeta[h]?).map fun mintMeta => .addOrUpdate { mintMeta with isUsed := false } h

variable {recover} {w : CSparkWallet Coin K Hash}

omit [DecidableEq K] in
lemma getElem?_addOrUpdateMint (mint) (h a : Hash) :
    (w.addOrUpdateMint hashes mint h).coinMeta[a]? =
      if h = a then some mint else w.coinMeta[a]? := by
  rw [← getElem?_insert_eq, ← CSparkWallet.coinMeta_storeMint]
  rfl

lemma sameMint_addOrUpdateMint {mint} {h : Hash} (hsame : w.sameMint mint h = true) :
    (w.addOrUpdateMint hashes mint h).sameMint mint = w.sameMint mint := by
  funext a
  rw [CSparkWallet.sameMint, getElem?_addOrUpdateMint]
  by_cases heq : h = a
  · subst heq
    simp [hsame]
  · rw [if_neg heq, CSparkWallet.sameMint]

lemma updateMint_eq (mint) (order) : w.updateMint hashes mint order =
      ((order.filter (w.sameMint mint)).map (MintOp.addOrUpdate mint)).foldl
        (MintOp.apply hashes) w := by
  induction order generalizing w with
  | nil => rfl
  | cons h order ih =>
    rw [CSparkWallet.updateMint, foldl_cons]
    by_cases hsame : w.sameMint mint h = true
    · rw [if_pos hsame, filter_cons_of_pos hsame, map_cons, foldl_cons]
      have hrest := ih (w := w.addOrUpdateMint hashes mint h)
      rw [sameMint_addOrUpdateMint hsame] at hrest
      exact hrest
    · rw [if_neg hsame, filter_cons_of_neg hsame]
      exact ih

omit [Std.LawfulEqOrd Hash] in
lemma updateMintInMemory_eq (mint) (order) : w.updateMintInMemory hashes mint order =
      ((order.find? (w.sameMint mint)).map (MintOp.store mint)).toList.foldl
        (MintOp.apply hashes) w := by
  induction order with
  | nil => rfl
  | cons h order ih =>
    rw [CSparkWallet.updateMintInMemory, find?_cons]
    cases hsame : w.sameMint mint h with
    | true => rfl
    | false => exact ih

omit [Std.LawfulEqOrd Hash] [DecidableEq K] in
lemma removeSparkMints_eq (mints : List Coin) : w.removeSparkMints hashes recover mints =
      ((mints.filterMap recover).map MintOp.erase).foldl (MintOp.apply hashes) w := by
  induction mints generalizing w with
  | nil => rfl
  | cons coin mints ih =>
    rw [CSparkWallet.removeSparkMints, foldl_cons, filterMap_cons]
    cases recover coin with
    | none => exact ih
    | some h => exact ih

omit [DecidableEq K] in
lemma removeSparkSpends_eq (lTagHashes) : w.removeSparkSpends hashes lTagHashes =
      (lTagHashes.filterMap fun h => (w.coinMeta[h]?).map fun mintMeta =>
        MintOp.addOrUpdate { mintMeta with isUsed := false } h).foldl
        (MintOp.apply hashes) w := by
  induction lTagHashes generalizing w with
  | nil => rfl
  | cons h lTagHashes ih =>
    rw [CSparkWallet.removeSparkSpends, foldl_cons, filterMap_cons]
    cases hmint : w.coinMeta[h]? with
    | none => exact ih
    | some mintMeta =>
      have hrest := ih (w := w.addOrUpdateMint hashes { mintMeta with isUsed := false } h)
      have hsame : (fun a : Hash => ((w.addOrUpdateMint hashes { mintMeta with isUsed := false }
            h).coinMeta[a]?).map fun m : CSparkMintMeta Coin K =>
              MintOp.addOrUpdate { m with isUsed := false } a) =
          fun a : Hash => (w.coinMeta[a]?).map fun m : CSparkMintMeta Coin K =>
            MintOp.addOrUpdate { m with isUsed := false } a := by
        funext a
        rw [getElem?_addOrUpdateMint]
        by_cases heq : h = a
        · subst heq
          simp [hmint]
        · rw [if_neg heq]
      rw [hsame] at hrest
      exact hrest

lemma run_eq_ops (w) (call : WalletCall Coin K Hash) :
    call.run recover hashes w = (call.ops recover w).foldl (MintOp.apply hashes) w := by
  cases call with
  | addOrUpdateMint mint h => rfl
  | updateMint mint order => exact updateMint_eq mint order
  | updateMintInMemory mint order => exact updateMintInMemory_eq mint order
  | eraseMint h => rfl
  | removeSparkMints mints => exact removeSparkMints_eq mints
  | removeSparkSpends lTagHashes => exact removeSparkSpends_eq lTagHashes

end WalletCall

def Clear (hashes : MintHashes Coin K Hash) (w : CSparkWallet Coin K Hash) :
    List (MintOp Coin K Hash) → Prop
  | [] => True
  | op :: ops => ¬w.Orphans hashes op.lTagHash op.new ∧ Clear hashes (op.apply hashes w) ops

variable {w : CSparkWallet Coin K Hash}

omit [DecidableEq K] in
lemma sound_foldl {ops : List (MintOp Coin K Hash)} (hsound : w.Sound hashes) :
    (ops.foldl (MintOp.apply hashes) w).Sound hashes := by
  induction ops generalizing w with
  | nil => exact hsound
  | cons op ops ih => exact ih (hsound.replaced (op.replaced_apply w))

omit [DecidableEq K] in
lemma valid_foldl {ops} (hsound : w.Sound hashes)
    (hvalid : w.validateLookupIndexes hashes = true) (hclear : Clear hashes w ops) :
    (ops.foldl (MintOp.apply hashes) w).validateLookupIndexes hashes = true := by
  induction ops generalizing w with
  | nil => exact hvalid
  | cons op ops ih =>
    obtain ⟨hop, hops⟩ := hclear
    have hreplaced : w.Replaced hashes (op.apply hashes w) op.lTagHash op.new := op.replaced_apply w
    exact ih (hsound.replaced hreplaced)
      ((CSparkWallet.validateLookupIndexes_replaced_iff hsound hvalid hreplaced).mpr hop) hops

/-- The wallets that sequences of calls reach from the empty one, where every call meets the
condition on the wallet before it. -/
def CallReach (hashes : MintHashes Coin K Hash) (recover : Coin → Option Hash)
    (ok : CSparkWallet Coin K Hash → WalletCall Coin K Hash → Prop) :
    CSparkWallet Coin K Hash → Prop :=
  Reach (fun w call => some (call.run recover hashes w)) ok {}

variable {ok : CSparkWallet Coin K Hash → WalletCall Coin K Hash → Prop} {recover}

omit [Std.LawfulEqOrd Hash] [DecidableEq Hash] [DecidableEq K] in
lemma sound_empty : ({} : CSparkWallet Coin K Hash).Sound hashes := by
  constructor <;> intro i h hentry <;>
    simp [CSparkWallet.coinIndex, CSparkWallet.nonceIndex] at hentry

lemma CallReach.sound (h : CallReach hashes recover ok w) : w.Sound hashes := by
  refine Reach.invariant (I := fun w => w.Sound hashes) sound_empty ?_ h
  · rintro w call _ hsound - hstep
    cases hstep
    rw [WalletCall.run_eq_ops]
    exact sound_foldl hsound

/-- Index entries always point to stored mints with their keys. The indexes are valid in every
wallet that is reached by calls none of whose replacements orphans a mint; and from any valid
wallet that calls reach, a replacement of one mint leads to a valid one if and only if it
orphans no other mint. -/
theorem lookupIndexes_valid_iff (hashes : MintHashes Coin K Hash) (recover : Coin → Option Hash) :
    (∀ w, CallReach hashes recover (fun _ _ => True) w → w.Sound hashes) ∧
    (∀ w, CallReach hashes recover (fun w call => Clear hashes w (call.ops recover w)) w →
      w.validateLookupIndexes hashes = true) ∧
    ∀ w, CallReach hashes recover (fun _ _ => True) w → w.validateLookupIndexes hashes = true →
      (∀ h, (w.eraseMint hashes h).validateLookupIndexes hashes = true ↔ ¬w.Orphans hashes h none) ∧
      ∀ mint h, (w.addOrUpdateMint hashes mint h).validateLookupIndexes hashes = true ↔
        ¬w.Orphans hashes h (some mint) := by
  refine ⟨fun w h => h.sound, ?_, ?_⟩
  · intro w h
    refine (Reach.invariant (I := fun w => w.Sound hashes ∧
      w.validateLookupIndexes hashes = true) ?_ ?_ h).2
    · exact ⟨sound_empty, by simp [CSparkWallet.validateLookupIndexes]⟩
    · rintro w call _ ⟨hsound, hvalid⟩ hclear hstep
      cases hstep
      rw [WalletCall.run_eq_ops]
      exact ⟨sound_foldl hsound, valid_foldl hsound hvalid hclear⟩
  · intro w h hvalid
    exact ⟨fun hash => CSparkWallet.validateLookupIndexes_replaced_iff h.sound hvalid
        ((MintOp.erase hash).replaced_apply w),
      fun mint hash => CSparkWallet.validateLookupIndexes_replaced_iff h.sound hvalid
        ((MintOp.addOrUpdate mint hash).replaced_apply w)⟩

def plainHashes : MintHashes ℕ ℕ ℕ where
  getSparkCoinHash := id
  getNonceHash := id
  isNull coin := coin = 0

def reusedNonce (coin : ℕ) : CSparkMintMeta ℕ ℕ :=
  { nHeight := 1, nId := 1, isUsed := false, i := 0, k := 7, coin }

def twoReused : CSparkWallet ℕ ℕ ℕ :=
  (({} : CSparkWallet ℕ ℕ ℕ).addOrUpdateMint plainHashes (reusedNonce 1) 10).addOrUpdateMint
    plainHashes (reusedNonce 2) 11

/-- Two coins with one nonce are added, then the earlier one is erased, which has no index entry
for its nonce any more. -/
theorem lookupIndexes_valid_iff_reusedNonce :
    (({} : CSparkWallet ℕ ℕ ℕ).addOrUpdateMint plainHashes
      (reusedNonce 1) 10).validateLookupIndexes plainHashes = true ∧
    (twoReused.eraseMint plainHashes 10).validateLookupIndexes plainHashes = true := by
  obtain ⟨-, -, hvalid⟩ := lookupIndexes_valid_iff plainHashes fun _ => none
  have hfirst := ((hvalid {} .init (by simp [CSparkWallet.validateLookupIndexes])).2
    (reusedNonce 1) 10).mpr (by
      rintro (⟨g, i, -, hrecord, -⟩ | ⟨g, i, -, hrecord, -⟩) <;>
        simp [CSparkWallet.records] at hrecord)
  refine ⟨hfirst, ((hvalid twoReused (.step (.addOrUpdateMint (reusedNonce 2) 11) (.step
    (.addOrUpdateMint (reusedNonce 1) 10) .init trivial rfl) trivial rfl) ?_).1 10).mpr ?_⟩
  · decide +kernel
  · have hrecords : ∀ h, h ≠ 10 → h ≠ 11 → twoReused.records h = none := by
      intro h hfirst hsecond
      have hadd : ∀ (w : CSparkWallet ℕ ℕ ℕ) mint h',
          (w.addOrUpdateMint plainHashes mint h').records =
            Function.update w.records h' (some mint) :=
        fun w mint h' => ((MintOp.addOrUpdate mint h').replaced_apply w).1
      rw [twoReused, hadd, hadd]
      simp [hfirst, hsecond, CSparkWallet.records]
    have hcoin : (twoReused.records 11).bind (coinKey plainHashes) = some 2 ∧
        twoReused.coinIndex 2 = some 11 := by decide +kernel
    have hnonce : (twoReused.records 11).bind (nonceKey plainHashes) = some 7 ∧
        twoReused.nonceIndex 7 = some 11 := by decide +kernel
    rintro (⟨h, i, hne, hkey, hentry, -⟩ | ⟨h, i, hne, hkey, hentry, -⟩) <;>
      by_cases hsecond : h = 11
    · subst hsecond
      cases hcoin.1.symm.trans hkey
      cases hcoin.2.symm.trans hentry
    · simp [hrecords h hne hsecond] at hkey
    · subst hsecond
      cases hnonce.1.symm.trans hkey
      cases hnonce.2.symm.trans hentry
    · simp [hrecords h hne hsecond] at hkey

/-- Two coins with one nonce are added, then the later one is erased: the earlier one is no
longer found by its nonce. -/
theorem eraseMint_orphans_reusedNonce :
    (((({} : CSparkWallet ℕ ℕ ℕ).addOrUpdateMint plainHashes (reusedNonce 1) 10).addOrUpdateMint
      plainHashes (reusedNonce 2) 11).eraseMint plainHashes 11).validateLookupIndexes
        plainHashes = false := by
  decide +kernel

end Firo.Wallet
