import Firo.LibSpark.Coin

/-! Sender and recipient compute the key of a coin along different paths: from the keys of the
address and the nonce, and from the recovery key of the coin and the view key. Both types of coin
are identified with the data they were made of, and the serial number that the full view key
recovers opens the serial commitment. -/
namespace Firo.LibSpark.Coin

open Firo.Lib Firo.Serialize

variable {q : ℕ} {P : Type}

variable {memoBytes : ℕ} {memo d : List UInt8}

lemma length_padMemo (h : memo.length ≤ memoBytes) :
    (padMemo memoBytes memo).length = memoBytes + 1 := by
  simp only [padMemo, List.length_cons, List.length_append, List.length_replicate]
  omega

lemma decodeMemoOrThrow_padMemo (h : memo.length ≤ memoBytes) (hbytes : memoBytes < 256) :
    decodeMemoOrThrow memoBytes (padMemo memoBytes memo) = .ok memo := by
  have hlength : (UInt8.ofNat memo.length).toNat = memo.length := by
    rw [UInt8.toNat_ofNat']
    omega
  rw [decodeMemoOrThrow, if_neg (not_not.mpr (length_padMemo h))]
  simp only [padMemo, List.headD_cons, hlength, List.tail_cons, List.take_left']
  rw [if_neg (by omega)]

variable [Fact q.Prime] [AddCommGroup P] [Module (ZMod q) P] (utils : SparkUtils (ZMod q) P)
variable (params : Params P)

/-- What the constructor writes into a coin of either type, for the address with diversifier
`d` of an incoming view key. -/
structure MadeFor (coin : Coin P) (key : IncomingViewKey (ZMod q) P) (d : List UInt8) (i : UInt64)
    (k : ZMod q) (v : UInt64) (memo serialContext : List UInt8) : Prop where
  K_eq : coin.K = utils.hashK k • utils.hashDiv d
  S_eq : coin.S = utils.hashSer k serialContext • params.F +
    (utils.hashQ2 key.s1 (i.toNat : ZMod q) • params.F + key.P2)
  C_eq : coin.C = (v.toNat : ZMod q) • params.G + utils.hashVal k • params.H
  serialContext_eq : coin.serialContext = serialContext
  recipient : coin.decryptRecipientData utils params key = .ok ⟨0, d, v, k, memo⟩

lemma create_madeFor (hq : q ≤ 2 ^ 256) {type}
    (htype : type = COIN_TYPE_MINT ∨ type = COIN_TYPE_SPEND) (key : IncomingViewKey (ZMod q) P)
    (hd : d.length = AES_BLOCKSIZE) (i : UInt64) (k) (v) (hmemo : memo.length ≤ params.memoBytes)
    (serialContext) : ∃ coin, create utils params type k ⟨d, key.s1 • utils.hashDiv d,
        utils.hashQ2 key.s1 (i.toNat : ZMod q) • params.F + key.P2⟩ v memo serialContext =
          .ok coin ∧
      MadeFor utils params coin key d i k v memo serialContext := by
  have hmemoSize : (padMemo params.memoBytes memo).length ≤ MAX_SIZE := by
    have hlt := params.memoBytes_lt
    rw [length_padMemo hmemo, MAX_SIZE]
    omega
  have hdSize : d.length ≤ MAX_SIZE := by
    rw [hd]
    decide
  have hdecode := decodeMemoOrThrow_padMemo hmemo params.memoBytes_lt
  -- the sender's and the recipient's key of the encryption
  have hprekey : key.s1 • utils.hashK k • utils.hashDiv d =
      utils.hashK k • key.s1 • utils.hashDiv d := smul_comm _ _ _
  have hread : ∀ {α : Type} {p : Reader α} {enc : List UInt8} {a : α}, Reads p enc a →
      p enc = some (a, []) := by
    intro α p enc a h
    have hrest := h []
    rwa [List.append_nil] at hrest
  rcases htype with rfl | rfl
  · have hmint := hread (MintCoinRecipientData.reads hq
      (r := ⟨d, k, padMemo params.memoBytes memo⟩) hdSize hmemoSize)
    refine ⟨_, by rw [create, if_neg (by simp), if_neg (by omega), if_pos rfl], rfl, rfl, rfl,
      rfl, ?_⟩
    simp only [decryptRecipientData, if_true, hprekey, AEAD.decryptAndVerify_encrypt,
      Except.toOption, Option.bind_some, hmint, hdecode]
    rfl
  · have hspend := hread (SpendCoinRecipientData.reads hq
      (r := ⟨v, d, k, padMemo params.memoBytes memo⟩) hdSize hmemoSize)
    have hne : COIN_TYPE_SPEND ≠ COIN_TYPE_MINT := by decide
    refine ⟨_, by rw [create, if_neg (by simp), if_neg (by omega), if_neg hne], rfl, rfl, rfl,
      rfl, ?_⟩
    simp only [decryptRecipientData, if_neg hne, hprekey, AEAD.decryptAndVerify_encrypt,
      Except.toOption, Option.bind_some, hspend, hdecode]
    rfl

variable {utils params} in
lemma MadeFor.identify_eq [DecidableEq P] {coin} {key} {i} {k} {v} {serialContext}
    (h : MadeFor utils params coin key d i k v memo serialContext)
    (hi : key.getDiversifier utils d = .ok i) :
    coin.identify utils params key = .ok ⟨i, d, v, k, memo⟩ := by
  have hS : (utils.hashSer k coin.serialContext + utils.hashQ2 key.s1 (i.toNat : ZMod q)) •
      params.F + key.P2 = coin.S := by
    rw [h.S_eq, h.serialContext_eq]
    module
  have hvalidate : coin.validate utils params key ⟨0, d, v, k, memo⟩ =
      .ok (true, ⟨i, d, v, k, memo⟩) := by
    simp only [validate, h.K_eq, h.C_eq, ne_eq, not_true_eq_false, if_false, hi]
    exact congrArg (fun valid => Except.ok (valid, _)) (decide_eq_true hS)
  rw [identify, h.recipient]
  change (coin.validate utils params key ⟨0, d, v, k, memo⟩).bind _ = _
  rw [hvalidate]
  rfl

/-- A coin made for an address of a spend key, of either type, is identified by the incoming
view key with the same diversifier, value, nonce and memo, and the full view key recovers the
opening of its serial commitment and the tag of its serial number. -/
theorem identify_and_recover_create [DecidableEq P] (hq : q ≤ 2 ^ 256)
    (spendKey : SpendKey (ZMod q)) (i : UInt64) (type : UInt8)
    (htype : type = COIN_TYPE_MINT ∨ type = COIN_TYPE_SPEND) (k : ZMod q) (v : UInt64)
    (memo : List UInt8) (hmemo : memo.length ≤ params.memoBytes) (serialContext : List UInt8) :
    ∃ address coin recovered,
      Address.ofKey utils params (spendKey.toFull params).toIncoming i = .ok address ∧
      create utils params type k address v memo serialContext = .ok coin ∧
      coin.identify utils params (spendKey.toFull params).toIncoming =
        .ok ⟨i, address.d, v, k, memo⟩ ∧
      coin.recover utils params (spendKey.toFull params) ⟨i, address.d, v, k, memo⟩ = recovered ∧
      coin.S = recovered.s • params.F + (spendKey.toFull params).D ∧
      (recovered.s ≠ 0 → recovered.s • recovered.T + (spendKey.toFull params).D = params.U) := by
  obtain ⟨d, haddress, hi, hd⟩ :=
    Address.ofKey_eq_ok utils params (spendKey.toFull params).toIncoming i
  obtain ⟨coin, hcreate, hmade⟩ := create_madeFor utils params hq htype
    (spendKey.toFull params).toIncoming hd i k v hmemo serialContext
  refine ⟨_, coin, _, haddress, hcreate, hmade.identify_eq hi, rfl, ?_, ?_⟩
  · rw [hmade.S_eq]
    simp only [recover, hmade.serialContext_eq, FullViewKey.toIncoming, SpendKey.toFull]
    module
  · intro hs
    simp only [recover] at hs ⊢
    rw [smul_smul, mul_inv_cancel₀ hs, one_smul, neg_add_cancel_right]

def padOnly : Aes256Cbc where
  encrypt _ m := m ++ List.replicate (16 - m.length % 16) (UInt8.ofNat (16 - m.length % 16))
  decrypt _ c := c.take (c.length - (c.getLastD 0).toNat)
  length_encrypt _ m := by
    simp only [List.length_append, List.length_replicate, AES_BLOCKSIZE]
    omega
  decrypt_encrypt _ m := by
    have hlast : ∀ (n : ℕ) (b : UInt8), (m ++ List.replicate (n + 1) b).getLastD 0 = b := by
      intro n b
      rw [List.replicate_succ', ← List.append_assoc, List.getLastD_concat]
    obtain ⟨n, hn⟩ : ∃ n, 16 - m.length % 16 = n + 1 := ⟨15 - m.length % 16, by omega⟩
    have hbyte : (UInt8.ofNat (n + 1)).toNat = n + 1 := by
      rw [UInt8.toNat_ofNat']
      omega
    rw [hn, hlast, hbyte, List.length_append, List.length_replicate, Nat.add_sub_cancel,
      List.take_left']
    rfl

def smallUtils : SparkUtils (ZMod 13) (ZMod 13) where
  hashDiv _ := (2 : ℕ)
  hashQ2 s1 i := s1 + i
  hashK k := k + 1
  hashSer k _ := k + (2 : ℕ)
  hashVal k := k + (3 : ℕ)
  kdfDiversifier _ := List.replicate 32 0
  kdfAead _ := []
  commitAead _ := []
  aes := padOnly
  chacha := ⟨fun _ _ data => (data, []), fun _ _ data _ => some data, fun _ _ _ => rfl⟩
  length_kdfDiversifier _ := rfl

def smallParams : Params (ZMod 13) :=
  ⟨(3 : ℕ), (4 : ℕ), (5 : ℕ), (6 : ℕ), 31, by decide⟩

def smallKey : SpendKey (ZMod 13) := ⟨1, (2 : ℕ), (3 : ℕ)⟩

local instance primeThirteen : Fact (Nat.Prime 13) := ⟨by norm_num⟩

theorem identify_and_recover_create_small : ∃ address coin, ∃ s : ZMod 13,
    Address.ofKey smallUtils smallParams (smallKey.toFull smallParams).toIncoming 7 = .ok address ∧
    create smallUtils smallParams COIN_TYPE_SPEND 9 address 1000 [104, 105] [] = .ok coin ∧
    coin.identify smallUtils smallParams (smallKey.toFull smallParams).toIncoming =
      .ok ⟨7, address.d, 1000, 9, [104, 105]⟩ ∧
    coin.S = s • smallParams.F + (smallKey.toFull smallParams).D := by
  obtain ⟨address, coin, recovered, haddress, hcreate, hidentify, -, hS, -⟩ :=
    identify_and_recover_create smallUtils smallParams (by norm_num) smallKey 7
      COIN_TYPE_SPEND (Or.inr rfl) 9 1000 [104, 105] (by decide) []
  exact ⟨address, coin, recovered.s, haddress, hcreate, hidentify, hS⟩

end Firo.LibSpark.Coin
