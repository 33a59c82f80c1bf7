import Firo.Lib.Check
import Firo.Lib.Interpolation
import Firo.LibSpark.CoinRecovery

/-! One response triple answers for both keys of an address, through the challenge and its square.
The owner's proof is accepted; and three accepting proofs for one address and commitment give
representations of both keys in the generators, which are those of the spend key if the generators
are independent. -/
namespace Firo.LibSpark.Address

open Firo.Lib

variable {K P : Type} [Field K] [DecidableEq K] [AddCommGroup P] [DecidableEq P] [Module K P]
variable (utils : SparkUtils K P) (params : Params P)

variable {address : Address P}

lemma verifyOwn_eq_ok_true {hash} {m : K} {proof} :
    verifyOwn utils params hash address m proof = .ok true ↔
      proof.A ≠ 0 ∧ challenge params hash address m proof.A (utils.hashDiv address.d) ≠ 0 ∧
      proof.A + challenge params hash address m proof.A (utils.hashDiv address.d) • address.Q1 +
          challenge params hash address m proof.A (utils.hashDiv address.d) ^ 2 • address.Q2 =
        proof.t1 • utils.hashDiv address.d + proof.t2 • params.G + proof.t3 • params.F := by
  simp only [verifyOwn]
  split_ifs with hA hx
  · simp [hA]
  · simp [hx]
  · simp [hA, hx]

lemma proveOwn_eq_ok {hash} {a b c m x : K} {A : P} (spendKey) {key : IncomingViewKey K P}
    {i} (hA : a • utils.hashDiv address.d + b • params.G + c • params.F = A) (hA0 : A ≠ 0)
    (hx : challenge params hash address m A (utils.hashDiv address.d) = x) (hx0 : x ≠ 0)
    (hi : key.getDiversifier utils address.d = .ok i) :
    proveOwn utils params hash address a b c m spendKey key =
      .ok ⟨A, a + x * spendKey.s1, b + x ^ 2 * spendKey.r,
        c + x ^ 2 * (utils.hashQ2 spendKey.s1 (i.toNat : K) + spendKey.s2)⟩ := by
  simp only [proveOwn, hA, hx, if_neg hA0, if_neg hx0, hi]
  rfl

lemma verifyOwn_proveOwn (hash) (spendKey : SpendKey K) (i)
    (haddress : ofKey utils params (spendKey.toFull params).toIncoming i = .ok address)
    (a b c m : K) {A : P} (hA : A = a • utils.hashDiv address.d + b • params.G + c • params.F)
    (hA0 : A ≠ 0) (hx : challenge params hash address m A (utils.hashDiv address.d) ≠ 0) :
    ∃ proof, proveOwn utils params hash address a b c m spendKey
        (spendKey.toFull params).toIncoming = .ok proof ∧
      verifyOwn utils params hash address m proof = .ok true := by
  obtain ⟨d, hok, hi, -⟩ := ofKey_eq_ok utils params (spendKey.toFull params).toIncoming i
  rw [hok] at haddress
  injection haddress with haddress
  have hd : address.d = d := by rw [← haddress]
  have hprove := proveOwn_eq_ok utils params spendKey hA.symm hA0 rfl hx (hd ▸ hi)
  refine ⟨_, hprove, ?_⟩
  rw [verifyOwn_eq_ok_true]
  refine ⟨hA0, hx, ?_⟩
  generalize challenge params hash address m A _ = x
  rw [hA, ← haddress]
  simp only [FullViewKey.toIncoming, SpendKey.toFull]
  module

/-- Three accepting proofs for one address and commitment, with different challenges, represent
the keys in the generators; the coefficients come from the responses. -/
lemma keys_of_proofs {m : Fin 3 → K} {A : P} {hash : Fin 3 → Transcript K P → K}
    {t1 t2 t3 x : Fin 3 → K}
    (hverify : ∀ k, verifyOwn utils params (hash k) address (m k) ⟨A, t1 k, t2 k, t3 k⟩ = .ok true)
    (hx : x = fun k => challenge params (hash k) address (m k) A (utils.hashDiv address.d))
    (hinj : Function.Injective x) :
    address.Q1 = interpolate x t1 1 • utils.hashDiv address.d + interpolate x t2 1 • params.G +
      interpolate x t3 1 • params.F ∧
    address.Q2 = interpolate x t1 2 • utils.hashDiv address.d + interpolate x t2 2 • params.G +
      interpolate x t3 2 • params.F := by
  have hvalue : ∀ k, ∑ l : Fin 3, x k ^ (l : ℕ) • ![A, address.Q1, address.Q2] l =
      ∑ b : Fin 3, ![t1, t2, t3] b k • ![utils.hashDiv address.d, params.G, params.F] b := by
    intro k
    obtain ⟨-, -, hequation⟩ := (verifyOwn_eq_ok_true utils params).mp (hverify k)
    rw [hx]
    simpa [Fin.sum_univ_three] using hequation
  have hQ1 := eq_sum_interpolate hinj hvalue 1
  have hQ2 := eq_sum_interpolate hinj hvalue 2
  simp only [Fin.sum_univ_three] at hQ1 hQ2
  exact ⟨hQ1, hQ2⟩

omit [DecidableEq K] [DecidableEq P] in
lemma coefficients_unique {H G F : P} (hind : LinearIndependent K ![H, G, F]) {a b c a' b' c' : K}
    (h : a • H + b • G + c • F = a' • H + b' • G + c' • F) : a = a' ∧ b = b' ∧ c = c' := by
  have hzero : ∑ l : Fin 3, ![a - a', b - b', c - c'] l • ![H, G, F] l = 0 := by
    rw [Fin.sum_univ_three]
    calc (a - a') • H + (b - b') • G + (c - c') • F
        = (a • H + b • G + c • F) - (a' • H + b' • G + c' • F) := by module
      _ = 0 := by rw [h, sub_self]
  have hall := Fintype.linearIndependent_iff.mp hind _ hzero
  exact ⟨sub_eq_zero.mp (hall 0), sub_eq_zero.mp (hall 1), sub_eq_zero.mp (hall 2)⟩

/-- Ownership proofs are complete, and three of them for one address, message and commitment
give representations of both keys; with independent generators these are the coefficients of the
spend key. -/
theorem ownership_complete_and_sound :
    (∀ (hash : Transcript K P → K) (spendKey : SpendKey K) (i : UInt64) (a b c m : K),
      ∃ address, ofKey utils params (spendKey.toFull params).toIncoming i = .ok address ∧
        ∀ A, A = a • utils.hashDiv address.d + b • params.G + c • params.F → A ≠ 0 →
          challenge params hash address m A (utils.hashDiv address.d) ≠ 0 →
          ∃ proof, proveOwn utils params hash address a b c m spendKey
              (spendKey.toFull params).toIncoming = .ok proof ∧
            verifyOwn utils params hash address m proof = .ok true) ∧
    ∀ (address : Address P) (m : K) (A : P) (hash : Fin 3 → Transcript K P → K)
      (t1 t2 t3 x : Fin 3 → K),
      (∀ k, verifyOwn utils params (hash k) address m ⟨A, t1 k, t2 k, t3 k⟩ = .ok true) →
      (x = fun k => challenge params (hash k) address m A (utils.hashDiv address.d)) →
      Function.Injective x →
      (address.Q1 = interpolate x t1 1 • utils.hashDiv address.d + interpolate x t2 1 • params.G +
        interpolate x t3 1 • params.F ∧
      address.Q2 = interpolate x t1 2 • utils.hashDiv address.d + interpolate x t2 2 • params.G +
        interpolate x t3 2 • params.F) ∧
      ∀ s1 r f : K, LinearIndependent K ![utils.hashDiv address.d, params.G, params.F] →
        address.Q1 = s1 • utils.hashDiv address.d → address.Q2 = r • params.G + f • params.F →
        (interpolate x t1 1 = s1 ∧ interpolate x t2 1 = 0 ∧ interpolate x t3 1 = 0) ∧
        (interpolate x t1 2 = 0 ∧ interpolate x t2 2 = r ∧ interpolate x t3 2 = f) := by
  constructor
  · intro hash spendKey i a b c m
    obtain ⟨d, haddress, -⟩ := ofKey_eq_ok utils params (spendKey.toFull params).toIncoming i
    exact ⟨_, haddress, fun A hA hA0 hx =>
      verifyOwn_proveOwn utils params hash spendKey i haddress a b c m hA hA0 hx⟩
  · intro address m A hash t1 t2 t3 x hverify hx hinj
    obtain ⟨hQ1, hQ2⟩ := keys_of_proofs utils params hverify hx hinj
    refine ⟨⟨hQ1, hQ2⟩, ?_⟩
    intro s1 r f hind hkey1 hkey2
    constructor
    · apply coefficients_unique hind
      rw [← hQ1, hkey1]
      module
    · apply coefficients_unique hind
      rw [← hQ2, hkey2]
      module

def smallUtils : SparkUtils ℚ (Fin 3 → ℚ) where
  hashDiv _ := ![1, 0, 0]
  hashQ2 _ _ := 0
  hashK _ := 0
  hashSer _ _ := 0
  hashVal _ := 0
  kdfDiversifier _ := List.replicate 32 0
  kdfAead _ := []
  commitAead _ := []
  aes := Coin.padOnly
  chacha := Coin.smallUtils.chacha
  length_kdfDiversifier _ := rfl

def smallParams : Params (Fin 3 → ℚ) :=
  ⟨![0, 0, 1], ![0, 1, 0], 0, 0, Coin.smallParams.memoBytes, Coin.smallParams.memoBytes_lt⟩

/-- The address of the key `s1 = 1`, `s2 = 2`, `r = 3`. -/
def smallAddress : Address (Fin 3 → ℚ) := ⟨[], ![1, 0, 0], ![0, 3, 2]⟩

lemma linearIndependent_small :
    LinearIndependent ℚ ![smallUtils.hashDiv [], smallParams.G, smallParams.F] := by
  rw [Fintype.linearIndependent_iff]
  intro g hg
  have hcoord : ∀ j : Fin 3, g j = 0 := by
    intro j
    have hj := congrFun hg j
    fin_cases j <;> simpa [Fin.sum_univ_three, smallUtils, smallParams] using hj
  exact hcoord

/-- Three proofs, with all random scalars one and the challenges 1, 2 and 3. -/
theorem ownership_complete_and_sound_small : (∃ address proof,
      ofKey smallUtils smallParams ((⟨1, 2, 3⟩ : SpendKey ℚ).toFull smallParams).toIncoming 7 =
        .ok address ∧
      verifyOwn smallUtils smallParams (fun _ => (1 : ℚ)) address 0 proof = .ok true) ∧
    (interpolate ![(1 : ℚ), 2, 3] ![2, 3, 4] 1 = 1 ∧
      interpolate ![(1 : ℚ), 2, 3] ![4, 13, 28] 1 = 0 ∧
      interpolate ![(1 : ℚ), 2, 3] ![3, 9, 19] 1 = 0) ∧
    (interpolate ![(1 : ℚ), 2, 3] ![2, 3, 4] 2 = 0 ∧
      interpolate ![(1 : ℚ), 2, 3] ![4, 13, 28] 2 = 3 ∧
      interpolate ![(1 : ℚ), 2, 3] ![3, 9, 19] 2 = 2) := by
  obtain ⟨hcomplete, hsound⟩ := ownership_complete_and_sound smallUtils smallParams
  constructor
  · obtain ⟨address, haddress, hproof⟩ := hcomplete (fun _ => 1) ⟨1, 2, 3⟩ 7 1 1 1 0
    have hA : (1 : ℚ) • smallUtils.hashDiv address.d + (1 : ℚ) • smallParams.G +
        (1 : ℚ) • smallParams.F ≠ 0 := by
      change (1 : ℚ) • ![1, 0, 0] + (1 : ℚ) • ![0, 1, 0] + (1 : ℚ) • ![0, 0, 1] ≠ 0
      decide +kernel
    obtain ⟨proof, -, hverify⟩ := hproof _ rfl hA one_ne_zero
    exact ⟨address, proof, haddress, hverify⟩
  · have hverify : ∀ k : Fin 3, verifyOwn smallUtils smallParams (fun _ => ![(1 : ℚ), 2, 3] k)
        smallAddress 0 ⟨![1, 1, 1], ![2, 3, 4] k, ![4, 13, 28] k, ![3, 9, 19] k⟩ = .ok true := by
      decide +kernel
    have hinj : Function.Injective ![(1 : ℚ), 2, 3] := by decide +kernel
    exact (hsound smallAddress 0 _ _ _ _ _ _ hverify rfl hinj).2 1 3 2 linearIndependent_small
      (by decide +kernel) (by decide +kernel)

end Firo.LibSpark.Address
