import Firo.Lib.Check
import Firo.LibSpark.CoinRecovery
import Firo.LibSpark.Schnorr

/-! The coins of a mint transaction have public values. The value proof of `mint_transaction.cpp` is
a Schnorr proof over `H` that each value commitment is `G` times the value plus a multiple of `H`.
-/
namespace Firo.LibSpark

open Firo.Lib

variable {q : ℕ} {P : Type}

structure MintedCoinData (P : Type) where
  address : Address P
  v : UInt64
  memo : List UInt8

structure MintTransaction (q : ℕ) (P : Type) where
  coins : List (Coin P)
  valueProof : SchnorrProof (ZMod q) P

namespace MintTransaction

variable [Fact q.Prime] [AddCommGroup P] [Module (ZMod q) P] (utils : SparkUtils (ZMod q) P)
variable (params : Params P) (hash : Transcript (ZMod q) P → ZMod q)

def valueStatement (coin : Coin P) : P :=
  coin.C + (coin.v.toNat : ZMod q) • -params.G

variable [DecidableEq P]

def create (outputs : List (MintedCoinData P × ZMod q)) (r : ZMod q) (serialContext : List UInt8) :
    Except String (MintTransaction q P) := do
  let coins ← outputs.mapM fun (output, k) => Coin.create utils params COIN_TYPE_MINT k
    output.address output.v output.memo serialContext
  let valueProof ← (Schnorr.mk params.H).prove hash r
    (outputs.map fun output => utils.hashVal output.2)
    (coins.map (valueStatement (q := q) params))
  .ok ⟨coins, valueProof⟩

def verify (tx : MintTransaction q P) : Except String Bool :=
  (Schnorr.mk params.H).verify hash (tx.coins.map (valueStatement (q := q) params)) tx.valueProof

/-- Schnorr proofs of correct statements are accepted; one more accepting proof than there are
statements, for one commitment, gives the scalar of each; and such proofs for a mint transaction
open the value commitment of each coin to its public value. -/
theorem value_proof_complete_and_sound :
    (∀ (sc : Schnorr P) (r : ZMod q) (y : List (ZMod q)), 0 ∉ y.map (· • sc.G) →
      sc.challenge hash (y.map (· • sc.G)) (r • sc.G) ≠ 0 →
      ∃ proof, sc.prove hash r y (y.map (· • sc.G)) = .ok proof ∧
        sc.verify hash (y.map (· • sc.G)) proof = .ok true) ∧
    (∀ (sc : Schnorr P) (Y : List P) (A : P)
      (hash : Fin (Y.length + 1) → Transcript (ZMod q) P → ZMod q)
      (t : Fin (Y.length + 1) → ZMod q),
      (∀ k, sc.verify (hash k) Y ⟨A, t k⟩ = .ok true) →
      (Function.Injective fun k => sc.challenge (hash k) Y A) →
      ∀ i : Fin Y.length,
        Schnorr.extract (fun k => sc.challenge (hash k) Y A) t i • sc.G = Y.get i) ∧
    ∀ (coins : List (Coin P)) (A : P)
      (hash : Fin (coins.length + 1) → Transcript (ZMod q) P → ZMod q)
      (t : Fin (coins.length + 1) → ZMod q) (c : Fin (coins.length + 1) → ZMod q),
      (∀ k, verify params (hash k) ⟨coins, ⟨A, t k⟩⟩ = .ok true) →
      (c = fun k => (Schnorr.mk params.H).challenge (hash k)
        (coins.map (valueStatement (q := q) params)) A) →
      Function.Injective c →
      ∀ i : Fin coins.length, (coins.get i).C =
        ((coins.get i).v.toNat : ZMod q) • params.G + Schnorr.extract c t i • params.H := by
  refine ⟨?_, ?_, ?_⟩
  · intro sc r y hY hc
    have hprove := (sc.prove_eq_ok hash).mpr
      ⟨rfl, zero_notMem_challengePowers (n := y.length) hc, rfl⟩
    exact ⟨_, hprove, sc.verify_of_prove hash hprove hY⟩
  · intro sc Y A hash t hverify hc i
    rw [sc.smul_extract rfl hash t hverify hc i, List.getD_eq_getElem _ _ i.isLt]
    rfl
  · rintro coins A hash t c hverify rfl hc i
    have hextract := (Schnorr.mk params.H).smul_extract (List.length_map _) hash t hverify hc i
    rw [List.getD_eq_getElem _ _ (by simp), List.getElem_map] at hextract
    rw [hextract, valueStatement]
    change _ = _ + ((coins.get i).C + _)
    module

def smallCoin (C : ZMod 13) (v : UInt64) : Coin (ZMod 13) :=
  ⟨COIN_TYPE_MINT, 0, 0, C, ⟨[], [], []⟩, v, []⟩

local instance primeThirteen : Fact (Nat.Prime 13) := ⟨by norm_num⟩

/-- Three proofs, for the challenges 1, 2 and 3, about coins with the values 7 and 3 and the
commitments `4 * 7 + 5 * 2` and `4 * 3 + 5 * 3`. -/
theorem value_proof_complete_and_sound_two :
    (∃ proof, (Schnorr.mk (1 : ZMod 13)).prove (fun _ => (1 : ZMod 13)) 3 [2, 3] [2, 3] =
        .ok proof ∧
      (Schnorr.mk (1 : ZMod 13)).verify (fun _ => (1 : ZMod 13)) [2, 3] proof = .ok true) ∧
    (∀ i : Fin 2, Schnorr.extract ![(1 : ZMod 13), 2, 3] ![11, 0, 9] i • (1 : ZMod 13) =
      [2, 3].get i) ∧
    ∀ i : Fin 2, ([smallCoin 38 7, smallCoin 27 3].get i).C =
      (([smallCoin 38 7, smallCoin 27 3].get i).v.toNat : ZMod 13) • (4 : ZMod 13) +
        Schnorr.extract ![(1 : ZMod 13), 2, 3] ![11, 0, 9] i • (5 : ZMod 13) := by
  have hc : Function.Injective ![(1 : ZMod 13), 2, 3] := by decide
  obtain ⟨hcomplete, hsound, hcoins⟩ :=
    value_proof_complete_and_sound Coin.smallParams fun _ => (1 : ZMod 13)
  refine ⟨hcomplete ⟨1⟩ 3 [2, 3] (by decide) (by decide), ?_, ?_⟩
  · exact hsound ⟨1⟩ [2, 3] 3 (fun k _ => ![1, 2, 3] k) ![11, 0, 9] (by decide) hc
  · exact hcoins [smallCoin 38 7, smallCoin 27 3] 15 (fun k _ => ![1, 2, 3] k) ![11, 0, 9]
      ![1, 2, 3] (by decide) rfl hc

end MintTransaction

end Firo.LibSpark
