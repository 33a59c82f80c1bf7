import Firo.LibSpark.Primitives

/-! The aggregated range proof of `bpplus.cpp`. The prover folds its vectors in `log2 (N * M)`
rounds; the verifier reads the folded generators off the bits of their indices and adds all proofs
of a batch into one multi-exponentiation. -/
namespace Firo.LibSpark

variable {F P : Type}

def log2 (n : ℕ) : ℕ := Nat.log2 n

def isNonzeroPowerOf2 (n : ℕ) : Bool :=
  decide (0 < n) && (n &&& (n - 1)) == 0

def paddedM (unpaddedM : ℕ) : ℕ :=
  if isNonzeroPowerOf2 unpaddedM then unpaddedM else 1 <<< (log2 unpaddedM + 1)

/-- The generators and the bit length, as the constructor accepts them. -/
structure BPPlus (P : Type) where
  G : P
  H : P
  Gi : List P
  Hi : List P
  N : ℕ
  sizes : Gi.length = Hi.length
  bitLength : isNonzeroPowerOf2 N = true

structure BPPlusProof (F P : Type) where
  A : P
  A1 : P
  B : P
  r1 : F
  s1 : F
  d1 : F
  L : List P
  R : List P

structure BPPlusRandom (F : Type) where
  alpha : F
  dL : ℕ → F
  dR : ℕ → F
  r : F
  s : F
  d : F
  eta : F

section

variable [Field F]

def twoNMinusOne (N : ℕ) : F :=
  (fun t => t * t)^[log2 N] 2 - 1

def yPower (y : F) (i : ℕ) : F :=
  if i = 0 then 0 else y ^ i

/-- The vector `d`: the first `N` entries by doubling, then each block from the one before. -/
def dVector (double : F → F) (zSquare : F) (N M : ℕ) : List F :=
  rows M N fun j i => (· * zSquare)^[j] (double^[i] zSquare)

end

section

variable [Field F] (hash : Transcript F P → F)

def BPPlus.statement (bp : BPPlus P) (unpaddedC : List P) : Transcript F P :=
  let t : Transcript F P := { domain := "BULLETPROOF_PLUS_V1" }
  (((((t.add "G" (.point bp.G)).add "H" (.point bp.H)).add "Gi" (.points bp.Gi)).add
    "Hi" (.points bp.Hi)).add "N" (.scalar bp.N)).add "C" (.points unpaddedC)

def roundChallenge (t : Transcript F P) (L R : P) : F × Transcript F P :=
  ((t.add "L" (.point L)).add "R" (.point R)).challenge hash "e"

def lastChallenge (t : Transcript F P) (A1 B : P) : F :=
  (((t.add "A1" (.point A1)).add "B" (.point B)).challenge hash "e1").1

end

/-- The vectors that the inner product rounds fold, with the rounds made so far. -/
structure RoundState (F P : Type) where
  Gi1 : List P
  Hi1 : List P
  a1 : List F
  b1 : List F
  alpha1 : F
  L : List P
  R : List P
  transcript : Transcript F P

section

variable [Field F] [AddCommGroup P] [Module F P] (bp : BPPlus P) (hash : Transcript F P → F)

def roundL (y dL : F) (N1 : ℕ) (st : RoundState F P) : P :=
  let yN1Inverse := (yPower y N1)⁻¹
  let cL := ((List.range N1).map fun i =>
    st.a1.getD i 0 * yPower y (i + 1) * st.b1.getD (i + N1) 0).sum
  multiExponent
    (((List.range N1).flatMap fun i => [st.Gi1.getD (i + N1) 0, st.Hi1.getD i 0]) ++ [bp.G, bp.H])
    (((List.range N1).flatMap fun i =>
      [st.a1.getD i 0 * yN1Inverse, st.b1.getD (i + N1) 0]) ++ [cL, dL])

def roundR (y dR : F) (N1 : ℕ) (st : RoundState F P) : P :=
  let cR := ((List.range N1).map fun i =>
    st.a1.getD (i + N1) 0 * yPower y N1 * yPower y (i + 1) * st.b1.getD i 0).sum
  multiExponent
    (((List.range N1).flatMap fun i => [st.Gi1.getD i 0, st.Hi1.getD (i + N1) 0]) ++ [bp.G, bp.H])
    (((List.range N1).flatMap fun i =>
      [st.a1.getD (i + N1) 0 * yPower y N1, st.b1.getD i 0]) ++ [cR, dR])

def compress (y dL dR e : F) (N1 : ℕ) (L R : P) (t : Transcript F P) (st : RoundState F P) :
    RoundState F P where
  Gi1 := (List.range N1).map fun i =>
    e⁻¹ • st.Gi1.getD i 0 + (e * (yPower y N1)⁻¹) • st.Gi1.getD (i + N1) 0
  Hi1 := (List.range N1).map fun i => e • st.Hi1.getD i 0 + e⁻¹ • st.Hi1.getD (i + N1) 0
  a1 := (List.range N1).map fun i =>
    st.a1.getD i 0 * e + st.a1.getD (i + N1) 0 * yPower y N1 * e⁻¹
  b1 := (List.range N1).map fun i => st.b1.getD i 0 * e⁻¹ + st.b1.getD (i + N1) 0 * e
  alpha1 := dL * e ^ 2 + st.alpha1 + dR * e⁻¹ ^ 2
  L := st.L ++ [L]
  R := st.R ++ [R]
  transcript := t

variable (rand : BPPlusRandom F)

def proverRound (y : F) (N1 : ℕ) (st : RoundState F P) : RoundState F P :=
  let dL := rand.dL st.L.length
  let dR := rand.dR st.L.length
  let L := roundL bp y dL N1 st
  let R := roundR bp y dR N1 st
  let e := roundChallenge hash st.transcript L R
  compress y dL dR e.1 N1 L R e.2 st

/-- The loop `while (N1 > 1)`; the fuel bounds the number of rounds. -/
def proverRounds (rand : BPPlusRandom F) (y : F) : ℕ → ℕ → RoundState F P → RoundState F P
  | 0, _, st => st
  | fuel + 1, N1, st =>
    if 1 < N1 then proverRounds rand y fuel (N1 / 2) (proverRound bp hash rand y (N1 / 2) st)
    else st

def finishProof (A : P) (y : F) (st : RoundState F P) : BPPlusProof F P :=
  let a := st.a1.getD 0 0
  let b := st.b1.getD 0 0
  let A1 := rand.r • st.Gi1.getD 0 0 + rand.s • st.Hi1.getD 0 0 +
    (rand.r * y * b + rand.s * y * a) • bp.G + rand.d • bp.H
  let B := (rand.r * y * rand.s) • bp.G + rand.eta • bp.H
  let e1 := lastChallenge hash st.transcript A1 B
  { A := A, A1 := A1, B := B, r1 := rand.r + a * e1, s1 := rand.s + b * e1,
    d1 := rand.eta + rand.d * e1 + st.alpha1 * e1 ^ 2, L := st.L, R := st.R }

def commitBits (alpha : F) (aL aR : List F) (NM : ℕ) : P :=
  multiExponent (bp.H :: (List.range NM).flatMap fun i => [bp.Gi.getD i 0, bp.Hi.getD i 0])
    (alpha :: (List.range NM).flatMap fun i => [aL.getD i 0, aR.getD i 0])

def firstRound (r aL aR : List F) (M : ℕ) (y z : F) (t : Transcript F P) : RoundState F P :=
  let NM := bp.N * M
  let d := dVector (2 * ·) (z ^ 2) bp.N M
  { Gi1 := bp.Gi
    Hi1 := bp.Hi
    a1 := (List.range NM).map fun i => aL.getD i 0 - z
    b1 := (List.range NM).map fun i => aR.getD i 0 + d.getD i 0 * yPower y (NM - i) + z
    alpha1 := ((List.range M).foldl (fun (alpha1, zEvenPowers) j =>
      (alpha1 + zEvenPowers * z ^ 2 * r.getD j 0 * yPower y (NM + 1), zEvenPowers * z ^ 2))
      (rand.alpha, 1)).1
    L := []
    R := []
    transcript := t }

def proveBits (unpaddedC : List P) (r aL aR : List F) (M : ℕ) : BPPlusProof F P :=
  let A := commitBits bp rand.alpha aL aR (bp.N * M)
  let y := ((bp.statement unpaddedC).add "A" (.point A)).challenge hash "y"
  let z := y.2.challenge hash "z"
  let st := firstRound bp rand r aL aR M y.1 z.1 z.2
  finishProof bp hash rand A y.1 (proverRounds bp hash rand y.1 (bp.N * M) (bp.N * M) st)

end

section

variable {q : ℕ} [Fact q.Prime] [AddCommGroup P] [Module (ZMod q) P] [DecidableEq P]

def getBits (v : ZMod q) : List Bool :=
  (List.range 256).map fun i => v.val.testBit (255 - i)

def bitVector (v : List (ZMod q)) (N M : ℕ) : List (ZMod q) :=
  let bits := v.map getBits
  rows M N fun j i =>
    let b := bits.getD j []
    if b.getD (b.length - (i + 1)) false then 1 else 0

/-- `BPPlus::prove`; an error is an exception of the source. -/
def BPPlus.prove (bp : BPPlus P) (hash : Transcript (ZMod q) P → ZMod q)
    (rand : BPPlusRandom (ZMod q)) (unpaddedV unpaddedR : List (ZMod q)) (unpaddedC : List P) :
    Except String (BPPlusProof (ZMod q) P) :=
  let unpaddedM := unpaddedC.length
  if unpaddedM = 0 then .error "Bad BPPlus statement!1" else
  let M := paddedM unpaddedM
  let v := unpaddedV ++ List.replicate (M - unpaddedM) 0
  let r := unpaddedR ++ List.replicate (M - unpaddedM) 0
  let C := unpaddedC ++ List.replicate (M - unpaddedM) 0
  if C.length ≠ M then .error "Bad BPPlus statement!2"
  else if !isNonzeroPowerOf2 M then .error "Unexpected bad padding!3"
  else if bp.Gi.length < bp.N * M then .error "Bad BPPlus statement!4"
  else if ¬(v.length = M ∧ r.length = M) then .error "Bad BPPlus statement!5"
  else if ¬∀ j ∈ List.range M, v.getD j 0 • bp.G + r.getD j 0 • bp.H = C.getD j 0 then
    .error "Bad BPPlus statement!6"
  else
    let aL := bitVector v bp.N M
    .ok (proveBits bp hash rand unpaddedC r aL (aL.map (· - 1)) M)

end

structure BPPlusChallenges (F : Type) where
  y : F
  z : F
  e : List F
  e1 : F

/-- The points and scalars of the multi-exponentiation, and the scalars of the common
generators. -/
structure BPPlusBatch (F P : Type) where
  points : List P
  scalars : List F
  gScalar : F
  hScalar : F

section

variable [Field F] [DecidableEq F] (bp : BPPlus P) (hash : Transcript F P → F)

def roundChallenges (t : Transcript F P) : List P → List P → Option (List F × Transcript F P)
  | L :: Ls, R :: Rs =>
    let e := roundChallenge hash t L R
    if e.1 = 0 then none else
    (roundChallenges e.2 Ls Rs).map fun es => (e.1 :: es.1, es.2)
  | _, _ => some ([], t)

/-- The challenges of a proof; the verifier rejects when one is zero. -/
def BPPlus.challenges (unpaddedC : List P) (proof : BPPlusProof F P) :
    Option (BPPlusChallenges F) := do
  let y := ((bp.statement unpaddedC).add "A" (.point proof.A)).challenge hash "y"
  if y.1 = 0 then none else
  let z := y.2.challenge hash "z"
  if z.1 = 0 then none else
  let e ← roundChallenges hash z.2 proof.L proof.R
  let e1 := lastChallenge hash e.2 proof.A1 proof.B
  if e1 = 0 then none else
  some { y := y.1, z := z.1, e := e.1, e1 := e1 }

end

section

variable [Field F]

/-- The sum of the elements of `d` by doubling: the loop `while (temp_2M > 2)`. -/
def sumDLoop : ℕ → ℕ → F → F → F
  | 0, _, sumD, _ => sumD
  | fuel + 1, temp2M, sumD, tempZ =>
    if 2 < temp2M then sumDLoop fuel (temp2M / 2) (sumD + sumD * tempZ) (tempZ ^ 2) else sumD

def sumD (N M : ℕ) (zSquare : F) : F :=
  sumDLoop (2 * M) (2 * M) zSquare zSquare * twoNMinusOne N

def sumY (NM : ℕ) (y : F) : F :=
  ((List.range NM).foldl (fun (sumY, track) _ => (sumY + track, track * y)) (0, y)).1

def yNM (rounds : ℕ) (y : F) : F :=
  (· ^ 2)^[rounds] y

def indexScalars (e : List F) (rounds i : ℕ) (g h : F) : F × F :=
  (List.range rounds).foldl (fun (g, h) j =>
    let ej := e.getD (rounds - j - 1) 0
    if i.testBit j then (g * ej, h * ej⁻¹) else (g * ej⁻¹, h * ej)) (g, h)

/-- The loop over `Gi` and `Hi`: the scalars of generator `i` are at `2 * i` and
`2 * i + 1`. -/
def addGenerators (ch : BPPlusChallenges F) (proof : BPPlusProof F P) (w : F) (d : List F)
    (rounds NM : ℕ) (scalars : List F) : List F :=
  ((List.range NM).foldl (fun (scalars, iterYInv, iterYNM) i =>
    let gh := indexScalars ch.e rounds i (proof.r1 * ch.e1 * iterYInv) (proof.s1 * ch.e1)
    let scalars := scalars.modify (2 * i) (· + w * (gh.1 + ch.e1 ^ 2 * ch.z))
    let scalars := scalars.modify (2 * i + 1)
      (· + w * (gh.2 - ch.e1 ^ 2 * (d.getD i 0 * iterYNM + ch.z)))
    (scalars, iterYInv * ch.y⁻¹, iterYNM * ch.y⁻¹)) (scalars, 1, yNM rounds ch.y)).1

variable [AddCommGroup P] (bp : BPPlus P)

def BPPlus.addProof (w : F) (unpaddedC : List P) (proof : BPPlusProof F P)
    (ch : BPPlusChallenges F) (batch : BPPlusBatch F P) : BPPlusBatch F P :=
  let rounds := proof.L.length
  let M := paddedM unpaddedC.length
  let C := unpaddedC ++ List.replicate (M - unpaddedC.length) 0
  let zSquare := ch.z ^ 2
  let yNM1 := yNM rounds ch.y * ch.y
  let d := dVector (fun t => t + t) zSquare bp.N M
  let cScalars := (List.range M).map fun j =>
    (· * ch.z ^ 2)^[j] (-ch.e1 ^ 2 * zSquare * yNM1 * w)
  let scalars := batch.scalars ++ cScalars ++ [-w, -w * ch.e1, -w * ch.e1 ^ 2]
  { points := batch.points ++ C ++ [proof.B, proof.A1, proof.A] ++
      (List.range rounds).flatMap fun j => [proof.L.getD j 0, proof.R.getD j 0]
    scalars := addGenerators ch proof w d rounds (bp.N * M) scalars ++
      (List.range rounds).flatMap fun j =>
        [w * (-ch.e1 ^ 2 * ch.e.getD j 0 ^ 2), w * (-ch.e1 ^ 2 * (ch.e.getD j 0)⁻¹ ^ 2)]
    gScalar := batch.gScalar + w * (proof.r1 * ch.y * proof.s1 +
      ch.e1 ^ 2 * (yNM1 * ch.z * sumD bp.N M zSquare + (zSquare - ch.z) * sumY (bp.N * M) ch.y))
    hScalar := batch.hScalar + w * proof.d1 }

def BPPlus.sizesOk (unpaddedC : List P) (proof : BPPlusProof F P) : Bool :=
  unpaddedC.length != 0 && proof.R.length == proof.L.length &&
    log2 (bp.N * paddedM unpaddedC.length) == proof.L.length

def maxM (unpaddedC : List (List P)) : ℕ :=
  unpaddedC.foldl (fun m C => if m < paddedM C.length then paddedM C.length else m) 0

def BPPlus.emptyBatch (maxM : ℕ) : BPPlusBatch F P where
  points := (List.range (maxM * bp.N)).flatMap fun i => [bp.Gi.getD i 0, bp.Hi.getD i 0]
  scalars := (List.range (maxM * bp.N)).flatMap fun _ => [0, 0]
  gScalar := 0
  hScalar := 0

variable [DecidableEq F] (hash : Transcript F P → F) (weight : ℕ → F)

def BPPlus.processProof (batch : BPPlusBatch F P) (item : (List P × BPPlusProof F P) × ℕ) :
    Option (BPPlusBatch F P) :=
  (bp.challenges hash item.1.1 item.1.2).map fun ch =>
    bp.addProof (weight item.2) item.1.1 item.1.2 ch batch

variable [Module F P]

def BPPlus.finalElement (batch : BPPlusBatch F P) : P :=
  multiExponent (batch.points ++ [bp.G, bp.H]) (batch.scalars ++ [batch.gScalar, batch.hScalar])

/-- The element that the batch verification tests; `none` where it returns false before. The
scalar `weight k` is the nonzero random weight of proof `k`. -/
def BPPlus.batchElement (unpaddedC : List (List P)) (proofs : List (BPPlusProof F P)) : Option P :=
  if unpaddedC.length ≠ proofs.length then none
  else if !(unpaddedC.zip proofs).all fun pair => bp.sizesOk pair.1 pair.2 then none
  else if bp.Gi.length < maxM unpaddedC * bp.N ∨ bp.Hi.length < maxM unpaddedC * bp.N then none
  else ((unpaddedC.zip proofs).zipIdx.foldlM (bp.processProof hash weight)
    (bp.emptyBatch (maxM unpaddedC))).map bp.finalElement

def BPPlus.verifyBatch [DecidableEq P] (unpaddedC : List (List P))
    (proofs : List (BPPlusProof F P)) : Bool :=
  bp.batchElement hash weight unpaddedC proofs == some 0

def BPPlus.verify [DecidableEq P] (w : F) (unpaddedC : List P) (proof : BPPlusProof F P) : Bool :=
  bp.verifyBatch hash (fun _ => w) [unpaddedC] [proof]

end

end Firo.LibSpark
