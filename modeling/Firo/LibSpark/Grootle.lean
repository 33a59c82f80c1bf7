import Firo.LibSpark.Primitives

/-! The parallel one-out-of-many proof of `grootle.cpp`: a prover that knows the discrete logarithms
of one offset commitment in each of two lists, and the batch verifier. The random scalars of both
are arguments. -/
namespace Firo.LibSpark

variable {F G : Type}

/-- The parameters, as the constructor of `Grootle` checks them. -/
structure Grootle (G : Type) where
  H : G
  Gi : List G
  Hi : List G
  n : ℕ
  m : ℕ
  one_lt_n : 1 < n
  one_lt_m : 1 < m
  length_Gi : Gi.length = n * m
  length_Hi : Hi.length = n * m

structure GrootleProof (F G : Type) where
  A : G
  B : G
  X : List G
  X1 : List G
  f : List F
  z : F
  zS : F
  zV : F

instance [Zero F] [Zero G] : Inhabited (GrootleProof F G) :=
  ⟨⟨0, 0, [], [], [], 0, 0, 0⟩⟩

def convertToSigma [Zero F] [One F] (n : ℕ) : ℕ → ℕ → List F
  | _, 0 => []
  | num, m + 1 =>
    (List.range n).map (fun i => if i = num % n then 1 else 0) ++ convertToSigma n (num / n) m

def decompose (num n m : ℕ) : List ℕ :=
  (Nat.digits n num).takeD m 0

variable [Field F] [DecidableEq F] [AddCommGroup G] [DecidableEq G] [Module F G]

def vectorCommit (Gi Hi : List G) (a b : List F) (H : G) (r : F) : G :=
  multiExponent Gi a + multiExponent Hi b + r • H

def convolve (x₁ x₀ : F) (coefficients : List F) : List F :=
  x₀ * coefficients.headD 0 ::
    (List.zipWith (fun c c' => x₀ * c + x₁ * c') coefficients.tail coefficients ++
      [x₁ * coefficients.getLastD 0])

def fMatrix (proof : GrootleProof F G) (x : F) (n m : ℕ) : List F :=
  let k := n - 1
  rows m n fun j i =>
    if i = 0 then x - ((List.range k).map fun i => proof.f.getD (j * k + i) 0).sum
    else proof.f.getD (j * k + (i - 1)) 0

def computeFs (proof : GrootleProof F G) (x : F) (n m : ℕ) : Option (List F) :=
  if x ∈ proof.f then none else some (fMatrix proof x n m)

/-- The scalars of the commitments, the place of the next one, and the sum of those
written. -/
structure BatchFis (F : Type) where
  fSum : F
  scalars : List F
  ptr : ℕ

/-- Run through the indices in order, the highest digit first, and add the product of the
matrix entries of each to the scalar of its commitment. -/
def computeBatchFis (f : List F) (y : F) (startPtr endPtr n : ℕ) : ℕ → F → BatchFis F → BatchFis F
  | 0, fi, s =>
    if startPtr ≤ s.ptr ∧ s.ptr < endPtr then
      ⟨s.fSum + fi, s.scalars.modify s.ptr (· + fi * y), s.ptr + 1⟩
    else s
  | j + 1, fi, s =>
    (List.range n).foldl (fun s i =>
      computeBatchFis f y startPtr endPtr n j (f.getD (j * n + i) 0 * fi) s) s

structure GrootleRandom (F : Type) where
  a : ℕ → F
  rA : F
  rB : F
  rhoS : ℕ → F
  rhoV : ℕ → F

def maskMatrix (rand : ℕ → F) (n m : ℕ) : List F :=
  rows m n fun j i =>
    if i = 0 then (List.range' 1 (n - 1)).foldl (fun s i => s - rand (j * n + i)) 0
    else rand (j * n + i)

def indexCoefficients (sigma a : List F) (n m i : ℕ) : List F :=
  let I := decompose i n m
  (List.range' 1 (m - 1)).foldl (fun coefficients j =>
      convolve (sigma.getD (j * n + I.getD j 0) 0) (a.getD (j * n + I.getD j 0) 0) coefficients)
    [a.getD (I.getD 0 0) 0, sigma.getD (I.getD 0 0) 0]

/-- The product parts of the polynomial of `size - 1`, from the highest digit down, and the
polynomial itself. -/
def partialProducts (sigma a : List F) (n : ℕ) (I : List ℕ) : ℕ → List (List F) × List F →
    List (List F) × List F
  | 0, acc => acc
  | j + 1, acc =>
    partialProducts sigma a n I j (acc.1 ++ [acc.2],
      convolve (sigma.getD (j * n + I.getD j 0) 0) (a.getD (j * n + I.getD j 0) 0) acc.2)

def positionPolynomial (a : List F) (n m : ℕ) (I lj : List ℕ) (parts : List (List F)) (j : ℕ) :
    List F :=
  let aSum := ((List.range' (I.getD j 0 + 1) (n - (I.getD j 0 + 1))).map
    fun i => a.getD (j * n + i) 0).sum
  let xSum := if I.getD j 0 + 1 ≤ lj.getD j 0 then 1 else 0
  convolve xSum aSum (parts.getD (m - j - 1) [])

/-- The coefficients of the sum of the polynomials from `size - 1` on: multiply the polynomial
of each position by `x ^ j` and add it to the result. -/
def tailCoefficients (sigma a : List F) (n m size l : ℕ) : List F :=
  let I := decompose (size - 1) n m
  let lj := decompose l n m
  let parts := partialProducts sigma a n I m ([], [1])
  (List.range m).foldl (fun sum j =>
      let polynomial := positionPolynomial a n m I lj parts.1 j
      sum.mapIdx fun t c => if j ≤ t ∧ t < m then c + polynomial.getD (t - j) 0 else c)
    parts.2

def convolutionTerms (sigma a : List F) (n m size l : ℕ) : List (List F) :=
  (List.range (size - 1)).map (indexCoefficients sigma a n m) ++
    [tailCoefficients sigma a n m size l]

namespace Grootle

variable (g : Grootle G) (hash : Transcript F G → F)

def transcript (root : List UInt8) (S1 V1 A B : G) (X X1 : List G) : Transcript F G :=
  ({ domain := "GROOTLE_V1" } : Transcript F G)
    |>.add "H" (.point g.H)
    |>.add "Gi" (.points g.Gi)
    |>.add "Hi" (.points g.Hi)
    |>.add "n" (.scalar g.n)
    |>.add "m" (.scalar g.m)
    |>.add "root" (.data root)
    |>.add "S1" (.point S1)
    |>.add "V1" (.point V1)
    |>.add "A" (.point A)
    |>.add "B" (.point B)
    |>.add "X" (.points X)
    |>.add "X1" (.points X1)

def challenge (root : List UInt8) (S1 V1 A B : G) (X X1 : List G) : F :=
  ((g.transcript root S1 V1 A B X X1).challenge hash "x").1

def challengePowers (x : F) : List F :=
  (List.range g.m).map fun j => x ^ j

/-- Commitments to the coefficients of each degree, blinded by `H`. -/
def maskedSums (offset : List G) (P : List (List F)) (rho : ℕ → F) : List G :=
  (List.range g.m).map fun j =>
    multiExponent offset (P.map fun coefficients => coefficients.getD j 0) + rho j • g.H

/-- What the prover commits to before the challenge: `A`, `B`, `X` and `X1`. -/
structure Commitments (G : Type) where
  A : G
  B : G
  X : List G
  X1 : List G

def commitments (rand : GrootleRandom F) (l size : ℕ) (offsetS offsetV : List G) : Commitments G :=
  let a := maskMatrix rand.a g.n g.m
  let d := a.map fun a => -(a ^ 2)
  let sigma := convertToSigma g.n l g.m
  let c := List.zipWith (fun a sigma => a * (1 - TWO * sigma)) a sigma
  let P := convolutionTerms sigma a g.n g.m size l
  { A := vectorCommit g.Gi g.Hi a d g.H rand.rA
    B := vectorCommit g.Gi g.Hi sigma c g.H rand.rB
    X := g.maskedSums offsetS P rand.rhoS
    X1 := g.maskedSums offsetV P rand.rhoV }

def respond (rand : GrootleRandom F) (l : ℕ) (s v x : F) (com : Commitments G) : GrootleProof F G :=
  let a := maskMatrix rand.a g.n g.m
  let sigma : List F := convertToSigma g.n l g.m
  { A := com.A
    B := com.B
    X := com.X
    X1 := com.X1
    f := (List.range g.m).flatMap fun j => (List.range' 1 (g.n - 1)).map fun i =>
      sigma.getD (j * g.n + i) 0 * x + a.getD (j * g.n + i) 0
    z := rand.rB * x + rand.rA
    zS := s * x ^ g.m - ((List.range g.m).map fun j => rand.rhoS j * x ^ j).sum
    zV := v * x ^ g.m - ((List.range g.m).map fun j => rand.rhoV j * x ^ j).sum }

def prove (rand : GrootleRandom F) (l : ℕ) (s : F) (S : List G) (S1 : G) (v : F) (V : List G)
    (V1 : G) (root : List UInt8) : Except String (GrootleProof F G) :=
  let size := S.length
  if size ≤ l then .error "Bad Grootle secret index!"
  else if V.length ≠ size then .error "Bad Grootle input vector sizes!"
  else if g.n ^ g.m < size ∨ size = 0 then .error "Bad Grootle size parameter!"
  else if S.getD l 0 + -S1 ≠ s • g.H then .error "Bad Grootle proof statement!"
  else if V.getD l 0 + -V1 ≠ v • g.H then .error "Bad Grootle proof statement!"
  else
    let offsetS := S.map (· + -S1)
    let offsetV := V.map (· + -V1)
    if 0 ∈ offsetS ∨ 0 ∈ offsetV then .error "Commitment offset should not be zero"
    else
      let com := g.commitments rand l size offsetS offsetV
      let x := g.challenge hash root S1 V1 com.A com.B com.X com.X1
      if 0 ∈ g.challengePowers x then .error "Challenge power is zero"
      else .ok (g.respond rand l s v x com)

/-- The scalars of the common elements, and the elements of the proofs with their scalars. -/
structure BatchState (F G : Type) where
  hScalar : F
  giScalars : List F
  hiScalars : List F
  commitScalars : List F
  points : List G
  scalars : List F

def tailProduct (f : List F) (x : F) (n m : ℕ) (I : List ℕ) : F :=
  -- `pow` and `f_part_product`, from the highest digit down
  let acc : F × List F := (List.range m).reverse.foldl
    (fun acc j => (acc.1 * f.getD (j * n + I.getD j 0) 0, acc.2 ++ [acc.1])) (1, [])
  ((List.range m).foldl (fun (p : F × F) j =>
      let fiSum := ((List.range' (I.getD j 0 + 1) (n - (I.getD j 0 + 1))).map
        fun i => f.getD (j * n + i) 0).sum
      (p.1 + fiSum * p.2 * acc.2.getD (m - j - 1) 0, p.2 * x)) (acc.1, 1)).1

/-- The scalars that a proof adds to those of the commitments, and `f_sum`. -/
def addCommitScalars (f : List F) (x w2 : F) (n m size : ℕ) (commitScalars : List F) : List F × F :=
  let ptr := commitScalars.length - size
  let fis := computeBatchFis f w2 ptr (ptr + size - 1) n m 1 ⟨0, commitScalars, ptr⟩
  let pow := tailProduct f x n m (decompose (size - 1) n m)
  (fis.scalars.modify (commitScalars.length - 1) (· + pow * w2), fis.fSum + pow)

def addProof (bindWeight w1 w2 x : F) (f : List F) (S1 V1 : G) (size : ℕ)
    (proof : GrootleProof F G) (st : BatchState F G) : BatchState F G :=
  let (commitScalars, fSum) := addCommitScalars f x w2 g.n g.m size st.commitScalars
  { hScalar := st.hScalar + proof.z * w1 + (proof.zS + bindWeight * proof.zV) * -w2
    giScalars := List.zipWith (fun s f => s + f * w1) st.giScalars f
    hiScalars := List.zipWith (fun s f => s + f * (x - f) * w1) st.hiScalars f
    commitScalars := commitScalars
    points := st.points ++ ([proof.A, proof.B, S1 + bindWeight • V1] ++
      (List.range g.m).map fun j => proof.X.getD j 0 + bindWeight • proof.X1.getD j 0)
    scalars := st.scalars ++ ([-w1, -x * w1, fSum * -w2] ++
      (g.challengePowers x).map fun p => -p * w2) }

def processProof (bindWeight w1 w2 : F) (S1 V1 : G) (root : List UInt8) (size : ℕ)
    (proof : GrootleProof F G) (st : BatchState F G) : Option (BatchState F G) :=
  let x := g.challenge hash root S1 V1 proof.A proof.B proof.X proof.X1
  match computeFs proof x g.n g.m with
  | none => none
  | some f =>
    if 0 ∈ g.challengePowers x then none
    else some (g.addProof bindWeight w1 w2 x f S1 V1 size proof st)

def structureOk (S S1 V V1 : List G) (roots : List (List UInt8)) (sizes : List ℕ)
    (proofs : List (GrootleProof F G)) : Bool :=
  !S.isEmpty && decide (S.length ≤ g.n ^ g.m) && S.length == V.length &&
    S1.length == proofs.length && V1.length == proofs.length &&
    sizes.length == proofs.length && roots.length == proofs.length &&
    proofs.all fun proof => proof.X.length == g.m && proof.X1.length == g.m &&
      proof.f.length == g.m * (g.n - 1)

def emptyBatch (k : ℕ) : BatchState F G :=
  ⟨0, List.replicate (g.n * g.m) 0, List.replicate (g.n * g.m) 0, List.replicate k 0, [], []⟩

def finalElement (commits : List G) (st : BatchState F G) : G :=
  let points := st.points ++ ([g.H] ++
    ((List.range (g.m * g.n)).flatMap (fun i => [g.Gi.getD i 0, g.Hi.getD i 0]) ++ commits))
  let scalars := st.scalars ++ ([st.hScalar] ++ ((List.range (g.m * g.n)).flatMap
      (fun i => [st.giScalars.getD i 0, st.hiScalars.getD i 0]) ++ st.commitScalars))
  multiExponent points scalars

variable (bindWeight : F) (weights : ℕ → F × F)

/-- The element that `verify` tests for the identity; `none` if it returns before. The
weights of proof `t` are `weights t`. -/
def batchElement (S S1 V V1 : List G) (roots : List (List UInt8)) (sizes : List ℕ)
    (proofs : List (GrootleProof F G)) : Option G :=
  if g.structureOk S S1 V V1 roots sizes proofs then
    let commits := List.zipWith (fun s v => s + bindWeight • v) S V
    let st : Option (BatchState F G) := (List.range proofs.length).foldlM (fun st t =>
        g.processProof hash bindWeight (weights t).1 (weights t).2 (S1.getD t 0) (V1.getD t 0)
          (roots.getD t []) (sizes.getD t 0) (proofs.getD t default) st)
      (g.emptyBatch commits.length)
    st.map (g.finalElement commits)
  else none

def verifyBatch (S S1 V V1 : List G)
    (roots : List (List UInt8)) (sizes : List ℕ) (proofs : List (GrootleProof F G)) : Bool :=
  g.batchElement hash bindWeight weights S S1 V V1 roots sizes proofs == some 0

def verify (S : List G) (S1 : G) (V : List G) (V1 : G)
    (root : List UInt8) (size : ℕ) (proof : GrootleProof F G) : Bool :=
  g.verifyBatch hash bindWeight weights S [S1] V [V1] [root] [size] [proof]

end Grootle

end Firo.LibSpark
