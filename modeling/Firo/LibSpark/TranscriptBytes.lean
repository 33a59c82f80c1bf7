import Firo.LibSpark.Address
import Firo.LibSpark.Primitives
import Firo.Serialize

/-! `Transcript` feeds a hash with flags, sizes, labels and data, one after the other. The stream
determines the operations that wrote it, so a challenge is bound to all that was included before it.
-/
namespace Firo.LibSpark

open Firo.Lib Firo.Serialize

def FLAG_DOMAIN : UInt8 := 0
def FLAG_DATA : UInt8 := 1
def FLAG_VECTOR : UInt8 := 2
def FLAG_CHALLENGE : UInt8 := 3

def HASH_MODE_TRANSCRIPT : UInt8 := 0

/-- An operation on a transcript; scalars and group elements are data in their encodings. A
challenge leaves its counter in the state. -/
inductive TranscriptOp where
  | domain (label : List UInt8)
  | data (label data : List UInt8)
  | vector (label : List UInt8) (data : List (List UInt8))
  | challenge (label : List UInt8) (counter : UInt8)
deriving DecidableEq, Repr

namespace TranscriptOp

def size (n : ℕ) : List UInt8 := (leBytes 32 n).reverse

def includeData (data : List UInt8) : List UInt8 := size data.length ++ data

def bytes : TranscriptOp → List UInt8
  | .domain label => FLAG_DOMAIN :: includeData label
  | .data label d => FLAG_DATA :: (includeData label ++ includeData d)
  | .vector label ds =>
    FLAG_VECTOR :: (size ds.length ++ (includeData label ++ ds.flatMap includeData))
  | .challenge label counter => FLAG_CHALLENGE :: (includeData label ++ [counter])

def Sized : TranscriptOp → Prop
  | .domain label => label.length < 2 ^ 64
  | .data label d => label.length < 2 ^ 64 ∧ d.length < 2 ^ 64
  | .vector label ds => label.length < 2 ^ 64 ∧ ds.length < 2 ^ 64 ∧ ∀ d ∈ ds, d.length < 2 ^ 64
  | .challenge label _ => label.length < 2 ^ 64

/-- What is hashed after the construction with a domain and the operations. -/
def stream (label : List UInt8) (ops : List TranscriptOp) : List UInt8 :=
  F4Grumble.bytes "SPARK" ++ HASH_MODE_TRANSCRIPT :: (domain label :: ops).flatMap bytes

def readSize : Reader ℕ := do
  let b ← Reader.bytes 32
  pure (ofLeBytes b.reverse)

def readData : Reader (List UInt8) := do
  let n ← readSize
  Reader.bytes n

def readDomain : Reader TranscriptOp := do
  let label ← readData
  pure (domain label)

def readLabelled : Reader TranscriptOp := do
  let label ← readData
  let d ← readData
  pure (data label d)

def readVector : Reader TranscriptOp := do
  let n ← readSize
  let label ← readData
  let ds ← Reader.times readData n
  pure (vector label ds)

def readChallenge : Reader TranscriptOp := do
  let label ← readData
  let counter ← Reader.bytes 1
  pure (challenge label (counter.headD 0))

def readAfter (flag : List UInt8) : Reader TranscriptOp :=
  if flag = [FLAG_DOMAIN] then readDomain
  else if flag = [FLAG_DATA] then readLabelled
  else if flag = [FLAG_VECTOR] then readVector
  else readChallenge

def read : Reader TranscriptOp := do
  let flag ← Reader.bytes 1
  readAfter flag

lemma reads_size {n : ℕ} (hn : n < 2 ^ 64) : Reads readSize (size n) n := by
  have hlength : (size n).length = 32 := by simp [size]
  have hvalue : ofLeBytes (size n).reverse = n := by
    rw [size, List.reverse_reverse]
    exact ofLeBytes_leBytes (hn.trans (by norm_num))
  have hread := (Reads.bytes hlength).map fun b => ofLeBytes b.reverse
  rwa [hvalue] at hread

lemma reads_includeData {d : List UInt8} (hd : d.length < 2 ^ 64) :
    Reads readData (includeData d) d :=
  (reads_size hd).bind (Reads.bytes rfl)

lemma reads_bytes {op : TranscriptOp} (h : op.Sized) : Reads read op.bytes op := by
  -- the flag is the first byte and selects how the rest is read
  have hflag : ∀ {flag : UInt8} {rest : List UInt8} {op : TranscriptOp},
      Reads (readAfter [flag]) rest op → Reads read (flag :: rest) op := by
    intro flag rest op hrest
    exact (Reads.bytes (rfl : [flag].length = 1)).bind hrest
  cases op with
  | domain label =>
    apply hflag
    rw [readAfter, if_pos rfl]
    exact (reads_includeData h).map domain
  | data label d =>
    apply hflag
    rw [readAfter, if_neg (by decide), if_pos rfl]
    exact (reads_includeData h.1).bind ((reads_includeData h.2).map (data label))
  | vector label ds =>
    obtain ⟨hlabel, hcount, hds⟩ := h
    apply hflag
    rw [readAfter, if_neg (by decide), if_neg (by decide), if_pos rfl]
    have htimes := Reads.times fun d hmem => reads_includeData (hds d hmem)
    exact (reads_size hcount).bind ((reads_includeData hlabel).bind (htimes.map (vector label)))
  | challenge label counter =>
    apply hflag
    rw [readAfter, if_neg (by decide), if_neg (by decide), if_neg (by decide)]
    have hcounter := Reads.bytes (rfl : [counter].length = 1)
    exact (reads_includeData h).bind (hcounter.map fun c => challenge label (c.headD 0))

lemma stream_inj {label label' : List UInt8} {ops ops' : List TranscriptOp}
    (hlabel : label.length < 2 ^ 64) (hlabel' : label'.length < 2 ^ 64)
    (hops : ∀ op ∈ ops, op.Sized) (hops' : ∀ op ∈ ops', op.Sized)
    (h : stream label ops = stream label' ops') : label = label' ∧ ops = ops' := by
  have hne : ∀ op : TranscriptOp, op.bytes ≠ [] := by
    intro op
    cases op <;> simp [bytes]
  have hreads : ∀ {label : List UInt8} {ops : List TranscriptOp}, label.length < 2 ^ 64 →
      (∀ op ∈ ops, op.Sized) →
      ∀ op ∈ domain label :: ops, Reads read op.bytes op ∧ op.bytes ≠ [] := by
    intro label ops hlabel hops op hop
    rcases List.mem_cons.mp hop with rfl | hop
    · exact ⟨reads_bytes hlabel, hne _⟩
    · exact ⟨reads_bytes (hops op hop), hne op⟩
  have htail := List.append_cancel_left h
  rw [List.cons.injEq] at htail
  have heq := Reads.flatMap_inj (hreads hlabel hops) (hreads hlabel' hops') htail.2
  rw [List.cons.injEq, domain.injEq] at heq
  exact heq

end TranscriptOp

section

variable {F G : Type} (serializeScalar : F → List UInt8) (serializePoint : G → List UInt8)

def TranscriptItem.op (label : String) (counter : UInt8) : TranscriptItem F G → TranscriptOp
  | .scalar s => .data (F4Grumble.bytes label) (serializeScalar s)
  | .scalars ss => .vector (F4Grumble.bytes label) (ss.map serializeScalar)
  | .point g => .data (F4Grumble.bytes label) (serializePoint g)
  | .points gs => .vector (F4Grumble.bytes label) (gs.map serializePoint)
  | .data bytes => .data (F4Grumble.bytes label) bytes
  | .datas vectors => .vector (F4Grumble.bytes label) vectors
  | .challenge => .challenge (F4Grumble.bytes label) counter

namespace Transcript

/-- The operations on items, with the counters of the challenges by position. -/
def ops (counters : ℕ → UInt8) (items : List (String × TranscriptItem F G)) : List TranscriptOp :=
  items.mapIdx fun i item => item.2.op serializeScalar serializePoint item.1 (counters i)

lemma ops_cons (counters : ℕ → UInt8) (item : String × TranscriptItem F G) (items) :
    ops serializeScalar serializePoint counters (item :: items) =
      item.2.op serializeScalar serializePoint item.1 (counters 0) ::
        ops serializeScalar serializePoint (fun i => counters (i + 1)) items :=
  List.mapIdx_cons ..

def stream (counters : ℕ → UInt8) (t : Transcript F G) : List UInt8 :=
  TranscriptOp.stream (F4Grumble.bytes t.domain)
    (ops serializeScalar serializePoint counters t.items)

variable (sha512 : List UInt8 → List UInt8) (isScalar : List UInt8 → Bool)

/-- The first counter whose hash is a scalar; without one `challenge` does not return. -/
def findCounter (state : List UInt8) : Option UInt8 :=
  ((List.range 256).map UInt8.ofNat).find? fun counter => isScalar (sha512 (state ++ [counter]))

def feed : List (String × TranscriptItem F G) → List UInt8 → Option (List UInt8)
  | [], state => some state
  | (label, .challenge) :: items, state =>
    let state := state ++ FLAG_CHALLENGE :: TranscriptOp.includeData (F4Grumble.bytes label)
    match findCounter sha512 isScalar state with
    | none => none
    | some counter => feed items (state ++ [counter])
  | (label, item) :: items, state =>
    feed items (state ++ (item.op serializeScalar serializePoint label 0).bytes)

/-- What the items add to the hashed bytes is the stream of their operations, with the counters at
which the challenges were found. -/
lemma feed_eq_some {items : List (String × TranscriptItem F G)} {state fed : List UInt8}
    (h : feed serializeScalar serializePoint sha512 isScalar items state = some fed) :
    ∃ counters, fed = state ++
      (ops serializeScalar serializePoint counters items).flatMap TranscriptOp.bytes := by
  fun_induction feed with
  | case1 state => exact ⟨fun _ => 0, by simp [ops, Option.some.inj h]⟩
  | case2 => cases h
  | case3 label items state state' counter hcounter ih =>
    obtain ⟨counters, rfl⟩ := ih h
    refine ⟨fun i => i.casesOn counter counters, ?_⟩
    rw [ops_cons, List.flatMap_cons, TranscriptItem.op, TranscriptOp.bytes]
    simp [state']
  | case4 label item items state hitem ih =>
    obtain ⟨counters, rfl⟩ := ih h
    refine ⟨fun i => i.casesOn 0 counters, ?_⟩
    rw [ops_cons, List.flatMap_cons, List.append_assoc]
    rfl

end Transcript

end

end Firo.LibSpark
