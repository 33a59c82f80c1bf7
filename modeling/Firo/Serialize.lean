import Firo.Lib.Bytes

/-! The parts of `serialize.h` that the Spark messages use: compact sizes, integers, byte vectors
and strings. A failed read throws in the source. -/
namespace Firo.Serialize

open Firo.Lib

def MAX_SIZE : ℕ := 0x02000000

def writeCompactSize (nSize : ℕ) : List UInt8 :=
  if nSize < 253 then leBytes 1 nSize
  else if nSize ≤ 0xffff then 253 :: leBytes 2 nSize
  else if nSize ≤ 0xffffffff then 254 :: leBytes 4 nSize
  else 255 :: leBytes 8 nSize

/-- A size of `k` bytes, which must not fit a shorter form. -/
def readCanonical (k least : ℕ) : Reader ℕ := do
  let nSizeRet ← Reader.le k
  if nSizeRet < least then failure else pure nSizeRet

def readSizeAfter (chSize : ℕ) : Reader ℕ :=
  if chSize < 253 then pure chSize
  else if chSize = 253 then readCanonical 2 253
  else if chSize = 254 then readCanonical 4 0x10000
  else readCanonical 8 0x100000000

def checkRange (rangeCheck : Bool) (nSizeRet : ℕ) : Reader ℕ :=
  if rangeCheck && decide (MAX_SIZE < nSizeRet) then failure else pure nSizeRet

def readCompactSize (rangeCheck : Bool) : Reader ℕ := do
  let chSize ← Reader.le 1
  let nSizeRet ← readSizeAfter chSize
  checkRange rangeCheck nSizeRet

def writeBytes (v : List UInt8) : List UInt8 :=
  writeCompactSize v.length ++ v

def readBytes : Reader (List UInt8) := do
  let nSize ← readCompactSize true
  Reader.bytes nSize

def writeUint64 (v : UInt64) : List UInt8 :=
  leBytes 8 v.toNat

def readUint64 : Reader UInt64 := do
  let v ← Reader.le 8
  pure (UInt64.ofNat v)

lemma reads_canonical {k least n : ℕ} (h : least ≤ n) (hn : n < 256 ^ k) :
    Reads (readCanonical k least) (leBytes k n) n := by
  have hcheck : Reads (if n < least then failure else pure n) [] n := by
    rw [if_neg (by omega)]
    exact Reads.pure n
  have hread := (Reads.le hn).bind (f := fun n => if n < least then failure else pure n) hcheck
  rwa [List.append_nil] at hread

lemma reads_size {rangeCheck : Bool} {ch n : ℕ} {enc} (hch : ch < 256)
    (hrange : rangeCheck = true → n ≤ MAX_SIZE) (h : Reads (readSizeAfter ch) enc n) :
    Reads (readCompactSize rangeCheck) (UInt8.ofNat ch :: enc) n := by
  have hcheck : Reads (checkRange rangeCheck n) [] n := by
    have hle : ¬(rangeCheck && decide (MAX_SIZE < n)) = true := by
      rw [Bool.and_eq_true, decide_eq_true_eq]
      rintro ⟨hcheck, hlt⟩
      exact absurd (hrange hcheck) (by omega)
    rw [checkRange, if_neg hle]
    exact Reads.pure n
  have hfirst : Reads (Reader.le 1) [UInt8.ofNat ch] ch := Reads.le hch
  have hread := hfirst.bind (f := fun ch => readSizeAfter ch >>= checkRange rangeCheck)
    (h.bind hcheck)
  rwa [List.append_nil] at hread

lemma reads_compactSize {rangeCheck : Bool} {n : ℕ} (hn : n < 2 ^ 64)
    (hrange : rangeCheck = true → n ≤ MAX_SIZE) :
    Reads (readCompactSize rangeCheck) (writeCompactSize n) n := by
  unfold writeCompactSize
  split_ifs with h1 h2 h4
  · apply reads_size (by omega) hrange
    rw [readSizeAfter, if_pos h1]
    exact Reads.pure n
  · exact reads_size (by omega : 253 < 256) hrange (reads_canonical (by omega) (by omega))
  · exact reads_size (by omega : 254 < 256) hrange (reads_canonical (by omega) (by omega))
  · exact reads_size (by omega : 255 < 256) hrange (reads_canonical (by omega) (by omega))

lemma reads_bytes {v : List UInt8} (h : v.length ≤ MAX_SIZE) :
    Reads readBytes (writeBytes v) v := by
  have hsize : v.length < 2 ^ 64 := lt_of_le_of_lt h (by decide)
  exact (reads_compactSize hsize fun _ => h).bind (Reads.bytes rfl)

lemma reads_uint64 (v) : Reads readUint64 (writeUint64 v) v := by
  have hread := (Reads.le (k := 8) v.toNat_lt).map UInt64.ofNat
  rwa [UInt64.ofNat_toNat] at hread

end Firo.Serialize
