import ControlDB.Library.BigEndian

/-!
# Machine words as bytes

Words of 32 and 64 bits written big-endian, and the checksum that zlib computes.
-/

namespace ControlDB
namespace Library

def writeBe64 (v : UInt64) : List UInt8 :=
  toBigEndian 8 v.toNat

/-- Of the first eight bytes. -/
def readBe64 (b : List UInt8) : UInt64 :=
  UInt64.ofNat (ofBigEndian (b.take 8))

def writeBe32 (v : UInt32) : List UInt8 :=
  toBigEndian 4 v.toNat

/-- Of the first four bytes. -/
def readBe32 (b : List UInt8) : UInt32 :=
  UInt32.ofNat (ofBigEndian (b.take 4))

@[simp] theorem length_writeBe64 (v : UInt64) : (writeBe64 v).length = 8 :=
  length_toBigEndian 8 _

@[simp] theorem length_writeBe32 (v : UInt32) : (writeBe32 v).length = 4 :=
  length_toBigEndian 4 _

@[simp] theorem readBe64_writeBe64_append (v : UInt64) (l : List UInt8) :
    readBe64 (writeBe64 v ++ l) = v := by
  have hlt : v.toNat < 256 ^ 8 := v.toNat_lt
  rw [readBe64, List.take_left' (length_writeBe64 v), writeBe64, ofBigEndian_toBigEndian_of_lt hlt,
    UInt64.ofNat_toNat]

@[simp] theorem readBe32_writeBe32_append (v : UInt32) (l : List UInt8) :
    readBe32 (writeBe32 v ++ l) = v := by
  have hlt : v.toNat < 256 ^ 4 := v.toNat_lt
  rw [readBe32, List.take_left' (length_writeBe32 v), writeBe32, ofBigEndian_toBigEndian_of_lt hlt,
    UInt32.ofNat_toNat]

@[simp] theorem readBe32_writeBe32 (v : UInt32) : readBe32 (writeBe32 v) = v := by
  simpa using readBe32_writeBe32_append v []

/-- A word that was read is written as the bytes it was read from. -/
theorem writeBe64_readBe64_append {a : List UInt8} (h : a.length = 8) (l : List UInt8) :
    writeBe64 (readBe64 (a ++ l)) = a := by
  have hlt : ofBigEndian a < 2 ^ 64 := by
    have := ofBigEndian_lt a
    rwa [h] at this
  rw [readBe64, List.take_left' h, writeBe64, UInt64.toNat_ofNat_of_lt' hlt, ← h,
    toBigEndian_ofBigEndian]

theorem writeBe32_readBe32 {a : List UInt8} (h : a.length = 4) : writeBe32 (readBe32 a) = a := by
  have hlt : ofBigEndian a < 2 ^ 32 := by
    have := ofBigEndian_lt a
    rwa [h] at this
  rw [readBe32, List.take_of_length_le (Nat.le_of_eq h), writeBe32, UInt32.toNat_ofNat_of_lt' hlt, ← h,
    toBigEndian_ofBigEndian]

/-- A counter of 64 bits that does not wrap moves on. -/
theorem lt_add_one_of_fits {n : UInt64} (h : n.toNat + 1 < 2 ^ 64) : n < n + 1 := by
  have hnext : (n + 1).toNat = n.toNat + 1 := by
    rw [UInt64.toNat_add]
    exact Nat.mod_eq_of_lt h
  rw [UInt64.lt_iff_toNat_lt, hnext]
  exact Nat.lt_succ_self _

/-- One bit of the division by the reflected polynomial. -/
def crcShift (c : UInt32) : UInt32 :=
  if c &&& 1 = 1 then (c >>> 1) ^^^ 0xEDB88320 else c >>> 1

/-- CRC-32 as zlib's `crc32(0, data, len)` gives it. -/
def crc32 (data : List UInt8) : UInt32 :=
  (data.foldl (fun c b => Nat.repeat crcShift 8 (c ^^^ b.toUInt32)) 0xFFFFFFFF) ^^^ 0xFFFFFFFF

end Library
end ControlDB
