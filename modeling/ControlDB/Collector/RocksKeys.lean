import ControlDB.Core.IndexIntegrity
import ControlDB.Python.CanonicalBinding

/-!
# Keys of the RocksDB columns

`storage/rocksdb_backend.py` packs numbers into eight bytes, with the most significant one first and
negative ones in two's complement, and puts `:` between the parts of a key.  A part without `:` can be
read off a key from either end.
-/

namespace ControlDB
namespace Collector

open Library Python

/-! ## Numbers -/

/-- `_seq_key`, or `none` where `struct.pack` raises. -/
def seqKey (n : Int) : Option Bytes :=
  if -2 ^ 63 ≤ n ∧ n < 2 ^ 63 then some (seqToKey (n % 2 ^ 64).toNat) else none

/-- `_key_seq`, or `none` where `struct.unpack` raises. -/
def keySeq (b : Bytes) : Option Int :=
  if b.length = 8 then
    some (if ofBigEndian b < 2 ^ 63 then (ofBigEndian b : Int) else ofBigEndian b - 2 ^ 64)
  else none

theorem seqKey_inj {m n : Int} {key : Bytes} (hm : seqKey m = some key) (hn : seqKey n = some key) :
    m = n := by
  unfold seqKey at hm hn
  split_ifs at hm hn with hmrange hnrange
  have hkeys : seqToKey (m % 2 ^ 64).toNat = seqToKey (n % 2 ^ 64).toNat := by
    rw [Option.some.inj hm, Option.some.inj hn]
  have hmod := toBigEndian_inj (by omega) (by omega) hkeys
  omega

theorem seqKey_natCast {n : Nat} (hn : n < 2 ^ 63) : seqKey n = some (seqToKey n) := by
  have hmod : ((n : Int) % 2 ^ 64).toNat = n := by omega
  rw [seqKey, if_pos (by omega), hmod]

theorem keySeq_seqToKey {n : Nat} (hn : n < 2 ^ 63) : keySeq (seqToKey n) = some (n : Int) := by
  have hread : ofBigEndian (seqToKey n) = n :=
    ofBigEndian_toBigEndian_of_lt (Nat.lt_trans hn (by decide))
  have hlength : (seqToKey n).length = 8 := length_toBigEndian 8 n
  rw [keySeq, if_pos hlength, hread, if_pos hn]

theorem seqToKey_lt_iff {m n : Nat} (hm : m < 2 ^ 63) (hn : n < 2 ^ 63) :
    seqToKey m < seqToKey n ↔ m < n :=
  toBigEndian_lt_iff (Nat.lt_trans hm (by decide)) (Nat.lt_trans hn (by decide))

/-! ## Parts -/

/-- `f"{id}:".encode()`. -/
def idPrefix (id : String) : Bytes :=
  encodeUtf8 (id ++ ":").toList

/-- `f"{org_id}:{project_id}:".encode()`. -/
def tenantPrefix (orgId projectId : String) : Bytes :=
  encodeUtf8 (orgId ++ ":" ++ projectId ++ ":").toList

theorem encodeUtf8_colon : encodeUtf8 ":".toList = bytes ":" := by decide

theorem colon_notMem {text : String} (h : ':' ∉ text.toList) :
    (0x3a : UInt8) ∉ encodeUtf8 text.toList :=
  fun hmem => h (mem_of_mem_encodeUtf8 (c := ':') (by decide) hmem)

theorem eq_of_encodeUtf8 {text text' : String} (h : encodeUtf8 text.toList = encodeUtf8 text'.toList) :
    text = text' :=
  String.toList_injective (encodeUtf8_injective h)

theorem idPrefix_eq (id : String) : idPrefix id = encodeUtf8 id.toList ++ bytes ":" := by
  rw [idPrefix, String.toList_append, encodeUtf8_append, encodeUtf8_colon]

theorem tenantPrefix_eq (orgId projectId : String) :
    tenantPrefix orgId projectId = idPrefix orgId ++ idPrefix projectId := by
  simp only [tenantPrefix, idPrefix, String.toList_append, encodeUtf8_append, List.append_assoc]

/-- An id without `:` at the start of a key is determined. -/
theorem idPrefix_append_inj {id id' : String} {x y : Bytes} (hid : ':' ∉ id.toList)
    (hid' : ':' ∉ id'.toList) (h : idPrefix id ++ x = idPrefix id' ++ y) : id = id' ∧ x = y := by
  rw [idPrefix_eq, idPrefix_eq] at h
  rcases colonFree_append_inj (colon_notMem hid) (colon_notMem hid') h with ⟨hbytes, hrest⟩
  exact ⟨eq_of_encodeUtf8 hbytes, hrest⟩

theorem tenantPrefix_append_inj {orgId projectId orgId' projectId' : String} {x y : Bytes}
    (horg : ':' ∉ orgId.toList) (horg' : ':' ∉ orgId'.toList) (hproject : ':' ∉ projectId.toList)
    (hproject' : ':' ∉ projectId'.toList)
    (h : tenantPrefix orgId projectId ++ x = tenantPrefix orgId' projectId' ++ y) :
    (orgId = orgId' ∧ projectId = projectId') ∧ x = y := by
  rw [tenantPrefix_eq, tenantPrefix_eq, List.append_assoc, List.append_assoc] at h
  rcases idPrefix_append_inj horg horg' h with ⟨rfl, hmore⟩
  rcases idPrefix_append_inj hproject hproject' hmore with ⟨rfl, hrest⟩
  exact ⟨⟨rfl, rfl⟩, hrest⟩

/-- An id without `:` at the end of a key is determined, if a `:` is in front of it. -/
theorem append_id_inj {id id' : String} {x y : Bytes} (hid : ':' ∉ id.toList)
    (hid' : ':' ∉ id'.toList)
    (h : x ++ encodeUtf8 (":" ++ id).toList = y ++ encodeUtf8 (":" ++ id').toList) : id = id' := by
  have hcolon : bytes ":" = [0x3a] := by decide
  have hsame : x ++ 0x3a :: encodeUtf8 id.toList = y ++ 0x3a :: encodeUtf8 id'.toList := by
    simpa only [String.toList_append, encodeUtf8_append, encodeUtf8_colon, hcolon,
      List.singleton_append] using h
  have hfree : SuffixFreeAfter (0x3a : UInt8) {v | 0x3a ∉ v} :=
    suffixFreeAfter_of_notMem fun _ hv => hv
  exact eq_of_encodeUtf8 (hfree (colon_notMem hid) (colon_notMem hid') hsame).1

end Collector
end ControlDB
