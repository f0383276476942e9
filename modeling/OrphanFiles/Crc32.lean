/-!
The reflected CRC-32 of IEEE 802.3 (polynomial `0xEDB88320`, register preset and inverted at the end).
The register is advanced a byte at a time through a table of the 256 possible low bytes.  Main statement:
an update is the fold of `feed` over the bytes, so chunks may be cut anywhere.
-/
namespace OrphanFiles

structure Crc32 where
  register : UInt32
  deriving DecidableEq, Repr

namespace Crc32

def shift (c : UInt32) : UInt32 := if c &&& 1 = 1 then (c >>> 1) ^^^ 0xEDB88320 else c >>> 1

def shiftByte (c : UInt32) : UInt32 := shift (shift (shift (shift (shift (shift (shift (shift c)))))))

def table : Vector UInt32 256 := Vector.ofFn fun i => shiftByte (UInt32.ofNat i)

def feed (c : UInt32) (b : UInt8) : UInt32 := table[(c.toUInt8 ^^^ b).toFin] ^^^ (c >>> 8)

def feedFrom (bytes : ByteArray) (i : Nat) (c : UInt32) : UInt32 :=
  if h : i < bytes.size then feedFrom bytes (i + 1) (feed c bytes[i]) else c

def empty : Crc32 := ⟨0xFFFFFFFF⟩

def reset (_ : Crc32) : Crc32 := empty

def update (c : Crc32) (bytes : ByteArray) : Crc32 := ⟨feedFrom bytes 0 c.register⟩
def value (c : Crc32) : UInt32 := c.register ^^^ 0xFFFFFFFF

def ofChunks (chunks : List ByteArray) : UInt32 := (chunks.foldl update empty).value

def ofBytes (bytes : ByteArray) : UInt32 := (empty.update bytes).value

theorem feedFromEqFold (bytes : ByteArray) (i : Nat) (c : UInt32) :
    feedFrom bytes i c = (bytes.data.toList.drop i).foldl feed c := by
  fun_induction feedFrom bytes i c with
  | case1 i c h ih =>
    have h' : i < bytes.data.toList.length := by simpa using h
    rw [ih, List.drop_eq_getElem_cons h', List.foldl_cons]
    rfl
  | case2 i c h =>
    have h' : bytes.data.toList.length ≤ i := by simpa using h
    rw [List.drop_eq_nil_of_le h', List.foldl_nil]

theorem updateEqFold (c : Crc32) (bytes : ByteArray) :
    c.update bytes = ⟨bytes.data.toList.foldl feed c.register⟩ := by
  rw [update, feedFromEqFold, List.drop_zero]

theorem updateAppend (c : Crc32) (a b : ByteArray) : c.update (a ++ b) = (c.update a).update b := by
  simp [updateEqFold, ByteArray.data_append]

end Crc32
end OrphanFiles
