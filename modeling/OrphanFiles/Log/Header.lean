import OrphanFiles.Error
import OrphanFiles.Log.Sealed

/-!
The first block of a log file: the letters `PDLW`, the version of the format in 2 bytes, 6 zero bytes, the
salt in 8 bytes, the position of the first record in 8 bytes, and the seal.
-/
namespace OrphanFiles.Log

open BigEndian (bytes word)

structure Header where
  salt : UInt64
  start : UInt64
  deriving DecidableEq, Repr

namespace Header

def magic : Nat := 0x50444C57
def version : Nat := 1

def encode (h : Header) : ByteArray :=
  Sealed.close (bytes 4 magic ++ bytes 2 version ++ bytes 6 0 ++ bytes 8 h.salt.toNat ++ bytes 8 h.start.toNat)

theorem sizeEncode (h : Header) : h.encode.size = Sealed.size := by
  simp [encode, Sealed.size]

def decode (src : ByteArray) : Except Damage Header :=
  let block := src.extract 0 Sealed.size
  if src.size < Sealed.size then .error .headerShort
  else if word block 0 4 ≠ magic then .error .magic
  else if word block 4 2 ≠ version then .error .version
  else if word block 6 6 ≠ 0 then .error .reservedHeader
  else if !Sealed.isIntact block then .error .headerChecksum
  else .ok ⟨UInt64.ofNat (word block 12 8), UInt64.ofNat (word block 20 8)⟩

end Header
end OrphanFiles.Log
