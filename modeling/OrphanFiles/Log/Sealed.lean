import OrphanFiles.BigEndian
import OrphanFiles.Crc32

/-!
Sealed blocks: 28 bytes of fields and the checksum of the whole block of 32 bytes, taken with the place of
the checksum zero.
-/
namespace OrphanFiles.Log.Sealed

open BigEndian (bytes word)

def size : Nat := 32
def fieldsSize : Nat := 28

def checksum (fields : ByteArray) : UInt32 := Crc32.ofChunks [fields, bytes 4 0]

def close (fields : ByteArray) : ByteArray := fields ++ bytes 4 (checksum fields).toNat

@[simp] theorem sizeClose (fields : ByteArray) : (close fields).size = fields.size + 4 := by
  simp [close]

def isIntact (block : ByteArray) : Bool :=
  word block fieldsSize 4 = (checksum (block.extract 0 fieldsSize)).toNat

end OrphanFiles.Log.Sealed
