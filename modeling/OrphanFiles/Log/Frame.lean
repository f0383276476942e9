import OrphanFiles.Log.Kind
import OrphanFiles.Log.Sealed

/-!
Records, and the frames that store them one after the other.  A frame is a sealed block and the payload; the
block holds the position in 8 bytes, the kind in 1, 3 zero bytes, the size of the payload in 4, the link
in 8 and the checksum of the payload in 4.  The link names the frame before, so a frame that was written
over, or left over from an older log, does not fit into the chain.
-/
namespace OrphanFiles.Log

open BigEndian (bytes word)

structure Record where
  lsn : UInt64
  kind : Kind
  payload : ByteArray

def maxPayload : Nat := 0x4000000

structure Frame where
  lsn : UInt64
  kind : UInt8
  size : Nat
  link : UInt64
  checksum : UInt32
  deriving DecidableEq, Repr

namespace Frame

def encode (f : Frame) : ByteArray :=
  Sealed.close (bytes 8 f.lsn.toNat ++ bytes 1 f.kind.toNat ++ bytes 3 0 ++ bytes 4 f.size ++
    bytes 8 f.link.toNat ++ bytes 4 f.checksum.toNat)

theorem sizeEncode (f : Frame) : f.encode.size = Sealed.size := by
  simp [encode, Sealed.size]

def decode? (block : ByteArray) : Option Frame :=
  if !Sealed.isIntact block then none
  else if word block 9 3 ≠ 0 then none
  else some {
    lsn := UInt64.ofNat (word block 0 8)
    kind := UInt8.ofNat (word block 8 1)
    size := word block 12 4
    link := UInt64.ofNat (word block 16 8)
    checksum := UInt32.ofNat (word block 24 4) }

def ofRecord (link : UInt64) (r : Record) : Frame where
  lsn := r.lsn
  kind := r.kind.code
  size := r.payload.size
  link := link
  checksum := Crc32.ofBytes r.payload

end Frame

def nextLink (link : UInt64) (block payload : ByteArray) : UInt64 :=
  UInt64.ofNat ((Sealed.size + payload.size) * 0x100000000 +
    (Crc32.ofChunks [bytes 8 link.toNat, block, payload]).toNat)

def firstLink : UInt64 := 0

end OrphanFiles.Log
