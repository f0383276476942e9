import OrphanFiles.BigEndian
import OrphanFiles.Error
import OrphanFiles.Relation

/-!
The stored form of a list of pending files: their number in 8 bytes, then 20 bytes for each of them, namely
tablespace, database and relation in 4 bytes each, a flag for temporary relations, 3 zero bytes, and the
transaction in 4 bytes.
-/
namespace OrphanFiles.Snapshot

open BigEndian (digits word)

def countSize : Nat := 8
def entrySize : Nat := 20

def entryDigits (e : PendingFile) : List UInt8 :=
  digits 4 e.file.node.tablespace.toNat ++ digits 4 e.file.node.database.toNat ++
    digits 4 e.file.node.relation.toNat ++ digits 4 (if e.file.temporary then 0x1000000 else 0) ++
    digits 4 e.xid.number.toNat

def encode (entries : List PendingFile) : ByteArray :=
  ⟨(digits countSize entries.length ++ entries.flatMap entryDigits).toArray⟩

def encodedSize (count : Nat) : Nat := countSize + count * entrySize

def wordAt (src : ByteArray) (off : Nat) : UInt32 := UInt32.ofNat (word src off 4)

def entryAt (src : ByteArray) (off : Nat) : Except Damage PendingFile :=
  let flag := word src (off + 12) 1
  if flag > 1 then .error .snapshotFlag
  else if word src (off + 13) 3 ≠ 0 then .error .snapshotPadding
  else
    let node := ⟨wordAt src off, wordAt src (off + 4), wordAt src (off + 8)⟩
    .ok ⟨⟨node, flag = 1⟩, ⟨wordAt src (off + 16)⟩⟩

def decode (src : ByteArray) : Except Damage (List PendingFile) :=
  let count := word src 0 countSize
  if src.size < countSize then .error .snapshotShort
  else if src.size ≠ encodedSize count then .error .snapshotLength
  else (List.range count).mapM fun i => entryAt src (countSize + i * entrySize)

theorem lengthEntryDigits (e : PendingFile) : (entryDigits e).length = entrySize := by
  simp [entryDigits, entrySize]

theorem sizeEncode (entries : List PendingFile) : (encode entries).size = encodedSize entries.length := by
  have total : (entries.map fun e => (entryDigits e).length).sum = entries.length * entrySize := by
    simp only [lengthEntryDigits, List.map_const', List.sum_replicate_nat]
  simp [encode, ByteArray.size, encodedSize, List.length_flatMap, total]

end OrphanFiles.Snapshot
