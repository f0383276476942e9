import OrphanFiles.Content
import OrphanFiles.Proofs.Frames

/-!
Blocks have one written form.  A block that is read, as the header of a log or as that of a frame, is byte for byte
what is written for the fields that were read.
-/
namespace OrphanFiles

namespace BigEndian

theorem valueBound (ds : List UInt8) : value ds < Nat.pow 256 ds.length := by
  have same := valueDigits ds.length (value ds)
  rw [digitsValue] at same
  rw [same]
  exact Nat.mod_lt _ (Nat.pow_pos (by decide))

theorem wordBound (src : ByteArray) (off width : Nat) : word src off width < Nat.pow 256 width := by
  have bound := valueBound ((src.data.toList.drop off).take width)
  rw [← wordEqValue] at bound
  exact Nat.lt_of_lt_of_le bound (Nat.pow_le_pow_right (by decide) (List.length_take_le ..))

theorem digitsWord {src : ByteArray} {off width : Nat} (inside : off + width ≤ src.size) :
    digits width (word src off width) = (src.data.toList.drop off).take width := by
  have length : ((src.data.toList.drop off).take width).length = width := by
    rw [List.length_take, List.length_drop, lengthList]
    omega
  have same := digitsValue ((src.data.toList.drop off).take width)
  rwa [length, ← wordEqValue] at same

theorem bytesWord {src : ByteArray} {off width : Nat} (inside : off + width ≤ src.size) :
    bytes width (word src off width) = src.extract off (off + width) := by
  apply listInj
  rw [listBytes, digitsWord inside, listExtract, Nat.add_sub_cancel_left]

theorem joinPieces (src : ByteArray) {i j k : Nat} (first : i ≤ j) (second : j ≤ k) :
    src.extract i j ++ src.extract j k = src.extract i k := by
  rw [ByteArray.extract_append_extract, Nat.min_eq_left first, Nat.max_eq_right second]

theorem middlePiece (front piece back : ByteArray) :
    (front ++ piece ++ back).extract front.size (front.size + piece.size) = piece := by
  apply listInj
  rw [listExtract, Nat.add_sub_cancel_left, listAppend, listAppend, List.append_assoc, ← lengthList front,
    List.drop_left, ← lengthList piece, List.take_left]

end BigEndian

namespace Log

open BigEndian

theorem Sealed.closeIntact {block : ByteArray} (sized : block.size = size) (intact : isIntact block = true) :
    close (block.extract 0 fieldsSize) = block := by
  have sum : word block fieldsSize 4 = (checksum (block.extract 0 fieldsSize)).toNat := of_decide_eq_true intact
  have inside : fieldsSize + 4 ≤ block.size := Nat.le_of_eq sized.symm
  rw [close, ← sum, bytesWord inside, joinPieces block (by decide) (by decide)]
  exact Content.extractWhole (Nat.le_of_eq sized)

theorem Frame.encodeDecoded {block : ByteArray} {f : Frame} (sized : block.size = Sealed.size)
    (decoded : decode? block = some f) : f.encode = block ∧ f.size < Nat.pow 256 4 := by
  unfold decode? at decoded
  split at decoded
  · cases decoded
  · next intact =>
    split at decoded
    · cases decoded
    · next reserved =>
      have intact : Sealed.isIntact block = true := by simpa using intact
      have reserved : word block 9 3 = 0 := Classical.not_not.mp reserved
      cases Option.some.inj decoded
      have whole : 32 ≤ block.size := Nat.le_of_eq sized.symm
      refine ⟨?_, wordBound block 12 4⟩
      have fields : bytes 8 (word block 0 8) ++ bytes 1 (word block 8 1) ++ bytes 3 (word block 9 3) ++
          bytes 4 (word block 12 4) ++ bytes 8 (word block 16 8) ++ bytes 4 (word block 24 4) =
            block.extract 0 Sealed.fieldsSize := by
        simp only [bytesWord (show 0 + 8 ≤ block.size by omega), bytesWord (show 8 + 1 ≤ block.size by omega),
          bytesWord (show 9 + 3 ≤ block.size by omega), bytesWord (show 12 + 4 ≤ block.size by omega),
          bytesWord (show 16 + 8 ≤ block.size by omega), bytesWord (show 24 + 4 ≤ block.size by omega),
          Nat.zero_add, Nat.reduceAdd, joinPieces block, Nat.reduceLeDiff]
        rfl
      rw [reserved] at fields
      simp only [encode, UInt64.toNat_ofNat_of_lt' (wordBound block 0 8),
        UInt8.toNat_ofNat_of_lt' (wordBound block 8 1), UInt64.toNat_ofNat_of_lt' (wordBound block 16 8),
        UInt32.toNat_ofNat_of_lt' (wordBound block 24 4), fields]
      exact Sealed.closeIntact sized intact

theorem Header.encodeDecoded {src : ByteArray} {h : Header} (decoded : decode src = .ok h) :
    Sealed.size ≤ src.size ∧ src.extract 0 Sealed.size = h.encode := by
  unfold decode at decoded
  dsimp only at decoded
  split at decoded
  · cases decoded
  next long =>
  have long := Nat.le_of_not_lt long
  refine ⟨long, ?_⟩
  have sized : (src.extract 0 Sealed.size).size = Sealed.size := by
    rw [ByteArray.size_extract]
    omega
  generalize src.extract 0 Sealed.size = block at decoded sized
  split at decoded
  · cases decoded
  next letters =>
  split at decoded
  · cases decoded
  next version =>
  split at decoded
  · cases decoded
  next reserved =>
  split at decoded
  · cases decoded
  next intact =>
  cases Except.ok.inj decoded
  have intact : Sealed.isIntact block = true := by simpa using intact
  have whole : 32 ≤ block.size := Nat.le_of_eq sized.symm
  have fields : bytes 4 (word block 0 4) ++ bytes 2 (word block 4 2) ++ bytes 6 (word block 6 6) ++
      bytes 8 (word block 12 8) ++ bytes 8 (word block 20 8) = block.extract 0 Sealed.fieldsSize := by
    simp only [bytesWord (show 0 + 4 ≤ block.size by omega), bytesWord (show 4 + 2 ≤ block.size by omega),
      bytesWord (show 6 + 6 ≤ block.size by omega), bytesWord (show 12 + 8 ≤ block.size by omega),
      bytesWord (show 20 + 8 ≤ block.size by omega), Nat.zero_add, Nat.reduceAdd, joinPieces block, Nat.reduceLeDiff]
    rfl
  rw [Classical.not_not.mp letters, Classical.not_not.mp version, Classical.not_not.mp reserved] at fields
  simp only [encode, UInt64.toNat_ofNat_of_lt' (wordBound block 12 8), UInt64.toNat_ofNat_of_lt' (wordBound block 20 8),
    fields]
  exact (Sealed.closeIntact sized intact).symm

end Log
end OrphanFiles
