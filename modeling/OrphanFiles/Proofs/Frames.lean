import OrphanFiles.Log.Frame
import OrphanFiles.Log.Header
import OrphanFiles.Proofs.Words

/-!
Blocks that were written read back: sealed blocks are intact, and headers and frames keep their fields.
-/
namespace OrphanFiles.Log

open BigEndian

theorem Sealed.listClose (fields : ByteArray) :
    (close fields).data.toList = fields.data.toList ++ digits 4 (checksum fields).toNat := by
  rw [close, listAppend, listBytes]

theorem Sealed.intactClose {fields : ByteArray} (sized : fields.size = fieldsSize) :
    isIntact (close fields) = true := by
  have length : fields.data.toList.length = fieldsSize := sized
  have sum : (close fields).data.toList.drop fieldsSize = digits 4 (checksum fields).toNat ++ [] := by
    rw [listClose, ← length, List.drop_left, List.append_nil]
  have front : (close fields).extract 0 fieldsSize = fields := by
    apply listInj
    rw [listExtract, listClose, List.drop_zero, Nat.sub_zero, ← length, List.take_left]
  have word := (nextDigits sum (checksum fields).toNat_lt).1
  rw [isIntact, word, front]
  exact decide_eq_true rfl

theorem Frame.decodeEncode (f : Frame) (small : f.size < Nat.pow 256 4) : decode? f.encode = some f := by
  obtain ⟨lsn, kind, size, link, checksum⟩ := f
  have intact : Sealed.isIntact (encode ⟨lsn, kind, size, link, checksum⟩) = true := by
    refine Sealed.intactClose ?_
    simp [Sealed.fieldsSize]
  obtain ⟨sum, whole⟩ : ∃ sum, (encode ⟨lsn, kind, size, link, checksum⟩).data.toList.drop 0 =
      digits 8 lsn.toNat ++ (digits 1 kind.toNat ++ (digits 3 0 ++ (digits 4 size ++
        (digits 8 link.toNat ++ (digits 4 checksum.toNat ++ sum))))) := by
    simp only [encode, Sealed.listClose, listAppend, listBytes, List.drop_zero, List.append_assoc]
    exact ⟨_, rfl⟩
  obtain ⟨first, here⟩ := nextDigits whole lsn.toNat_lt
  obtain ⟨second, here⟩ := nextDigits here kind.toNat_lt
  obtain ⟨padding, here⟩ := nextDigits here (by decide)
  obtain ⟨third, here⟩ := nextDigits here small
  obtain ⟨fourth, here⟩ := nextDigits here link.toNat_lt
  obtain ⟨last, -⟩ := nextDigits here checksum.toNat_lt
  simp only [Nat.zero_add, Nat.reduceAdd] at second padding third fourth last
  simp [decode?, intact, first, second, padding, third, fourth, last]

theorem Header.decodeEncode (h : Header) : decode h.encode = .ok h := by
  obtain ⟨salt, start⟩ := h
  have block : (encode ⟨salt, start⟩).extract 0 Sealed.size = encode ⟨salt, start⟩ := by
    rw [← sizeEncode ⟨salt, start⟩, ByteArray.extract_zero_size]
  have intact : Sealed.isIntact (encode ⟨salt, start⟩) = true := by
    refine Sealed.intactClose ?_
    simp [Sealed.fieldsSize]
  obtain ⟨sum, whole⟩ : ∃ sum, (encode ⟨salt, start⟩).data.toList.drop 0 =
      digits 4 magic ++ (digits 2 version ++ (digits 6 0 ++ (digits 8 salt.toNat ++
        (digits 8 start.toNat ++ sum)))) := by
    simp only [encode, Sealed.listClose, listAppend, listBytes, List.drop_zero, List.append_assoc]
    exact ⟨_, rfl⟩
  obtain ⟨first, here⟩ := nextDigits whole (by decide)
  obtain ⟨second, here⟩ := nextDigits here (by decide)
  obtain ⟨padding, here⟩ := nextDigits here (by decide)
  obtain ⟨third, here⟩ := nextDigits here salt.toNat_lt
  obtain ⟨last, -⟩ := nextDigits here start.toNat_lt
  simp only [Nat.zero_add, Nat.reduceAdd] at second padding third last
  have long : ¬ (encode ⟨salt, start⟩).size < Sealed.size := by
    rw [sizeEncode]
    exact Nat.lt_irrefl _
  simp [decode, block, intact, long, first, second, padding, third, last]

end OrphanFiles.Log
