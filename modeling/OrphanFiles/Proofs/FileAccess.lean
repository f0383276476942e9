import OrphanFiles.Proofs.OfflineRecovery
import OrphanFiles.Volume.Access

/-!
Reads and writes at any positions of a file.  What was written is read back; apart from that every byte stays what it
was, a gap in front of it reads as zeros, and no other file and no name is altered.
-/
namespace OrphanFiles

namespace Content

variable {off : Nat} {src : ByteArray} {c : Content}

theorem overwriteFront (written : src.size ≠ 0) : (overwrite off src c).bytes.extract 0 off =
    c.bytes.extract 0 off ++ zeros (off - c.size) := by
  have front : (c.bytes.extract 0 off ++ zeros (off - c.size)).size = off := by simp; omega
  rw [bytesOverwrite off src c written, ByteArray.append_assoc, ByteArray.extract_append_eq_left front.symm]

theorem overwriteHere (written : src.size ≠ 0) :
    (overwrite off src c).bytes.extract off (off + src.size) = src := by
  have front : (c.bytes.extract 0 off ++ zeros (off - c.size)).size = off := by simp; omega
  have whole : (c.bytes.extract 0 off ++ zeros (off - c.size) ++ src).size = off + src.size := by
    rw [ByteArray.size_append, front]
  rw [bytesOverwrite off src c written, ByteArray.extract_append, whole, Nat.sub_self,
    ByteArray.extract_append_eq_right front.symm (by rw [front])]
  have none (b : ByteArray) (i : Nat) : b.extract i 0 = .empty := ByteArray.extract_eq_empty_iff.mpr (by omega)
  rw [none, ByteArray.append_empty]

theorem overwriteBehind (written : src.size ≠ 0) : (overwrite off src c).bytes.extract (off + src.size) c.size =
    c.bytes.extract (off + src.size) c.size := by
  have whole : (c.bytes.extract 0 off ++ zeros (off - c.size) ++ src).size = off + src.size := by simp; omega
  rcases Nat.le_total c.size (off + src.size) with past | inside
  · rw [ByteArray.extract_eq_empty_iff.mpr (by omega), ByteArray.extract_eq_empty_iff.mpr (by omega)]
  · rw [bytesOverwrite off src c written, ByteArray.extract_append_eq_right whole.symm]
    simp only [whole, ByteArray.size_extract, sizeBytes]
    omega

end Content

namespace Volume

variable {v : Volume} {id : Nat}

def bytes (v : Volume) (id : Nat) : ByteArray := (v.file id).content.bytes

theorem readRangeFile {off n : Nat} (asked : n ≠ 0) (below : off + n < positionEnd) :
    readRange (.file id) off n v = match FileM.bytesAt (v.bytes id) off n with
      | some bytes => .ok bytes v
      | none => .error (.io .endOfFile) v := by
  unfold readRange checkRange onFile
  rw [if_neg asked, if_neg (Nat.not_le.mpr below)]
  simp only [bind, EStateM.bind, pure, Error.ofExcept, EStateM.pure,
    FileM.readAtQuiet (d := ⟨v.file id, []⟩) (by simp [Device.Quiet])]
  unfold bytes
  cases FileM.bytesAt (v.file id).content.bytes off n <;> simp only [setFileSame]

structure Written (v : Volume) (id off : Nat) (src : ByteArray) (w : Volume) : Prop where
  others : v.Rewritten id w
  front : (w.bytes id).extract 0 off = (v.bytes id).extract 0 off ++ zeros (off - (v.bytes id).size)
  here : (w.bytes id).extract off (off + src.size) = src
  behind : (w.bytes id).extract (off + src.size) (v.bytes id).size =
    (v.bytes id).extract (off + src.size) (v.bytes id).size
  size : (w.bytes id).size = max (v.bytes id).size (off + src.size)

theorem onFileWrite (off : Nat) (src : ByteArray) : onFile id (FileM.writeAt off src) v =
    .ok () (v.setFile id { v.file id with content := Content.overwrite off src (v.file id).content }) := by
  unfold onFile
  rw [FileM.writeEq, ArmedFault.strike]

theorem overwriteWritten (inside : id < v.files.size) {off : Nat} {src : ByteArray} (some : src.size ≠ 0) :
    v.Written id off src
      (v.setFile id { v.file id with content := Content.overwrite off src (v.file id).content }) := by
  have set : (v.setFile id { v.file id with content := Content.overwrite off src (v.file id).content }).bytes id =
      (Content.overwrite off src (v.file id).content).bytes := by rw [bytes, fileSet inside]
  refine ⟨setRewritten .., ?_, ?_, ?_, ?_⟩
  · rw [set, bytes, Content.sizeBytes]
    exact Content.overwriteFront some
  · rw [set]
    exact Content.overwriteHere some
  · rw [set, bytes, Content.sizeBytes]
    exact Content.overwriteBehind some
  · rw [set, bytes, Content.sizeBytes, Content.sizeBytes, Content.sizeOverwrite, if_neg some]

theorem writeRangeEnds (inside : id < v.files.size) {off : Nat} {src : ByteArray} (some : src.size ≠ 0)
    (below : off + src.size < positionEnd) : ∃ w,
    writeRange id off src v = (if maxFileSize < off + src.size then .error (.io .tooLarge) w else .ok () w) ∧
      if maxFileSize ≤ off then w = v else v.Written id off (src.extract 0 (maxFileSize - off)) w := by
  have size : (src.extract 0 (maxFileSize - off)).size = min (maxFileSize - off) src.size := by simp
  refine ⟨v.setFile id { v.file id with
    content := Content.overwrite off (src.extract 0 (maxFileSize - off)) (v.file id).content }, ?_, ?_⟩
  · unfold writeRange checkRange
    rw [if_neg some, if_neg (Nat.not_le.mpr below)]
    simp only [bind, EStateM.bind, pure, EStateM.pure, Error.ofExcept, onFileWrite]
    split <;> rfl
  · split
    · next beyond =>
      rw [Content.overwrite, if_pos (by omega)]
      exact setFileSame v id
    · next room => exact overwriteWritten inside (by omega)

theorem writtenIsRead {w : Volume} {off : Nat} {src : ByteArray} (written : v.Written id off src w)
    (some : src.size ≠ 0) (below : max (v.bytes id).size (off + src.size) < positionEnd) :
    readRange (.file id) off src.size w = .ok src w ∧
      ∀ i n, n ≠ 0 → i + n ≤ (v.bytes id).size → i + n ≤ off ∨ off + src.size ≤ i →
        readRange (.file id) i n w = .ok ((v.bytes id).extract i (i + n)) w := by
  have size := written.size
  refine ⟨?_, fun i n asked inside apart => ?_⟩
  · rw [readRangeFile some (by omega), FileM.bytesAt, if_neg some, if_pos (by omega), written.here]
  · rw [readRangeFile asked (by omega), FileM.bytesAt, if_neg asked, if_pos (by omega)]
    rcases apart with before | behind
    · have front := congrArg (·.extract i (i + n)) written.front
      simp only [ByteArray.extract_append, ByteArray.extract_extract, ByteArray.size_extract, extractZeros,
        Nat.zero_add, Nat.min_eq_left before] at front
      rw [front, show min (i + n - (min off (v.bytes id).size - 0)) (off - (v.bytes id).size) -
        (i - (min off (v.bytes id).size - 0)) = 0 by omega]
      exact congrArg (EStateM.Result.ok · w) ByteArray.append_empty
    · have back := congrArg (·.extract (i - (off + src.size)) (i + n - (off + src.size))) written.behind
      simp only [ByteArray.extract_extract, Nat.add_sub_cancel' behind,
        Nat.add_sub_cancel' (Nat.le_add_right_of_le behind), Nat.min_eq_left inside] at back
      rw [back]

theorem onFileTruncate (n : Nat) : onFile id (FileM.truncate n) v =
    .ok () (v.setFile id { v.file id with content := Content.resize n (v.file id).content }) := by
  unfold onFile
  rw [FileM.truncateQuiet (by simp [Device.Quiet])]

theorem setSizeEnds (inside : id < v.files.size) {n : Nat} (fits : n ≤ maxFileSize) : ∃ w,
    setSize id n v = .ok () w ∧ v.Rewritten id w ∧
      w.bytes id = (v.bytes id).extract 0 n ++ zeros (n - (v.bytes id).size) := by
  have below : n < positionEnd := Nat.lt_of_le_of_lt fits (by decide)
  refine ⟨v.setFile id { v.file id with content := Content.resize n (v.file id).content }, ?_, setRewritten .., ?_⟩
  · unfold setSize
    rw [if_neg (Nat.not_le.mpr below), if_neg (Nat.not_lt.mpr fits)]
    exact onFileTruncate n
  · rw [bytes, fileSet inside, Content.bytesResize, bytes, Content.sizeBytes]

theorem syncedSizeEnds (inside : id < v.files.size) : ∃ w, syncedSize (.file id) v = .ok (v.bytes id).size w ∧
    v.Rewritten id w ∧ w.bytes id = v.bytes id ∧ (w.file id).stable = (w.file id).content := by
  refine ⟨v.setFile id { v.file id with stable := (v.file id).content }, ?_, setRewritten .., ?_, ?_⟩
  · unfold syncedSize onFile
    simp only [bind, EStateM.bind, FileM.syncEq, ArmedFault.strike]
    rw [FileM.lenQuiet (by simp [Device.Quiet])]
    rfl
  · rw [bytes, fileSet inside]
    rfl
  · rw [fileSet inside]

end Volume
end OrphanFiles
