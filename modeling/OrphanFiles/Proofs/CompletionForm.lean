import OrphanFiles.Proofs.Handle
import OrphanFiles.Proofs.SnapshotForm

/-!
The stored form of a completion.  Main statement: every completion that a log accepts is read back, and the bodies that
are read are exactly those whose size is the one that their count asks for.
-/
namespace OrphanFiles.Completion

open BigEndian

section Bodies

variable {src : ByteArray} {c : Completion}

theorem decodeOk : decode src = .ok c ↔ (8 ≤ src.size ∧ src.size = 8 + 4 * word src 4 4) ∧
    c = ⟨xidAt src 0, (List.range (word src 4 4)).map fun i => xidAt src (8 + i * 4)⟩ := by
  unfold decode
  dsimp only
  rw [Nat.mul_comm (word src 4 4)]
  split
  · next short =>
    simp only [reduceCtorEq, false_iff]
    intro both
    exact absurd both.1.1 (Nat.not_le.mpr short)
  · next long =>
    split
    · next other =>
      simp only [reduceCtorEq, false_iff]
      intro both
      exact other both.1.2
    · next same =>
      rw [Except.ok.injEq, eq_comm]
      exact ⟨fun read => ⟨⟨Nat.le_of_not_lt long, Classical.not_not.mp same⟩, read⟩, fun both => both.2⟩

theorem decodesSized : (∃ c, decode src = .ok c) ↔ 8 ≤ src.size ∧ src.size = 8 + 4 * word src 4 4 := by
  constructor
  · intro ⟨c, decoded⟩
    exact (decodeOk.mp decoded).1
  · intro sized
    exact ⟨_, decodeOk.mpr ⟨sized, rfl⟩⟩

theorem numberAt (src : ByteArray) (off : Nat) : (xidAt src off).number.toNat = word src off 4 :=
  UInt32.toNat_ofNat_of_lt' (wordBound src off 4)

theorem encodeDecoded (decoded : decode src = .ok c) : encode c = src := by
  obtain ⟨⟨counted, sized⟩, rfl⟩ := decodeOk.mp decoded
  have top : digits 4 (word src 0 4) = src.data.toList.take 4 := by
    have word := @digitsWord src 0 4 (by omega)
    rwa [List.drop_zero] at word
  have count : digits 4 (word src 4 4) = (src.data.toList.drop 4).take 4 := digitsWord (by omega)
  have subs : src.data.toList.drop 8 =
      ((List.range (word src 4 4)).map fun i => xidAt src (8 + i * 4)).flatMap fun x => digits 4 x.number.toNat := by
    have total : (src.data.toList.drop 8).length =
        ((List.range (word src 4 4)).map fun i => xidAt src (8 + i * 4)).length * 4 := by
      rw [List.length_drop, lengthList, List.length_map, List.length_range]
      omega
    apply joinChunks total
    intro i inside
    have inside : i < word src 4 4 := by simpa using inside
    rw [List.drop_drop, List.getElem_map, List.getElem_range, numberAt]
    exact (digitsWord (by omega)).symm
  apply listInj
  show digits 4 (xidAt src 0).number.toNat ++ digits 4 (List.length _) ++ List.flatMap _ _ = src.data.toList
  rw [numberAt, List.length_map, List.length_range, top, count, ← subs, ← List.take_add, List.take_append_drop]

theorem fewInRecord (small : (encode c).size ≤ Log.maxPayload) : c.subs.length < Nat.pow 256 4 := by
  have most : Log.maxPayload < 4 * Nat.pow 256 4 := by decide
  rw [sizeEncode] at small
  omega

end Bodies

theorem readsWhatIsLogged :
    (∀ c, (encode c).size ≤ Log.maxPayload → decode (encode c) = .ok c) ∧
      (∀ kind c (s s' : OpenLog) lsn, OpenLog.append kind (encode c) s = .ok lsn s' →
        (encode c).size ≤ Log.maxPayload ∧ decode (encode c) = .ok c) ∧
      (∀ src, (∃ c, decode src = .ok c) ↔ 8 ≤ src.size ∧ src.size = 8 + 4 * word src 4 4) ∧
      ∀ src c, decode src = .ok c → encode c = src := by
  have back (c : Completion) (small : (encode c).size ≤ Log.maxPayload) : decode (encode c) = .ok c :=
    decodeEncode (fewInRecord small)
  refine ⟨back, ?_, fun src => decodesSized, fun src c => encodeDecoded⟩
  intro kind c s s' lsn appended
  have small := (OpenLog.appendOk appended).1
  exact ⟨small, back c small⟩

theorem readsThree :
    let c : Completion := ⟨⟨7⟩, [⟨8⟩, ⟨9⟩]⟩
    (∃ (s s' : OpenLog) (lsn : UInt64), OpenLog.append .commit (encode c) s = .ok lsn s') ∧
      (encode c).size = 16 ∧ decode (encode c) = .ok c ∧ (∀ src, decode src = .ok c → src = encode c) ∧
      ¬ ∃ c', decode (bytes 4 7 ++ bytes 4 0xFFFFFFFF) = .ok c' := by
  intro c
  obtain ⟨-, logged, sized, canonical⟩ := readsWhatIsLogged
  have size : (encode c).size = 16 := by rw [sizeEncode]; rfl
  have small : (encode c).size ≤ Log.maxPayload := size ▸ by decide
  have appended := OpenLog.appendWrites (s := ⟨⟨.empty, []⟩, Log.fresh ⟨3, 1⟩, none⟩) .commit small
    (show ArmedFault.strike .write [] = (none, []) from rfl)
  have whole : (bytes 4 7 ++ bytes 4 0xFFFFFFFF).data.toList.drop 4 = digits 4 0xFFFFFFFF ++ [] := by
    rw [listAppend, listBytes, listBytes, List.append_nil]
    rfl
  have count := (nextDigits whole (by decide)).1
  refine ⟨⟨_, _, _, appended⟩, size, (logged _ c _ _ _ appended).2, fun src decoded => (canonical src c decoded).symm,
    ?_⟩
  rw [sized, count]
  simp

end OrphanFiles.Completion
