import OrphanFiles.Completion
import OrphanFiles.Proofs.Words
import OrphanFiles.Snapshot.Body

/-!
The bodies of snapshots and completions: what was encoded is what is decoded.
-/
namespace OrphanFiles

open BigEndian (digits lengthDigits value word nextWord nextDigits lengthChunks dropChunks)

theorem wordLimit {n : UInt32} : n.toNat < Nat.pow 256 4 := n.toNat_lt

theorem mapMRange {ε α : Type} {xs : List α} {f : Nat → Except ε α}
    (each : ∀ i (inside : i < xs.length), f i = .ok xs[i]) : (List.range xs.length).mapM f = .ok xs := by
  suffices step : ∀ (ys : List α) (n : Nat), (∀ i (inside : i < ys.length), f (n + i) = .ok ys[i]) →
      (List.range' n ys.length).mapM f = .ok ys by
    rw [List.range_eq_range']
    exact step xs 0 (by simpa using each)
  intro ys
  induction ys with
  | nil => intro n _; rfl
  | cons y ys ih =>
    intro n each
    have head : f n = .ok y := each 0 (by simp)
    have tail := ih (n + 1) fun i inside => by
      have := each (i + 1) (by simpa using inside)
      simpa [Nat.add_assoc, Nat.add_comm 1 i] using this
    rw [List.length_cons, List.range'_succ, List.mapM_cons, head]
    simp [bind, Except.bind, tail, pure, Except.pure]

namespace Snapshot

theorem entryAtDigits {src : ByteArray} {rest : List UInt8} {off : Nat} {e : PendingFile}
    (here : src.data.toList.drop off = entryDigits e ++ rest) : entryAt src off = .ok e := by
  obtain ⟨⟨⟨tablespace, database, relation⟩, temporary⟩, ⟨xid⟩⟩ := e
  have flagDigits : digits 4 (if temporary then 0x1000000 else 0) = [if temporary then 1 else 0] ++ [0, 0, 0] := by
    cases temporary <;> rfl
  simp only [entryDigits, flagDigits, List.append_assoc] at here
  obtain ⟨first, here⟩ := nextDigits here wordLimit
  obtain ⟨second, here⟩ := nextDigits here wordLimit
  obtain ⟨third, here⟩ := nextDigits here wordLimit
  obtain ⟨flag, here⟩ := nextWord here (show [_].length = 1 from rfl)
  obtain ⟨padding, here⟩ := nextWord here (show [_, _, _].length = 3 from rfl)
  obtain ⟨last, -⟩ := nextDigits here wordLimit
  simp only [Nat.add_assoc, Nat.reduceAdd] at second third flag padding last
  simp only [entryAt, wordAt, first, second, third, flag, padding, last]
  cases temporary <;> simp [value]

theorem decodeEncode {entries : List PendingFile} (few : entries.length < Nat.pow 256 countSize) :
    decode (encode entries) = .ok entries := by
  have whole : (encode entries).data.toList.drop 0 = digits countSize entries.length ++ entries.flatMap entryDigits :=
    rfl
  obtain ⟨count, body⟩ := nextDigits whole few
  have enough : ¬ encodedSize entries.length < countSize := by rw [encodedSize]; omega
  simp only [decode, count, sizeEncode, if_neg enough, ne_eq, not_true_eq_false, if_false]
  refine mapMRange fun i inside => ?_
  have here : (encode entries).data.toList.drop (countSize + i * entrySize) =
      entryDigits entries[i] ++ (entries.drop (i + 1)).flatMap entryDigits := by
    rw [Nat.zero_add] at body
    rw [← List.drop_drop, body, dropChunks lengthEntryDigits inside]
  exact entryAtDigits here

end Snapshot

namespace Completion

theorem sizeEncode (c : Completion) : (encode c).size = 8 + c.subs.length * 4 := by
  have sized (x : Xid) : (digits 4 x.number.toNat).length = 4 := by simp
  rw [← lengthChunks sized c.subs]
  simp only [encode, ByteArray.size, List.size_toArray, List.length_append, lengthDigits]

theorem decodeEncode {c : Completion} (few : c.subs.length < Nat.pow 256 4) : decode (encode c) = .ok c := by
  obtain ⟨⟨xid⟩, subs⟩ := c
  have whole : (encode ⟨⟨xid⟩, subs⟩).data.toList.drop 0 =
      digits 4 xid.toNat ++ (digits 4 subs.length ++ subs.flatMap fun x => digits 4 x.number.toNat) := by
    simp [encode]
  obtain ⟨top, behind⟩ := nextDigits whole wordLimit
  obtain ⟨count, body⟩ := nextDigits behind few
  rw [Nat.zero_add] at count body
  have enough : ¬ 8 + subs.length * 4 < 8 := by omega
  have sub (i : Nat) (inside : i < subs.length) : xidAt (encode ⟨⟨xid⟩, subs⟩) (8 + i * 4) = subs[i] := by
    have here := dropChunks (fun x : Xid => lengthDigits 4 x.number.toNat) inside
    rw [← body, List.drop_drop] at here
    obtain ⟨number, -⟩ := nextDigits here wordLimit
    rw [xidAt, number]
    simp
  have tail : (List.range subs.length).map (fun i => xidAt (encode ⟨⟨xid⟩, subs⟩) (8 + i * 4)) = subs := by
    refine List.ext_getElem (by simp) fun i inside _ => ?_
    simpa using sub i (by simpa using inside)
  simp only [decode, count, sizeEncode, if_neg enough, ne_eq, not_true_eq_false, if_false, tail]
  simp [xidAt, top]

end Completion
end OrphanFiles
