import Mathlib.Data.List.Forall2
import OrphanFiles.Proofs.Bodies
import OrphanFiles.Proofs.Canonical

/-!
The stored form of a list of pending files, told byte by byte.  Main statement: every list has exactly one stored
form, and the payloads that are read are exactly those forms.
-/
namespace OrphanFiles

section Lists

variable {ε α β : Type} {f : α → Except ε β}

theorem mapMFound {as : List α} {bs : List β} (done : as.mapM f = .ok bs) :
    List.Forall₂ (fun a b => f a = .ok b) as bs := by
  induction as generalizing bs with
  | nil =>
    cases done
    exact .nil
  | cons a as ih =>
    rw [List.mapM_cons] at done
    cases first : f a with
    | error e => rw [first] at done; cases done
    | ok b =>
      rw [first] at done
      cases rest : as.mapM f with
      | error e => rw [rest] at done; cases done
      | ok later =>
        rw [rest] at done
        cases done
        exact .cons first (ih rest)

theorem mapMFinds {as : List α} (each : ∀ a ∈ as, ∃ b, f a = .ok b) : ∃ bs, as.mapM f = .ok bs := by
  induction as with
  | nil => exact ⟨[], rfl⟩
  | cons a as ih =>
    obtain ⟨b, first⟩ := each a List.mem_cons_self
    obtain ⟨bs, rest⟩ := ih fun a member => each a (List.mem_cons_of_mem _ member)
    refine ⟨b :: bs, ?_⟩
    rw [List.mapM_cons, first, rest]
    rfl

end Lists

namespace BigEndian

section Chunks

variable {α : Type} {chunk : α → List UInt8} {size : Nat}

theorem joinChunks {xs : List α} {ds : List UInt8} (total : ds.length = xs.length * size)
    (each : ∀ i (inside : i < xs.length), (ds.drop (i * size)).take size = chunk xs[i]) :
    ds = xs.flatMap chunk := by
  induction xs generalizing ds with
  | nil => exact List.eq_nil_of_length_eq_zero (by simpa using total)
  | cons x xs ih =>
    have first : ds.take size = chunk x := by
      have head := each 0 (Nat.zero_lt_succ _)
      rwa [Nat.zero_mul, List.drop_zero] at head
    have rest : ds.drop size = xs.flatMap chunk := by
      refine ih ?_ fun i inside => ?_
      · rw [List.length_drop, total, List.length_cons, Nat.succ_mul, Nat.add_sub_cancel]
      · have next := each (i + 1) (Nat.succ_lt_succ inside)
        rwa [Nat.succ_mul, Nat.add_comm, ← List.drop_drop] at next
    rw [List.flatMap_cons, ← first, ← rest, List.take_append_drop]

end Chunks

section Bytes

variable {src : ByteArray} {off : Nat}

theorem wordSingle (inside : off < src.size) : word src off 1 = src.data[off].toNat := by
  have here : src.data.toList.drop off = [src.data[off]] ++ src.data.toList.drop (off + 1) :=
    List.drop_eq_getElem_cons inside
  rw [(nextWord here (show [_].length = 1 from rfl)).1]
  simp [value]

theorem valueZero {ds : List UInt8} : value ds = 0 ↔ ∀ d ∈ ds, d = 0 := by
  suffices h : ∀ rs : List UInt8, value rs.reverse = 0 ↔ ∀ d ∈ rs, d = 0 by simpa using h ds.reverse
  intro rs
  induction rs with
  | nil => simp
  | cons d rs ih =>
    have low : d.toNat = 0 ↔ d = 0 := UInt8.toNat_inj (b := 0)
    rw [List.reverse_cons, valueSnoc, List.forall_mem_cons, ← ih, ← low]
    omega

theorem wordZero {width : Nat} (inside : off + width ≤ src.size) :
    word src off width = 0 ↔ ∀ j < width, src.data[off + j]? = some 0 := by
  rw [wordEqValue, valueZero]
  have place (j : Nat) (small : j < width) : ((src.data.toList.drop off).take width)[j]? = src.data[off + j]? := by
    rw [List.getElem?_take_of_lt small, List.getElem?_drop, Array.getElem?_toList]
  constructor
  · intro zeros j small
    have there : off + j < src.data.size := Nat.lt_of_lt_of_le (Nat.add_lt_add_left small off) inside
    rw [← place j small]
    have some := (place j small).trans (Array.getElem?_eq_getElem there)
    rw [some, zeros _ (List.mem_of_getElem? some)]
  · intro zeros d member
    obtain ⟨j, here⟩ := List.getElem?_of_mem member
    have small : j < width := by
      have := (List.getElem?_eq_some_iff.mp here).1
      simp only [List.length_take] at this
      omega
    rw [place j small, zeros j small] at here
    exact (Option.some.inj here).symm

end Bytes
end BigEndian

namespace Snapshot

open BigEndian

structure WellFormed (src : ByteArray) : Prop where
  counted : 8 ≤ src.size
  sized : src.size = 8 + 20 * word src 0 8
  flags : ∀ i < word src 0 8, src.data[8 + 20 * i + 12]? = some 0 ∨ src.data[8 + 20 * i + 12]? = some 1
  padding : ∀ i < word src 0 8, ∀ j, 13 ≤ j → j < 16 → src.data[8 + 20 * i + j]? = some 0

section Entries

variable {src : ByteArray} {off : Nat}

theorem flagKnown (inside : off < src.size) :
    word src off 1 ≤ 1 ↔ src.data[off]? = some 0 ∨ src.data[off]? = some 1 := by
  rw [wordSingle inside, Array.getElem?_eq_getElem inside]
  have bit (b : UInt8) : b.toNat ≤ 1 ↔ some b = some 0 ∨ some b = some 1 := by
    rw [Option.some_inj, Option.some_inj, ← UInt8.toNat_inj, ← UInt8.toNat_inj]
    exact Nat.le_one_iff_eq_zero_or_eq_one
  exact bit _

theorem entryRead : (∃ e, entryAt src off = .ok e) ↔ word src (off + 12) 1 ≤ 1 ∧ word src (off + 13) 3 = 0 := by
  unfold entryAt
  dsimp only
  split
  · next large => simp only [reduceCtorEq, exists_false, false_iff]; omega
  · split
    · next filled => simp only [reduceCtorEq, exists_false, false_iff]; exact fun both => filled both.2
    · next small empty => exact iff_of_true ⟨_, rfl⟩ ⟨Nat.le_of_not_lt small, Classical.not_not.mp empty⟩

theorem entryWritten {e : PendingFile} (inside : off + entrySize ≤ src.size) (found : entryAt src off = .ok e) :
    (src.data.toList.drop off).take entrySize = entryDigits e := by
  obtain ⟨small, empty⟩ := entryRead.mp ⟨e, found⟩
  unfold entryAt at found
  simp only [if_neg (Nat.not_lt.mpr small), empty, ne_eq, not_true_eq_false, if_false] at found
  cases Except.ok.inj found
  rw [entrySize] at inside
  have pieces : bytes 4 (word src off 4) ++ bytes 4 (word src (off + 4) 4) ++ bytes 4 (word src (off + 8) 4) ++
      (bytes 1 (word src (off + 12) 1) ++ bytes 3 (word src (off + 13) 3)) ++ bytes 4 (word src (off + 16) 4) =
        src.extract off (off + entrySize) := by
    rw [bytesWord (show off + 4 ≤ src.size by omega), bytesWord (show off + 4 + 4 ≤ src.size by omega),
      bytesWord (show off + 8 + 4 ≤ src.size by omega), bytesWord (show off + 12 + 1 ≤ src.size by omega),
      bytesWord (show off + 13 + 3 ≤ src.size by omega), bytesWord (show off + 16 + 4 ≤ src.size by omega)]
    simp only [Nat.add_assoc, Nat.reduceAdd]
    rw [joinPieces src (by omega) (by omega), joinPieces src (by omega) (by omega),
      joinPieces src (by omega) (by omega), joinPieces src (by omega) (by omega), joinPieces src (by omega) (by omega)]
    rfl
  have flag : digits 4 (if word src (off + 12) 1 = 1 then 0x1000000 else 0) =
      digits 1 (word src (off + 12) 1) ++ digits 3 0 := by
    obtain zero | one := Nat.le_one_iff_eq_zero_or_eq_one.mp small
    · rw [zero]; rfl
    · rw [one]; rfl
  have number (off : Nat) : (wordAt src off).toNat = word src off 4 :=
    UInt32.toNat_ofNat_of_lt' (wordBound src off 4)
  have listed := congrArg (fun piece => piece.data.toList) pieces
  simp only [listAppend, listBytes, listExtract, Nat.add_sub_cancel_left, empty] at listed
  rw [← listed]
  simp only [entryDigits, number, decide_eq_true_eq, flag]

end Entries

section Payloads

variable {src : ByteArray} {es : List PendingFile}

theorem decodeOk : decode src = .ok es ↔ countSize ≤ src.size ∧ src.size = encodedSize (word src 0 countSize) ∧
    (List.range (word src 0 countSize)).mapM (fun i => entryAt src (countSize + i * entrySize)) = .ok es := by
  unfold decode
  dsimp only
  split
  · next short => simp only [reduceCtorEq, false_iff]; omega
  · next long =>
    split
    · next other => simp only [reduceCtorEq, false_iff]; exact fun all => other all.2.1
    · next same =>
      exact ⟨fun read => ⟨Nat.le_of_not_lt long, Classical.not_not.mp same, read⟩, fun all => all.2.2⟩

theorem entryInside {i : Nat} (sized : src.size = encodedSize (word src 0 countSize))
    (inside : i < word src 0 countSize) : countSize + i * entrySize + entrySize ≤ src.size := by
  rw [sized, encodedSize, Nat.add_assoc, ← Nat.succ_mul]
  exact Nat.add_le_add_left (Nat.mul_le_mul_right _ inside) _

theorem decodedEntries (decoded : decode src = .ok es) : es.length = word src 0 countSize ∧
    ∀ i (inside : i < es.length), entryAt src (countSize + i * entrySize) = .ok es[i] := by
  obtain ⟨-, -, read⟩ := decodeOk.mp decoded
  obtain ⟨count, each⟩ := List.forall₂_iff_get.mp (mapMFound read)
  refine ⟨count.symm.trans List.length_range, fun i inside => ?_⟩
  simpa using each i (count ▸ inside) inside

theorem encodeDecoded (decoded : decode src = .ok es) : encode es = src := by
  obtain ⟨long, sized, -⟩ := decodeOk.mp decoded
  obtain ⟨count, each⟩ := decodedEntries decoded
  have front : digits countSize es.length = src.data.toList.take countSize := by
    have word := @digitsWord src 0 countSize (by omega)
    rwa [List.drop_zero, ← count] at word
  have behind : src.data.toList.drop countSize = es.flatMap entryDigits := by
    have total : (src.data.toList.drop countSize).length = es.length * entrySize := by
      rw [List.length_drop, lengthList, sized, encodedSize, count, Nat.add_sub_cancel_left]
    refine joinChunks total fun i inside => ?_
    rw [List.drop_drop]
    exact entryWritten (entryInside sized (count ▸ inside)) (each i inside)
  apply listInj
  show digits countSize es.length ++ es.flatMap entryDigits = src.data.toList
  rw [front, ← behind, List.take_append_drop]

theorem decodesWellFormed : (∃ es, decode src = .ok es) ↔ WellFormed src := by
  have places (i : Nat) : countSize + i * entrySize = 8 + 20 * i := by rw [Nat.mul_comm]; rfl
  have size (n : Nat) : encodedSize n = 8 + 20 * n := by rw [← places, encodedSize]
  -- the flag and the padding of one entry, as words and as bytes
  have entry (i : Nat) (inside : 8 + 20 * i + 20 ≤ src.size) : (∃ e, entryAt src (8 + 20 * i) = .ok e) ↔
      (src.data[8 + 20 * i + 12]? = some 0 ∨ src.data[8 + 20 * i + 12]? = some 1) ∧
        ∀ j, 13 ≤ j → j < 16 → src.data[8 + 20 * i + j]? = some 0 := by
    rw [entryRead, flagKnown (by omega), wordZero (by omega)]
    refine and_congr_right fun _ => ⟨fun zeros j first last => ?_, fun zeros j small => ?_⟩
    · obtain ⟨k, rfl⟩ := Nat.exists_eq_add_of_le first
      rw [← Nat.add_assoc]
      exact zeros k (by omega)
    · rw [Nat.add_assoc (8 + 20 * i)]
      exact zeros (13 + j) (by omega) (by omega)
  constructor
  · rintro ⟨es, decoded⟩
    obtain ⟨long, sized, -⟩ := decodeOk.mp decoded
    obtain ⟨count, each⟩ := decodedEntries decoded
    have known (i : Nat) (inside : i < word src 0 8) := by
      have ends := entryInside sized inside
      rw [places] at ends
      refine (entry i ends).mp ?_
      have found := each i (by rw [count]; exact inside)
      rw [places] at found
      exact ⟨_, found⟩
    exact ⟨long, sized.trans (size _), fun i inside => (known i inside).1, fun i inside => (known i inside).2⟩
  · intro form
    have sized : src.size = encodedSize (word src 0 countSize) := form.sized.trans (size _).symm
    have each (i : Nat) (member : i ∈ List.range (word src 0 countSize)) :
        ∃ e, entryAt src (countSize + i * entrySize) = .ok e := by
      have inside := List.mem_range.mp member
      have ends := entryInside sized inside
      rw [places] at ends ⊢
      exact (entry i ends).mpr ⟨form.flags i inside, form.padding i inside⟩
    obtain ⟨es, read⟩ := mapMFinds each
    exact ⟨es, decodeOk.mpr ⟨form.counted, sized, read⟩⟩

end Payloads

theorem decodesWhatIsWritten :
    (∀ es : List PendingFile, es.length < UInt64.size → decode (encode es) = .ok es) ∧
      (∀ src, (∃ es, decode src = .ok es) ↔ WellFormed src) ∧
      (∀ src es, decode src = .ok es → encode es = src) ∧
      (∀ src src' es, decode src = .ok es → decode src' = .ok es → src = src') ∧
      ∀ src : ByteArray, 8 ≤ src.size → src.size < UInt64.size → UInt64.size ≤ 20 * word src 0 8 →
        decode src = .error .snapshotLength := by
  refine ⟨fun es few => decodeEncode few, fun src => decodesWellFormed, fun src es => encodeDecoded,
    fun src src' es decoded decoded' => ?_, fun src long small large => ?_⟩
  · rw [← encodeDecoded decoded, encodeDecoded decoded']
  · have other : src.size ≠ encodedSize (word src 0 countSize) := by
      rw [encodedSize, countSize, entrySize]
      omega
    have enough : ¬ src.size < countSize := Nat.not_lt.mpr long
    simp only [decode, if_neg enough, if_pos other]

theorem decodesPair :
    let es : List PendingFile := [⟨⟨⟨1663, 5, 100⟩, false⟩, ⟨7⟩⟩, ⟨⟨⟨1663, 5, 101⟩, true⟩, ⟨9⟩⟩]
    decode (encode es) = .ok es ∧ WellFormed (encode es) ∧ (∀ src, decode src = .ok es → src = encode es) ∧
      decode (bytes 8 (UInt64.size - 1)) = .error .snapshotLength := by
  intro es
  obtain ⟨written, formed, -, one, refused⟩ := decodesWhatIsWritten
  have decoded := written es (by decide)
  have whole : (bytes 8 (UInt64.size - 1)).data.toList.drop 0 = digits 8 (UInt64.size - 1) ++ [] :=
    (List.append_nil _).symm
  have count := (nextDigits whole (by decide)).1
  exact ⟨decoded, (formed _).mp ⟨es, decoded⟩, fun src other => one _ _ es other decoded,
    refused _ (by simp) (by rw [sizeBytes]; decide) (by rw [count]; decide)⟩

end Snapshot
end OrphanFiles
