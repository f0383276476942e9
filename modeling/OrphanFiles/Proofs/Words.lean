import OrphanFiles.BigEndian

/-!
Words inside longer bytes.  The bytes are split into the part before a word, its digits, and the part behind it.
-/
namespace OrphanFiles.BigEndian

theorem listExtract (src : ByteArray) (i j : Nat) :
    (src.extract i j).data.toList = (src.data.toList.drop i).take (j - i) := by
  rw [ByteArray.data_extract, Array.toList_extract, List.extract_eq_take_drop]

@[simp] theorem listAppend (a b : ByteArray) : (a ++ b).data.toList = a.data.toList ++ b.data.toList := by
  rw [ByteArray.data_append, Array.toList_append]

@[simp] theorem listBytes (width n : Nat) : (bytes width n).data.toList = digits width n := rfl

theorem lengthList (src : ByteArray) : src.data.toList.length = src.size := rfl

theorem listInj {a b : ByteArray} (same : a.data.toList = b.data.toList) : a = b :=
  ByteArray.ext (Array.toList_inj.mp same)

theorem wordEqValue (src : ByteArray) (off width : Nat) :
    word src off width = value ((src.data.toList.drop off).take width) := by
  rw [word, listExtract, Nat.add_sub_cancel_left]

theorem nextWord {src : ByteArray} {ds rest : List UInt8} {off width : Nat}
    (here : src.data.toList.drop off = ds ++ rest) (long : ds.length = width) :
    word src off width = value ds ∧ src.data.toList.drop (off + width) = rest := by
  constructor
  · rw [wordEqValue, here, ← long, List.take_left]
  · rw [← List.drop_drop, here, ← long, List.drop_left]

theorem nextDigits {src : ByteArray} {rest : List UInt8} {off width n : Nat}
    (here : src.data.toList.drop off = digits width n ++ rest) (small : n < Nat.pow 256 width) :
    word src off width = n ∧ src.data.toList.drop (off + width) = rest := by
  obtain ⟨first, behind⟩ := nextWord here (lengthDigits width n)
  exact ⟨by rw [first, valueDigits, Nat.mod_eq_of_lt small], behind⟩

section Chunks

variable {α : Type} {chunk : α → List UInt8} {size : Nat}

theorem lengthChunks (sized : ∀ a, (chunk a).length = size) (xs : List α) :
    (xs.flatMap chunk).length = xs.length * size := by
  have each : xs.map (fun a => (chunk a).length) = List.replicate xs.length size := by
    simp only [sized, List.map_const']
  rw [List.length_flatMap, each, List.sum_replicate_nat]

theorem dropChunks (sized : ∀ a, (chunk a).length = size) {xs : List α} {i : Nat} (inside : i < xs.length) :
    (xs.flatMap chunk).drop (i * size) = chunk xs[i] ++ (xs.drop (i + 1)).flatMap chunk := by
  have total : ((xs.take i).flatMap chunk).length = i * size := by
    rw [lengthChunks sized, List.length_take, Nat.min_eq_left (Nat.le_of_lt inside)]
  have around : xs = xs.take i ++ xs[i] :: xs.drop (i + 1) := by
    rw [← List.drop_eq_getElem_cons inside, List.take_append_drop]
  calc (xs.flatMap chunk).drop (i * size)
      = ((xs.take i ++ xs[i] :: xs.drop (i + 1)).flatMap chunk).drop (i * size) := by rw [← around]
    _ = _ := by rw [List.flatMap_append, ← total, List.drop_left, List.flatMap_cons]

end Chunks

end OrphanFiles.BigEndian
