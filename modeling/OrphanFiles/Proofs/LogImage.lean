import OrphanFiles.Proofs.Frames

/-!
The bytes of a log that holds given records: the header, and their frames one after the other.
-/
namespace OrphanFiles.Log

open BigEndian

abbrev Item := Kind × ByteArray

def blockOf (link lsn : UInt64) (item : Item) : ByteArray := (Frame.ofRecord link ⟨lsn, item.1, item.2⟩).encode

def linkPast (link lsn : UInt64) (item : Item) : UInt64 := nextLink link (blockOf link lsn item) item.2

def frames (link lsn : UInt64) : List Item → ByteArray
  | [] => .empty
  | item :: rest => blockOf link lsn item ++ item.2 ++ frames (linkPast link lsn item) (lsn + 1) rest

def linkAfter (link lsn : UInt64) : List Item → UInt64
  | [] => link
  | item :: rest => linkAfter (linkPast link lsn item) (lsn + 1) rest

def records (lsn : UInt64) : List Item → List Record
  | [] => []
  | (kind, payload) :: rest => ⟨lsn, kind, payload⟩ :: records (lsn + 1) rest

def extent : List Item → Nat
  | [] => 0
  | item :: rest => Sealed.size + item.2.size + extent rest

def image (h : Header) (items : List Item) : ByteArray := h.encode ++ frames firstLink h.start items

section Laws

variable {link lsn : UInt64}

@[simp] theorem sizeBlockOf (link lsn : UInt64) (item : Item) : (blockOf link lsn item).size = Sealed.size :=
  Frame.sizeEncode _

theorem nextPosition (lsn : UInt64) (n : Nat) : lsn + 1 + UInt64.ofNat n = lsn + UInt64.ofNat (n + 1) := by
  rw [UInt64.ofNat_add, UInt64.add_assoc, UInt64.add_comm 1]
  rfl

theorem positionOf {start : UInt64} {n : Nat} (room : start.toNat + n < UInt64.size) :
    (start + UInt64.ofNat n).toNat = start.toNat + n := by
  rw [UInt64.toNat_add, UInt64.toNat_ofNat_of_lt' (Nat.lt_of_le_of_lt (Nat.le_add_left ..) room)]
  exact Nat.mod_eq_of_lt room

theorem framesAppend (xs ys : List Item) : frames link lsn (xs ++ ys) =
    frames link lsn xs ++ frames (linkAfter link lsn xs) (lsn + UInt64.ofNat xs.length) ys := by
  induction xs generalizing link lsn with
  | nil => simp [frames, linkAfter]
  | cons x xs ih =>
    simp only [List.cons_append, frames, linkAfter, ih, List.length_cons, nextPosition, ByteArray.append_assoc]

theorem linkAfterAppend (xs ys : List Item) : linkAfter link lsn (xs ++ ys) =
    linkAfter (linkAfter link lsn xs) (lsn + UInt64.ofNat xs.length) ys := by
  induction xs generalizing link lsn with
  | nil => simp [linkAfter]
  | cons x xs ih => simp only [List.cons_append, linkAfter, ih, List.length_cons, nextPosition]

theorem sizeFrames (items : List Item) : (frames link lsn items).size = extent items := by
  induction items generalizing link lsn with
  | nil => rfl
  | cons item rest ih => simp [frames, extent, ih]

theorem extentAppend (xs ys : List Item) : extent (xs ++ ys) = extent xs + extent ys := by
  induction xs with
  | nil => simp [extent]
  | cons x xs ih => simp only [List.cons_append, extent, ih, Nat.add_assoc]

theorem sizeImage (h : Header) (items : List Item) : (image h items).size = Sealed.size + extent items := by
  simp [image, sizeFrames, Header.sizeEncode]

theorem imageSnoc (h : Header) (items : List Item) (item : Item) : image h (items ++ [item]) =
    image h items ++ (blockOf (linkAfter firstLink h.start items) (h.start + UInt64.ofNat items.length) item ++
      item.2) := by
  simp [image, framesAppend, frames, ByteArray.append_assoc]

theorem lengthRecords (items : List Item) : (records lsn items).length = items.length := by
  induction items generalizing lsn with
  | nil => rfl
  | cons item rest ih => simp [records, ih]

theorem recordsGet {items : List Item} {i : Nat} (inside : i < items.length) :
    (records lsn items)[i]? = some ⟨lsn + UInt64.ofNat i, items[i].1, items[i].2⟩ := by
  induction items generalizing lsn i with
  | nil => simp at inside
  | cons item rest ih =>
    cases i with
    | zero => simp [records]
    | succ i =>
      have := @ih (lsn + 1) i (by simpa using inside)
      simpa [records, nextPosition] using this

theorem recordsLast (items : List Item) :
    ((records lsn items).getLast?.elim lsn fun last => last.lsn + 1) = lsn + UInt64.ofNat items.length := by
  rw [List.getLast?_eq_getElem?, lengthRecords]
  rcases Nat.eq_zero_or_pos items.length with none | some
  · rw [List.length_eq_zero_iff.mp none]
    simp [records]
  · rw [recordsGet (Nat.sub_lt some Nat.one_pos)]
    have last : items.length - 1 + 1 = items.length := Nat.sub_add_cancel some
    rw [Option.elim_some, UInt64.add_assoc, UInt64.add_comm _ 1, ← UInt64.add_assoc, nextPosition, last]

end Laws

def fitting : Nat → List Item → List Item
  | _, [] => []
  | n, item :: rest =>
    if Sealed.size + item.2.size ≤ n then item :: fitting (n - (Sealed.size + item.2.size)) rest else []

theorem fittingPrefix (n : Nat) (items : List Item) : fitting n items <+: items := by
  induction items generalizing n with
  | nil => exact List.prefix_refl _
  | cons item rest ih =>
    unfold fitting
    split
    · exact (List.prefix_cons_inj item).mpr (ih _)
    · exact List.nil_prefix

theorem extentFitting (n : Nat) (items : List Item) : extent (fitting n items) ≤ n := by
  induction items generalizing n with
  | nil => exact Nat.zero_le n
  | cons item rest ih =>
    unfold fitting
    split
    · next fits =>
      have := ih (n - (Sealed.size + item.2.size))
      rw [extent]
      omega
    · exact Nat.zero_le n

theorem fittingLongest {n : Nat} {items kept : List Item} (part : kept <+: items) (fits : extent kept ≤ n) :
    kept <+: fitting n items := by
  induction items generalizing n kept with
  | nil => exact part
  | cons item rest ih =>
    cases kept with
    | nil => exact List.nil_prefix
    | cons first kept =>
      obtain ⟨same, inner⟩ := List.cons_prefix_cons.mp part
      subst same
      rw [extent] at fits
      rw [fitting, if_pos (by omega)]
      exact (List.prefix_cons_inj first).mpr (ih inner (by omega))

theorem fittingAll {n : Nat} {items : List Item} (room : extent items ≤ n) : fitting n items = items :=
  (fittingPrefix n items).eq_of_length_le (fittingLongest (List.prefix_refl items) room).length_le

theorem imagePrefix {h : Header} {items kept : List Item} (part : kept <+: items) :
    (image h items).extract 0 (Sealed.size + extent kept) = image h kept := by
  obtain ⟨rest, rfl⟩ := part
  apply listInj
  have length := (lengthList (image h kept)).trans (sizeImage h kept)
  have around : image h (kept ++ rest) = image h kept ++
      frames (linkAfter firstLink h.start kept) (h.start + UInt64.ofNat kept.length) rest := by
    rw [image, framesAppend, ← ByteArray.append_assoc]
    rfl
  rw [listExtract, around, listAppend, List.drop_zero, Nat.sub_zero, ← length, List.take_left]

end OrphanFiles.Log
