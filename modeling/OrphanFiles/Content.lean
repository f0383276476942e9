/-!
What is in a file, as stretches that were written and stretches that were skipped.  A skipped stretch reads as
zeros and takes no room, so a file can be far larger than all that was ever written to it.  Each operation is
described by what it does to the bytes.
-/
namespace OrphanFiles

def zeros (n : Nat) : ByteArray := ⟨Array.replicate n 0⟩

@[simp] theorem sizeZeros (n : Nat) : (zeros n).size = n := by
  simp [zeros, ByteArray.size]

theorem extractZeros (n i j : Nat) : (zeros n).extract i j = zeros (min j n - i) := by
  apply ByteArray.ext
  simp [zeros, ByteArray.data_extract]

theorem zerosAdd (m n : Nat) : zeros (m + n) = zeros m ++ zeros n := by
  apply ByteArray.ext
  simp [zeros, ByteArray.data_append, Array.replicate_append_replicate]

inductive Stretch where
  | written (bytes : ByteArray)
  | skipped (size : Nat)

namespace Stretch

def size : Stretch → Nat
  | written bytes => bytes.size
  | skipped n => n

def bytes : Stretch → ByteArray
  | written bytes => bytes
  | skipped n => zeros n

def slice (s : Stretch) (i j : Nat) : Stretch :=
  match s with
  | written bytes => written (bytes.extract i j)
  | skipped n => skipped (min j n - i)

@[simp] theorem sizeBytes (s : Stretch) : s.bytes.size = s.size := by
  cases s <;> simp [bytes, size]

@[simp] theorem bytesSlice (s : Stretch) (i j : Nat) : (s.slice i j).bytes = s.bytes.extract i j := by
  cases s <;> simp [slice, bytes, extractZeros]

end Stretch

abbrev Content := List Stretch

namespace Content

def size : Content → Nat
  | [] => 0
  | s :: c => s.size + size c

def bytes : Content → ByteArray
  | [] => .empty
  | s :: c => s.bytes ++ bytes c

@[simp] theorem sizeBytes (c : Content) : (bytes c).size = size c := by
  induction c with
  | nil => rfl
  | cons s c ih => simp [bytes, size, ih]

def prepend (s : Stretch) (c : Content) : Content :=
  if s.size = 0 then c
  else match s, c with
    | .written a, .written b :: c => .written (a ++ b) :: c
    | .skipped m, .skipped n :: c => .skipped (m + n) :: c
    | s, c => s :: c

def append (c d : Content) : Content := c.foldr prepend d

@[simp] theorem bytesPrepend (s : Stretch) (c : Content) : bytes (prepend s c) = s.bytes ++ bytes c := by
  unfold prepend
  split
  · next none =>
    have : s.bytes = .empty := ByteArray.size_eq_zero_iff.mp (by simpa using none)
    simp [this]
  · split <;> simp [bytes, Stretch.bytes, zerosAdd, ByteArray.append_assoc]

@[simp] theorem bytesAppend (c d : Content) : bytes (append c d) = bytes c ++ bytes d := by
  induction c with
  | nil => simp [append, bytes]
  | cons s c ih => simp_all [append, bytes, ByteArray.append_assoc]

def take : Nat → Content → Content
  | _, [] => []
  | n, s :: c => if n < s.size then [s.slice 0 n] else s :: take (n - s.size) c

def drop : Nat → Content → Content
  | _, [] => []
  | n, s :: c => if n < s.size then s.slice n s.size :: c else drop (n - s.size) c

def read (i j : Nat) : Content → ByteArray
  | [] => .empty
  | s :: c =>
    if j ≤ s.size then (s.slice i j).bytes
    else if s.size ≤ i then read (i - s.size) (j - s.size) c
    else (s.slice i s.size).bytes ++ read 0 (j - s.size) c

theorem extractBeyond {b : ByteArray} {i : Nat} (h : b.size ≤ i) (j : Nat) : b.extract i j = .empty :=
  ByteArray.extract_eq_empty_iff.mpr (by omega)

theorem extractClamp {b : ByteArray} {j : Nat} (h : b.size ≤ j) (i : Nat) : b.extract i j = b.extract i b.size := by
  apply ByteArray.ext
  rw [ByteArray.data_extract, ByteArray.data_extract]
  rcases Nat.lt_or_eq_of_le h with before | same
  · exact Array.extract_of_size_lt before
  · rw [← same]

theorem extractWhole {b : ByteArray} {j : Nat} (h : b.size ≤ j) : b.extract 0 j = b := by
  rw [extractClamp h, ByteArray.extract_zero_size]

@[simp] theorem bytesTake (n : Nat) (c : Content) : bytes (take n c) = (bytes c).extract 0 n := by
  induction c generalizing n with
  | nil => simp [take, bytes, extractBeyond]
  | cons s c ih =>
    unfold take
    split
    · next inside => simp [bytes, ByteArray.extract_append, Nat.sub_eq_zero_of_le (Nat.le_of_lt inside)]
    · next outside =>
      have whole := extractWhole (b := s.bytes) (j := n) (by simp; omega)
      simp [bytes, ByteArray.extract_append, ih, whole]

@[simp] theorem bytesDrop (n : Nat) (c : Content) : bytes (drop n c) = (bytes c).extract n (size c) := by
  induction c generalizing n with
  | nil => simp [drop, bytes, extractBeyond]
  | cons s c ih =>
    unfold drop
    split
    · next inside =>
      have front := extractClamp (b := s.bytes) (j := s.size + size c) (by simp) n
      have rest := extractWhole (b := bytes c) (j := size c) (by simp)
      simp [bytes, size, ByteArray.extract_append, front, rest, Nat.sub_eq_zero_of_le (Nat.le_of_lt inside)]
    · next outside =>
      have gone := extractBeyond (b := s.bytes) (i := n) (by simp; omega) (s.size + size c)
      simp [bytes, size, ByteArray.extract_append, ih, gone]

theorem readEq (i j : Nat) (c : Content) : read i j c = (bytes c).extract i j := by
  induction c generalizing i j with
  | nil => simp [read, bytes, extractBeyond]
  | cons s c ih =>
    unfold read
    split
    · next inside =>
      have gone : (bytes c).extract (i - s.size) 0 = .empty := ByteArray.extract_eq_empty_iff.mpr (by omega)
      simp [bytes, ByteArray.extract_append, Nat.sub_eq_zero_of_le inside, gone]
    · split
      · next beyond =>
        have gone := extractBeyond (b := s.bytes) (i := i) (by simpa using beyond) j
        simp [bytes, ByteArray.extract_append, ih, gone]
      · next across =>
        have front := extractClamp (b := s.bytes) (j := j) (by simp; omega) i
        simp [bytes, ByteArray.extract_append, ih, front, Nat.sub_eq_zero_of_le (by omega : i ≤ s.size)]

def resize (n : Nat) (c : Content) : Content :=
  append (take n c) (prepend (.skipped (n - size c)) [])

def overwrite (off : Nat) (src : ByteArray) (c : Content) : Content :=
  if src.size = 0 then c else append (resize off c) (prepend (.written src) (drop (off + src.size) c))

theorem bytesResize (n : Nat) (c : Content) :
    bytes (resize n c) = (bytes c).extract 0 n ++ zeros (n - size c) := by
  simp [resize, bytes, Stretch.bytes]

theorem bytesOverwrite (off : Nat) (src : ByteArray) (c : Content) (h : src.size ≠ 0) :
    bytes (overwrite off src c) =
      (bytes c).extract 0 off ++ zeros (off - size c) ++ src ++ (bytes c).extract (off + src.size) (size c) := by
  simp [overwrite, h, bytesResize, Stretch.bytes, ByteArray.append_assoc]

theorem sizeResize (n : Nat) (c : Content) : size (resize n c) = n := by
  rw [← sizeBytes, bytesResize]; simp; omega

theorem sizeOverwrite (off : Nat) (src : ByteArray) (c : Content) :
    size (overwrite off src c) = if src.size = 0 then size c else max (size c) (off + src.size) := by
  split
  · next h => simp [overwrite, h]
  · next h => rw [← sizeBytes, bytesOverwrite off src c h]; simp; omega

end Content
end OrphanFiles
