/-!
Fixed-width words, most significant byte first.  Main statements: a word reads back modulo `256 ^ width`,
and the digits of a read word are the bytes it was read from.
-/
namespace OrphanFiles.BigEndian

def digits : Nat → Nat → List UInt8
  | 0, _ => []
  | width + 1, n => digits width (n / 256) ++ [UInt8.ofNat n]

def value (ds : List UInt8) : Nat := ds.foldl (fun n d => 256 * n + d.toNat) 0

@[simp] theorem lengthDigits (width n : Nat) : (digits width n).length = width := by
  induction width generalizing n with
  | zero => rfl
  | succ width ih => simp [digits, ih]

@[simp] theorem valueNil : value [] = 0 := rfl

@[simp] theorem valueSnoc (ds : List UInt8) (d : UInt8) : value (ds ++ [d]) = 256 * value ds + d.toNat := by
  simp [value]

theorem valueDigits (width n : Nat) : value (digits width n) = n % Nat.pow 256 width := by
  induction width generalizing n with
  | zero => exact (Nat.mod_one n).symm
  | succ width ih =>
    have last : n % Nat.pow 256 (width + 1) = n % 256 + 256 * (n / 256 % Nat.pow 256 width) := by
      rw [show Nat.pow 256 (width + 1) = 256 * Nat.pow 256 width from Nat.mul_comm _ _]
      exact Nat.mod_mul
    rw [digits, valueSnoc, ih, last, Nat.add_comm]
    simp

theorem digitsValue (ds : List UInt8) : digits ds.length (value ds) = ds := by
  suffices h : ∀ rs : List UInt8, digits rs.length (value rs.reverse) = rs.reverse by
    simpa using h ds.reverse
  intro rs
  induction rs with
  | nil => rfl
  | cons d rs ih =>
    have low : d.toNat < 256 := d.toNat_lt
    have high : (256 * value rs.reverse + d.toNat) / 256 = value rs.reverse := by omega
    have last : UInt8.ofNat (256 * value rs.reverse + d.toNat) = d := by
      apply UInt8.toNat_inj.mp; simp
    rw [List.reverse_cons, valueSnoc, List.length_cons, digits, high, ih, last]

def bytes (width n : Nat) : ByteArray := ⟨(digits width n).toArray⟩

@[simp] theorem sizeBytes (width n : Nat) : (bytes width n).size = width := by
  simp [bytes, ByteArray.size]

def word (src : ByteArray) (off width : Nat) : Nat := value (src.extract off (off + width)).data.toList

end OrphanFiles.BigEndian
