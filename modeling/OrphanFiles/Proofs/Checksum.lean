import Mathlib.Algebra.CharP.Two
import Mathlib.Algebra.Field.ZMod
import Mathlib.RingTheory.AdjoinRoot
import OrphanFiles.Proofs.Bursts

/-!
The checksum of IEEE 802.3.  Bits are the coefficients of a polynomial over the field of two elements, the first bit the
highest one; a byte starts with its lowest bit, and so does a register.  What is in the register is what the generator
leaves of the bytes: each bit that leaves it multiplies by `X`.  Main statement: an answer is the checksum of all bytes
that were fed since the last reset, whatever pieces they came in and whatever was asked between them, and bytes that
differ only within four consecutive ones have different checksums.
-/
namespace OrphanFiles.Crc32

open Polynomial

noncomputable def bitPolynomial (bits : List Bool) : (ZMod 2)[X] :=
  bits.foldl (fun p b => X * p + if b then 1 else 0) 0

def lowFirst (width n : Nat) : List Bool := (List.range width).map n.testBit

noncomputable def wordPolynomial (c : UInt32) : (ZMod 2)[X] := bitPolynomial (lowFirst 32 c.toNat)

noncomputable def messagePolynomial (bytes : List UInt8) : (ZMod 2)[X] :=
  bitPolynomial (bytes.flatMap fun b => lowFirst 8 b.toNat)

noncomputable def generator : (ZMod 2)[X] :=
  X ^ 32 + X ^ 26 + X ^ 23 + X ^ 22 + X ^ 16 + X ^ 12 + X ^ 11 + X ^ 10 + X ^ 8 + X ^ 7 + X ^ 5 + X ^ 4 + X ^ 2 + X + 1

noncomputable def ones : (ZMod 2)[X] := ∑ i ∈ Finset.range 32, X ^ i

def Standard (bytes : List UInt8) (checksum : UInt32) : Prop :=
  wordPolynomial checksum =
    (X ^ 32 * messagePolynomial bytes + X ^ (8 * bytes.length) * ones) %ₘ generator + ones

section Polynomials

theorem polynomialSnoc (bits : List Bool) (b : Bool) :
    bitPolynomial (bits ++ [b]) = X * bitPolynomial bits + if b then 1 else 0 := by
  rw [bitPolynomial, List.foldl_append]
  rfl

theorem polynomialAppend (front back : List Bool) :
    bitPolynomial (front ++ back) = X ^ back.length * bitPolynomial front + bitPolynomial back := by
  induction back using List.reverseRecOn with
  | nil => simp [bitPolynomial]
  | append_singleton back b ih =>
    rw [← List.append_assoc, polynomialSnoc, polynomialSnoc, ih, List.length_append, List.length_singleton]
    ring

theorem polynomialZeros (n : Nat) : bitPolynomial (List.replicate n false) = 0 := by
  induction n with
  | zero => rfl
  | succ n ih => simp [List.replicate_succ', polynomialSnoc, ih]

theorem polynomialOnes (n : Nat) : bitPolynomial (List.replicate n true) = ∑ i ∈ Finset.range n, X ^ i := by
  induction n with
  | zero => rfl
  | succ n ih =>
    rw [List.replicate_succ', polynomialSnoc, ih, Finset.sum_range_succ', Finset.mul_sum]
    simp [pow_succ']

theorem polynomialDegree (bits : List Bool) : (bitPolynomial bits).degree < bits.length := by
  induction bits using List.reverseRecOn with
  | nil => simp [bitPolynomial]
  | append_singleton bits b ih =>
    rw [polynomialSnoc, degree_lt_iff_coeff_zero] at *
    intro i far
    cases i with
    | zero => simp at far
    | succ i => cases b <;> simp_all [coeff_one]

theorem polynomialInj {xs ys : List Bool} (length : xs.length = ys.length)
    (same : bitPolynomial xs = bitPolynomial ys) : xs = ys := by
  induction xs using List.reverseRecOn generalizing ys with
  | nil => exact (List.length_eq_zero_iff.mp length.symm).symm
  | append_singleton xs x ih =>
    rcases List.eq_nil_or_concat ys with rfl | ⟨ys, y, rfl⟩
    · simp at length
    rw [List.concat_eq_append, polynomialSnoc, polynomialSnoc] at same
    have last : x = y := by
      have lowest := congrArg (coeff · 0) same
      cases x <;> cases y <;> simp at lowest ⊢
    subst last
    rw [ih (by simpa using length) (mul_left_cancel₀ X_ne_zero (add_right_cancel same)), List.concat_eq_append]

@[simp] theorem lengthLowFirst (width n : Nat) : (lowFirst width n).length = width := by
  simp [lowFirst]

theorem lowFirstAdd (j k n : Nat) : lowFirst (j + k) n = lowFirst j n ++ lowFirst k (n >>> j) := by
  simp [lowFirst, List.range_add, Nat.testBit_shiftRight, Function.comp_def]

theorem lowFirstZero (width : Nat) : lowFirst width 0 = List.replicate width false := by
  apply List.ext_getElem <;> simp [lowFirst]

theorem polynomialXor (width m n : Nat) : bitPolynomial (lowFirst width (m ^^^ n)) =
    bitPolynomial (lowFirst width m) + bitPolynomial (lowFirst width n) := by
  have digit (x y : Bool) : (if (x ^^ y) then 1 else 0 : (ZMod 2)[X]) = (if x then 1 else 0) + if y then 1 else 0 := by
    cases x <;> cases y <;> simp [CharTwo.add_self_eq_zero]
  induction width with
  | zero => simp [lowFirst, bitPolynomial]
  | succ width ih =>
    unfold lowFirst at ih ⊢
    simp only [List.range_succ, List.map_append, List.map_cons, List.map_nil, polynomialSnoc, ih, Nat.testBit_xor,
      digit]
    ring

theorem polynomialPadded {j n : Nat} (k : Nat) (small : n < 2 ^ j) :
    bitPolynomial (lowFirst (j + k) n) = X ^ k * bitPolynomial (lowFirst j n) := by
  rw [lowFirstAdd, Nat.shiftRight_eq_div_pow, Nat.div_eq_of_lt small, lowFirstZero, polynomialAppend, polynomialZeros,
    List.length_replicate, add_zero]

end Polynomials

section Words

variable {c d : UInt32} {n : Nat}

theorem wordXor (c d : UInt32) : wordPolynomial (c ^^^ d) = wordPolynomial c + wordPolynomial d := by
  rw [wordPolynomial, UInt32.toNat_xor, polynomialXor, wordPolynomial, wordPolynomial]

theorem wordInj (same : wordPolynomial c = wordPolynomial d) : c = d := by
  have bits := polynomialInj (by simp only [lengthLowFirst]) same
  apply UInt32.toNat_inj.mp
  apply Nat.eq_of_testBit_eq
  intro i
  by_cases inside : i < 32
  · have bit := congrArg (·[i]?) bits
    simpa [lowFirst, inside] using bit
  · have above (e : UInt32) : e.toNat.testBit i = false :=
      Nat.testBit_lt_two_pow (Nat.lt_of_lt_of_le e.toNat_lt (Nat.pow_le_pow_right (by decide) (by omega)))
    rw [above c, above d]

theorem wordDegree (c : UInt32) : (wordPolynomial c).degree < 32 := by
  have degree := polynomialDegree (lowFirst 32 c.toNat)
  rwa [lengthLowFirst] at degree

theorem wordSplit (c : UInt32) (few : n ≤ 32) : X ^ n * wordPolynomial c =
    X ^ 32 * bitPolynomial (lowFirst n c.toNat) + bitPolynomial (lowFirst 32 (c.toNat >>> n)) := by
  have small : c.toNat >>> n < 2 ^ (32 - n) := by
    rw [Nat.shiftRight_eq_div_pow, Nat.div_lt_iff_lt_mul (Nat.two_pow_pos n), ← Nat.pow_add, Nat.sub_add_cancel few]
    exact c.toNat_lt
  have whole := lowFirstAdd n (32 - n) c.toNat
  have rest := polynomialPadded n small
  rw [Nat.add_sub_cancel' few] at whole
  rw [Nat.sub_add_cancel few] at rest
  calc X ^ n * wordPolynomial c
      = X ^ (n + (32 - n)) * bitPolynomial (lowFirst n c.toNat) +
          X ^ n * bitPolynomial (lowFirst (32 - n) (c.toNat >>> n)) := by
        rw [wordPolynomial, whole, polynomialAppend, lengthLowFirst, pow_add]
        ring
    _ = _ := by rw [Nat.add_sub_cancel' few, rest]

theorem onesWord : wordPolynomial 0xFFFFFFFF = ones := by
  have bits : lowFirst 32 (0xFFFFFFFF : UInt32).toNat = List.replicate 32 true := by decide
  rw [wordPolynomial, bits, polynomialOnes, ones]

theorem generatorWord : generator = X ^ 32 + wordPolynomial 0xEDB88320 := by
  have bits : lowFirst 32 (0xEDB88320 : UInt32).toNat =
      [false, false, false, false, false, true, false, false, true, true, false, false, false, false, false, true,
        false, false, false, true, true, true, false, true, true, false, true, true, false, true, true, true] := by
    decide
  rw [wordPolynomial, bits, generator]
  simp only [bitPolynomial, List.foldl_cons, List.foldl_nil, if_true, if_false, Bool.false_eq_true]
  ring

theorem generatorMonic : generator.Monic := generatorWord ▸ monic_X_pow_add (wordDegree _)

theorem generatorDegree : generator.degree = 32 := by
  rw [generatorWord, degree_add_eq_left_of_degree_lt]
  · exact degree_X_pow 32
  · rw [degree_X_pow]
    exact wordDegree _

end Words

section Division

noncomputable abbrev residue : (ZMod 2)[X] →+* AdjoinRoot generator := AdjoinRoot.mk generator

theorem residueInj {p q : (ZMod 2)[X]} (same : residue p = residue q) : p %ₘ generator = q %ₘ generator :=
  modByMonic_eq_of_dvd_sub generatorMonic (AdjoinRoot.mk_eq_mk.mp same)

theorem residueTop : residue (X ^ 32) = residue (wordPolynomial 0xEDB88320) := by
  rw [AdjoinRoot.mk_eq_mk, CharTwo.sub_eq_add, ← generatorWord]

theorem residueShift (c : UInt32) : residue (wordPolynomial (shift c)) = residue (X * wordPolynomial c) := by
  have split := wordSplit c (n := 1) (by decide)
  have shifted : bitPolynomial (lowFirst 32 (c.toNat >>> 1)) = wordPolynomial (c >>> 1) := by
    rw [wordPolynomial, UInt32.toNat_shiftRight]
    rfl
  have lowest : bitPolynomial (lowFirst 1 c.toNat) = if c &&& 1 = 1 then 1 else 0 := by
    simp [← UInt32.toNat_inj, lowFirst, bitPolynomial]
  rw [pow_one, shifted, lowest] at split
  unfold shift
  split_ifs at split ⊢
  · rw [split, wordXor, mul_one, map_add, map_add, residueTop, add_comm]
  · rw [split, mul_zero, zero_add]

theorem residueShiftByte (c : UInt32) :
    residue (wordPolynomial (shiftByte c)) = residue (X ^ 8 * wordPolynomial c) := by
  unfold shiftByte
  simp only [residueShift, map_mul, map_pow]
  ring

theorem residueFeed (c : UInt32) (b : UInt8) : residue (wordPolynomial (feed c b)) =
    residue (X ^ 8 * wordPolynomial c + X ^ 32 * bitPolynomial (lowFirst 8 b.toNat)) := by
  have low : lowFirst 8 c.toUInt8.toNat = lowFirst 8 c.toNat := by
    rw [UInt32.toNat_toUInt8]
    apply List.map_congr_left
    intro i inside
    rw [Nat.testBit_mod_two_pow c.toNat 8 i, decide_eq_true (List.mem_range.mp inside), Bool.true_and]
  have entry (x : UInt8) :
      residue (wordPolynomial table[x.toFin]) = residue (X ^ 32 * bitPolynomial (lowFirst 8 x.toNat)) := by
    rw [tableGet, residueShiftByte, wordPolynomial, UInt8.toNat_toUInt32, polynomialPadded 24 x.toNat_lt, ← mul_assoc,
      ← pow_add]
  have split := wordSplit c (n := 8) (by decide)
  rw [wordPolynomial, toNatFeed, polynomialXor, split, map_add, ← wordPolynomial, entry, UInt8.toNat_xor,
    polynomialXor, low]
  simp only [map_add, map_mul]
  ring

theorem messageCons (b : UInt8) (bytes : List UInt8) : messagePolynomial (b :: bytes) =
    X ^ (8 * bytes.length) * bitPolynomial (lowFirst 8 b.toNat) + messagePolynomial bytes := by
  have rest : (bytes.flatMap fun b => lowFirst 8 b.toNat).length = 8 * bytes.length := by
    simp [List.length_flatMap, Nat.mul_comm]
  rw [messagePolynomial, List.flatMap_cons, polynomialAppend, rest, messagePolynomial]

theorem residueFold (bytes : List UInt8) (c : UInt32) : residue (wordPolynomial (bytes.foldl feed c)) =
    residue (X ^ 32 * messagePolynomial bytes + X ^ (8 * bytes.length) * wordPolynomial c) := by
  induction bytes generalizing c with
  | nil => simp [messagePolynomial, bitPolynomial]
  | cons b bytes ih =>
    rw [List.foldl_cons, ih, messageCons]
    simp only [map_add, map_mul, map_pow, residueFeed, List.length_cons, Nat.mul_succ, pow_add]
    ring

end Division

section Turns

inductive Turn where
  | reset
  | update (bytes : ByteArray)
  | value

def answers (c : Crc32) : List Turn → List UInt32
  | [] => []
  | .reset :: turns => c.reset.answers turns
  | .update bytes :: turns => (c.update bytes).answers turns
  | .value :: turns => c.value :: c.answers turns

/- The answers where `fed` is what was fed since the last reset.  An answer leaves that as it is. -/
inductive Told : List UInt8 → List Turn → List UInt32 → Prop where
  | nil {fed} : Told fed [] []
  | reset {fed turns values} (rest : Told [] turns values) : Told fed (.reset :: turns) values
  | update {fed bytes turns values} (rest : Told (fed ++ bytes.data.toList) turns values) :
      Told fed (.update bytes :: turns) values
  | value {fed v turns values} (standard : Standard fed v) (rest : Told fed turns values) :
      Told fed (.value :: turns) (v :: values)

def Holds (c : Crc32) (fed : List UInt8) : Prop := c.register = fed.foldl feed empty.register

variable {c : Crc32} {fed : List UInt8} {v : UInt32}

theorem emptyHolds : empty.Holds [] := rfl

theorem resetHolds (c : Crc32) : c.reset.Holds [] := rfl

theorem Holds.updated (holds : c.Holds fed) (bytes : ByteArray) :
    (c.update bytes).Holds (fed ++ bytes.data.toList) := by
  rw [Holds, updateEqFold, List.foldl_append, ← holds]

theorem Holds.standard (holds : c.Holds fed) : Standard fed c.value := by
  have divided := residueInj (residueFold fed empty.register)
  have preset : wordPolynomial empty.register = ones := onesWord
  have small : (wordPolynomial c.register).degree < generator.degree := by
    rw [generatorDegree]
    exact wordDegree _
  rw [← holds, (modByMonic_eq_self_iff generatorMonic).mpr small, preset] at divided
  rw [Standard, value, wordXor, onesWord, divided]

theorem Holds.valueIff (holds : c.Holds fed) : c.value = v ↔ Standard fed v := by
  constructor
  · rintro rfl
    exact holds.standard
  · intro standard
    exact wordInj (holds.standard.trans standard.symm)

theorem Holds.told (holds : c.Holds fed) (turns : List Turn) (values : List UInt32) :
    c.answers turns = values ↔ Told fed turns values := by
  induction turns generalizing c fed values with
  | nil =>
    constructor
    · rintro rfl
      exact .nil
    · rintro ⟨⟩
      rfl
  | cons turn turns ih =>
    cases turn with
    | reset =>
      rw [answers, ih c.resetHolds]
      exact ⟨.reset, fun | .reset rest => rest⟩
    | update bytes =>
      rw [answers, ih (holds.updated bytes)]
      exact ⟨.update, fun | .update rest => rest⟩
    | value =>
      constructor
      · rintro rfl
        exact .value holds.standard ((ih holds _).mp rfl)
      · rintro (_ | _ | _ | ⟨standard, rest⟩)
        rw [answers, holds.valueIff.mpr standard, (ih holds _).mpr rest]

theorem chunksJoined (c : Crc32) (front : ByteArray) (chunks : List ByteArray) :
    chunks.foldl update (c.update front) = c.update (chunks.foldl (· ++ ·) front) := by
  induction chunks generalizing front with
  | nil => rfl
  | cons chunk chunks ih => rw [List.foldl_cons, List.foldl_cons, ← updateAppend, ih]

theorem updateNothing (c : Crc32) : c.update .empty = c := updateEqFold c .empty

end Turns

theorem checksWhatIsFed :
    (∀ turns values, empty.answers turns = values ↔ Told [] turns values) ∧
    (∀ chunks, ofChunks chunks = ofBytes (chunks.foldl (· ++ ·) .empty)) ∧
    (∀ bytes v, ofBytes bytes = v ↔ Standard bytes.data.toList v) ∧
    ∀ a b off n, Altered a b off n → n ≤ 4 → ofBytes b ≠ ofBytes a := by
  refine ⟨emptyHolds.told, fun chunks => ?_, fun bytes v => (emptyHolds.updated bytes).valueIff,
    fun a b off n altered few => bytesAltered altered few⟩
  rw [ofBytes, ← chunksJoined, updateNothing, ofChunks]

def oneToThree : ByteArray := ⟨#[0x31, 0x32, 0x33]⟩
def fourToSeven : ByteArray := ⟨#[0x34, 0x35, 0x36, 0x37]⟩
def sevenToFour : ByteArray := ⟨#[0x37, 0x35, 0x36, 0x34]⟩
def eightNine : ByteArray := ⟨#[0x38, 0x39]⟩

theorem checksNineDigits :
    Told [] [.update (oneToThree ++ fourToSeven), .value, .update eightNine, .value, .reset, .value]
      [0x5003699F, 0xCBF43926, 0] ∧
    ofChunks [oneToThree, fourToSeven, eightNine] = 0xCBF43926 ∧
    Standard (oneToThree ++ fourToSeven ++ eightNine).data.toList 0xCBF43926 ∧
    Altered (oneToThree ++ fourToSeven ++ eightNine) (oneToThree ++ sevenToFour ++ eightNine) 3 4 ∧
    ofBytes (oneToThree ++ sevenToFour ++ eightNine) ≠ 0xCBF43926 := by
  have altered : Altered (oneToThree ++ fourToSeven ++ eightNine) (oneToThree ++ sevenToFour ++ eightNine) 3 4 :=
    .replaced oneToThree eightNine rfl (by decide)
  have answered : empty.answers
      [.update (oneToThree ++ fourToSeven), .value, .update eightNine, .value, .reset, .value] =
        [0x5003699F, 0xCBF43926, 0] := by
    decide +kernel
  have whole : ofBytes (oneToThree ++ fourToSeven ++ eightNine) = 0xCBF43926 := by
    rw [ofBytes, updateAppend]
    exact (List.cons.inj (List.cons.inj answered).2).1
  obtain ⟨told, joined, standard, differ⟩ := checksWhatIsFed
  refine ⟨(told _ _).mp answered, (joined _).trans whole, (standard _ _).mp whole, altered, ?_⟩
  rw [← whole]
  exact differ _ _ 3 4 altered (by decide)

end OrphanFiles.Crc32
