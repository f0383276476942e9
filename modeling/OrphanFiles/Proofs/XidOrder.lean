import Mathlib.Data.Nat.Basic
import Mathlib.Order.RelClasses
import Mathlib.Order.RelIso.Basic
import OrphanFiles.Proofs.RedoTable

/-!
What the order of transaction ids is an order of.  Between normal ids "older" is read off the distance from one to the
other, which is an order only where no two ids are more than half a turn apart; there it is the order of their places.
-/
namespace OrphanFiles.Xid

def ahead (x y : Xid) : Nat := (y.number - x.number).toNat

theorem aheadEqZero {x y : Xid} : x.ahead y = 0 ↔ x = y := by
  obtain ⟨x⟩ := x
  obtain ⟨y⟩ := y
  simp only [ahead, mk.injEq, ← UInt32.toNat_inj, UInt32.toNat_sub]
  have := x.toNat_lt
  have := y.toNat_lt
  omega

theorem aheadBack {x y : Xid} (differ : x ≠ y) : x.ahead y + y.ahead x = 0x100000000 := by
  have positive := mt aheadEqZero.mp differ
  simp only [ahead, UInt32.toNat_sub] at positive ⊢
  have := x.number.toNat_lt
  have := y.number.toNat_lt
  omega

theorem aheadBetween (s x y : Xid) (later : s.ahead x ≤ s.ahead y) : x.ahead y = s.ahead y - s.ahead x := by
  simp only [ahead, UInt32.toNat_sub] at later ⊢
  have := s.number.toNat_lt
  have := x.number.toNat_lt
  have := y.number.toNat_lt
  omega

theorem precedesPermanent {x y : Xid} (permanent : x.isNormal = false ∨ y.isNormal = false) :
    x.precedes y = true ↔ x.number < y.number := by
  have : (x.isNormal && y.isNormal) = false := Bool.and_eq_false_iff.mpr permanent
  simp [precedes, this]

theorem precedesNormal {x y : Xid} (left : x.isNormal = true) (right : y.isNormal = true) :
    x.precedes y = true ↔ 0 < x.ahead y ∧ x.ahead y ≤ 0x80000000 := by
  simp only [precedes, left, right, Bool.and_self, if_true, decide_eq_true_eq, UInt32.le_iff_toNat_le, ahead,
    UInt32.toNat_sub]
  have := x.number.toNat_lt
  have := y.number.toNat_lt
  have half : (0x80000000 : UInt32).toNat = 0x80000000 := rfl
  omega

theorem isNormalIff {x : Xid} : x.isNormal = true ↔ 3 ≤ x.number := decide_eq_true_iff

theorem isNormalNot {x : Xid} : x.isNormal = false ↔ x.number < 3 := by
  rw [← Bool.not_eq_true, isNormalIff, UInt32.not_le]

section Normals

variable {x y : Xid}

theorem precedesNeither (left : x.isNormal = true) (right : y.isNormal = true) :
    (x.precedes y = false ∧ y.precedes x = false) ↔ x = y := by
  rw [← Bool.not_eq_true, ← Bool.not_eq_true, precedesNormal left right, precedesNormal right left]
  by_cases same : x = y
  · have here := aheadEqZero.mpr same
    have there := aheadEqZero.mpr same.symm
    exact iff_of_true ⟨by omega, by omega⟩ same
  · have turn := aheadBack same
    have := mt aheadEqZero.mp same
    have := mt aheadEqZero.mp (Ne.symm same)
    refine iff_of_false (fun ⟨here, there⟩ => ?_) same
    omega

theorem precedesBoth (left : x.isNormal = true) (right : y.isNormal = true) :
    (x.precedes y = true ∧ y.precedes x = true) ↔ x.ahead y = 0x80000000 := by
  rw [precedesNormal left right, precedesNormal right left]
  by_cases same : x = y
  · have here := aheadEqZero.mpr same
    omega
  · have turn := aheadBack same
    omega

end Normals

/- Some consecutive ids, where the first follows on the last, but no more than half a turn of them. -/
structure Window where
  start : Xid
  size : Nat
  half : size ≤ 0x80000000

namespace Window

variable {w : Window} {x y : Xid} {i j : Nat}

def At (w : Window) (i : Nat) (x : Xid) : Prop := i < w.size ∧ x.number = w.start.number + .ofNat i

def Normal (w : Window) : Type := { x : Xid // x.isNormal = true ∧ ∃ i, w.At i x }

theorem At.ahead (place : w.At i x) : w.start.ahead x = i := by
  obtain ⟨inside, number⟩ := place
  have half := w.half
  have word : i < UInt32.size := Nat.lt_of_lt_of_le inside (Nat.le_trans half (by decide))
  rw [Xid.ahead, number, UInt32.toNat_sub, UInt32.toNat_add, UInt32.toNat_ofNat_of_lt' word]
  have := w.start.number.toNat_lt
  omega

theorem At.unique (left : w.At i x) (right : w.At i y) : x = y := by
  obtain ⟨x⟩ := x
  obtain ⟨y⟩ := y
  exact congrArg Xid.mk (left.2.trans right.2.symm)

theorem precedesPlaces (left : w.At i x) (right : w.At j y) (normal : x.isNormal = true) (normal' : y.isNormal = true) :
    x.precedes y = true ↔ i < j := by
  rw [precedesNormal normal normal']
  have here := left.ahead
  have there := right.ahead
  have half := w.half
  have := left.1
  have := right.1
  rcases Nat.le_total i j with later | later
  · have way := aheadBetween w.start x y (by omega)
    omega
  · have way := aheadBetween w.start y x (by omega)
    by_cases same : x = y
    · have := aheadEqZero.mpr same
      omega
    · have turn := aheadBack same
      have := mt aheadEqZero.mp (Ne.symm same)
      omega

def places (w : Window) : (fun x y : w.Normal => x.1.precedes y.1 = true) ↪r ((· < ·) : Nat → Nat → Prop) where
  toFun x := w.start.ahead x.1
  inj' := by
    rintro ⟨x, -, i, left⟩ ⟨y, -, j, right⟩ (same : w.start.ahead x = w.start.ahead y)
    rw [left.ahead, right.ahead] at same
    subst same
    exact Subtype.ext (left.unique right)
  map_rel_iff' := by
    rintro ⟨x, normal, i, left⟩ ⟨y, normal', j, right⟩
    change w.start.ahead x < w.start.ahead y ↔ x.precedes y = true
    rw [left.ahead, right.ahead, precedesPlaces left right normal normal']

end Window

theorem ordersWithinHalfTurn :
    (∀ x y : Xid, x.number < 3 ∨ y.number < 3 → (x.precedes y = true ↔ x.number < y.number)) ∧
    (∀ x y : Xid, x.number < 3 → 3 ≤ y.number → x.precedes y = true ∧ y.precedes x = false) ∧
    (∀ x y : Xid, 3 ≤ x.number → 3 ≤ y.number →
      ((x.precedes y = false ∧ y.precedes x = false) ↔ x = y) ∧
      ((x.precedes y = true ∧ y.precedes x = true) ↔ x.ahead y = 0x80000000) ∧
      (x ≠ y → x.ahead y ≠ 0x80000000 → (x.precedes y = true ↔ y.precedes x = false))) ∧
    ∀ w : Window, IsStrictTotalOrder w.Normal (fun x y => x.1.precedes y.1 = true) ∧
      (∀ i j x y, w.At i x → w.At j y → 3 ≤ x.number → 3 ≤ y.number → (x.precedes y = true ↔ i < j)) ∧
      ∀ {τ : Type} [StatusSource τ] (source : τ) (k : Nat), w.At k (StatusSource.oldest source) →
        3 ≤ (StatusSource.oldest source).number →
        ∀ i x, w.At i x → 3 ≤ x.number → (judge source x = .beforeHorizon ↔ i < k) := by
  have permanent : ∀ x y : Xid, x.number < 3 ∨ y.number < 3 → (x.precedes y = true ↔ x.number < y.number) := by
    intro x y low
    exact precedesPermanent (low.imp isNormalNot.mpr isNormalNot.mpr)
  refine ⟨permanent, fun x y low high => ⟨?_, ?_⟩, fun x y left right => ?_, fun w => ⟨?_, ?_, ?_⟩⟩
  · exact (permanent x y (.inl low)).mpr (UInt32.lt_of_lt_of_le low high)
  · rw [← Bool.not_eq_true, permanent y x (.inr low), UInt32.not_lt]
    exact UInt32.le_of_lt (UInt32.lt_of_lt_of_le low high)
  · rw [← isNormalIff] at left right
    have neither := precedesNeither left right
    have both := precedesBoth left right
    refine ⟨neither, both, fun differ apart => ?_⟩
    have one := mt neither.mp differ
    have other := mt both.mp apart
    cases h : x.precedes y <;> cases h' : y.precedes x <;> simp_all
  · exact w.places.isStrictTotalOrder
  · intro i j x y left right normal normal'
    exact Window.precedesPlaces left right (isNormalIff.mpr normal) (isNormalIff.mpr normal')
  · intro τ _ source k horizon normal i x place normal'
    rw [judgeBeforeHorizon]
    exact Window.precedesPlaces place horizon (isNormalIff.mpr normal') (isNormalIff.mpr normal)

theorem ordersAcrossTheLast : ∃ w : Window, w.start = ⟨0xFFFFFFFE⟩ ∧ w.size = 8 ∧
    w.At 1 ⟨0xFFFFFFFF⟩ ∧ w.At 6 ⟨4⟩ ∧ w.At 7 ⟨5⟩ ∧
    judge (τ := Ledger) { oldest := ⟨4⟩ } ⟨0xFFFFFFFF⟩ = .beforeHorizon ∧
    judge (τ := Ledger) { oldest := ⟨4⟩ } ⟨5⟩ ≠ .beforeHorizon ∧
    precedes ⟨2⟩ ⟨0xFFFFFFFF⟩ = true ∧ precedes ⟨5⟩ ⟨0x80000005⟩ = true ∧ precedes ⟨0x80000005⟩ ⟨5⟩ = true := by
  obtain ⟨-, permanent, normal, windows⟩ := ordersWithinHalfTurn
  let w : Window := ⟨⟨0xFFFFFFFE⟩, 8, by decide⟩
  have early : w.At 1 ⟨0xFFFFFFFF⟩ := ⟨by decide, by decide⟩
  have horizon : w.At 6 ⟨4⟩ := ⟨by decide, by decide⟩
  have late : w.At 7 ⟨5⟩ := ⟨by decide, by decide⟩
  have judged := (windows w).2.2 (τ := Ledger) { oldest := ⟨4⟩ } 6 horizon (by decide)
  have antipode := (normal ⟨5⟩ ⟨0x80000005⟩ (by decide) (by decide)).2.1.mpr (by decide)
  refine ⟨w, rfl, rfl, early, horizon, late, ?_, ?_, ?_, antipode⟩
  · exact (judged 1 _ early (by decide)).mpr (by decide)
  · exact mt (judged 7 _ late (by decide)).mp (by decide)
  · exact (permanent ⟨2⟩ ⟨0xFFFFFFFF⟩ (by decide) (by decide)).1

end OrphanFiles.Xid
