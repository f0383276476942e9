import OrphanFiles.Crc32
import OrphanFiles.Proofs.Words

/-!
The burst guarantee of the checksum.  The top byte of a table entry tells which entry it is, so a register tells which
four bytes came last; bytes that were altered only within four consecutive ones have another checksum.
-/
namespace OrphanFiles

structure Altered (a b : ByteArray) (off n : Nat) : Prop where
  size : b.size = a.size
  others : ∀ i, i < off ∨ off + n ≤ i → b.data.toList[i]? = a.data.toList[i]?
  differ : b ≠ a

namespace Altered

open BigEndian

variable {a b : ByteArray} {off n lo hi : Nat}

theorem around (altered : Altered a b off n) : b.data.toList.take off = a.data.toList.take off ∧
    b.data.toList.drop (off + n) = a.data.toList.drop (off + n) := by
  constructor
  · apply List.ext_getElem?
    intro i
    rw [List.getElem?_take, List.getElem?_take]
    split
    · next front => exact altered.others i (.inl front)
    · rfl
  · apply List.ext_getElem?
    intro i
    rw [List.getElem?_drop, List.getElem?_drop]
    exact altered.others _ (.inr (Nat.le_add_right ..))

theorem elsewhere (altered : Altered a b off n) (apart : hi ≤ off ∨ off + n ≤ lo) :
    b.extract lo hi = a.extract lo hi := by
  apply listInj
  apply List.ext_getElem?
  intro i
  simp only [listExtract, List.getElem?_take, List.getElem?_drop]
  split
  · exact altered.others _ (by omega)
  · rfl

theorem inside (altered : Altered a b off n) (first : lo ≤ off) (last : off + n ≤ hi) :
    Altered (a.extract lo hi) (b.extract lo hi) (off - lo) n := by
  refine ⟨?_, fun i outside => ?_, fun same => altered.differ ?_⟩
  · rw [ByteArray.size_extract, ByteArray.size_extract, altered.size]
  · simp only [listExtract, List.getElem?_take, List.getElem?_drop]
    split
    · exact altered.others _ (by omega)
    · rfl
  · apply listInj
    apply List.ext_getElem?
    intro i
    by_cases here : i < lo ∨ hi ≤ i
    · exact altered.others i (by omega)
    · have there := congrArg (fun part => part.data.toList[i - lo]?) same
      simp only [listExtract, List.getElem?_take, List.getElem?_drop] at there
      rwa [if_pos (by omega), if_pos (by omega), Nat.add_sub_cancel' (by omega)] at there

theorem replaced (front back : ByteArray) {old new : ByteArray} (size : new.size = old.size) (differ : new ≠ old) :
    Altered (front ++ old ++ back) (front ++ new ++ back) front.size old.size := by
  have length : new.data.toList.length = old.data.toList.length := size
  refine ⟨by simp only [ByteArray.size_append, size], fun i outside => ?_, fun same => differ ?_⟩
  · simp only [listAppend, List.getElem?_append, List.length_append, length]
    rw [← lengthList, ← lengthList] at outside
    split
    · split
      · rfl
      · omega
    · rfl
  · have same := congrArg (fun bytes => bytes.data.toList) same
    simp only [listAppend, List.append_assoc, List.append_cancel_left_eq] at same
    exact listInj (List.append_inj_left same length)

end Altered

namespace Crc32

section Table

theorem lowBit (c : UInt32) : c &&& 1 = 0 ∨ c &&& 1 = 1 := by
  have low : (c &&& 1).toNat = c.toNat % 2 := by
    rw [UInt32.toNat_and]
    exact Nat.and_one_is_mod _
  rcases Nat.mod_two_eq_zero_or_one c.toNat with even | odd
  · exact .inl (UInt32.toNat_inj.mp (low.trans even))
  · exact .inr (UInt32.toNat_inj.mp (low.trans odd))

theorem shiftXor (c d : UInt32) : shift (c ^^^ d) = shift c ^^^ shift d := by
  have low : (c ^^^ d) &&& 1 = (c &&& 1) ^^^ (d &&& 1) := by
    apply UInt32.toNat_inj.mp
    simp only [UInt32.toNat_and, UInt32.toNat_xor, Nat.and_xor_distrib_right]
  have swap (x y p : UInt32) : x ^^^ y ^^^ p = x ^^^ p ^^^ y := by
    rw [UInt32.xor_assoc, UInt32.xor_comm y, ← UInt32.xor_assoc]
  have twice (x y p : UInt32) : x ^^^ y = x ^^^ p ^^^ (y ^^^ p) := by
    rw [← UInt32.xor_assoc, swap x p y, UInt32.xor_assoc (x ^^^ y), UInt32.xor_self, UInt32.xor_zero]
  unfold shift
  rw [low, UInt32.shiftRight_xor]
  rcases lowBit c with even | odd <;> rcases lowBit d with even' | odd'
  · simp [even, even']
  · simp [even, odd', UInt32.xor_assoc]
  · simpa [odd, even'] using swap _ _ _
  · simpa [odd, odd'] using twice _ _ _

theorem shiftByteXor (c d : UInt32) : shiftByte (c ^^^ d) = shiftByte c ^^^ shiftByte d := by
  simp only [shiftByte, shiftXor]

theorem tableGet (x : UInt8) : table[x.toFin] = shiftByte x.toUInt32 := by
  simp [table]

theorem topZero (x : UInt8) (zero : (shiftByte x.toUInt32).toNat >>> 24 = 0) : x = 0 := by
  have all : ∀ i : Fin 256, (shiftByte (UInt8.ofFin i).toUInt32).toNat >>> 24 = 0 → i = 0 := by decide +kernel
  exact UInt8.toFin_inj.mp (all x.toFin zero)

theorem topInj {x y : UInt8} (same : table[x.toFin].toNat >>> 24 = table[y.toFin].toNat >>> 24) : x = y := by
  rw [tableGet, tableGet] at same
  have zero : (shiftByte (x ^^^ y).toUInt32).toNat >>> 24 = 0 := by
    rw [UInt8.toUInt32_xor, shiftByteXor, UInt32.toNat_xor, Nat.shiftRight_xor_distrib, same, Nat.xor_self]
  exact UInt8.xor_eq_zero_iff.mp (topZero _ zero)

end Table

section Register

variable {c d : UInt32} {x y : UInt8} {xs ys : List UInt8} {n : Nat}

def Agree (n : Nat) (c d : UInt32) : Prop := c.toNat >>> n = d.toNat >>> n

theorem Agree.ofEq (same : c = d) (n : Nat) : Agree n c d := by
  rw [same, Agree]

theorem toNatFeed (c : UInt32) (x : UInt8) :
    (feed c x).toNat = table[(c.toUInt8 ^^^ x).toFin].toNat ^^^ c.toNat >>> 8 := by
  rw [feed, UInt32.toNat_xor, UInt32.toNat_shiftRight]
  rfl

theorem feedTop (c : UInt32) (x : UInt8) :
    (feed c x).toNat >>> 24 = table[(c.toUInt8 ^^^ x).toFin].toNat >>> 24 := by
  have gone : c.toNat >>> 8 >>> 24 = 0 := by
    rw [← Nat.shiftRight_add, Nat.shiftRight_eq_div_pow]
    exact Nat.div_eq_of_lt c.toNat_lt
  rw [toNatFeed, Nat.shiftRight_xor_distrib, gone, Nat.xor_zero]

theorem feedAgree (few : n ≤ 24) (same : Agree n (feed c x) (feed d y)) :
    c.toUInt8 ^^^ x = d.toUInt8 ^^^ y ∧ Agree (n + 8) c d := by
  have top := congrArg (· >>> (24 - n)) same
  simp only [← Nat.shiftRight_add, Nat.add_sub_cancel' few, feedTop] at top
  have entry := topInj top
  refine ⟨entry, ?_⟩
  rw [Agree, toNatFeed, toNatFeed, entry, Nat.shiftRight_xor_distrib, Nat.shiftRight_xor_distrib] at same
  have rest := congrArg ((table[(d.toUInt8 ^^^ y).toFin].toNat >>> n) ^^^ ·) same
  simp only [← Nat.xor_assoc, Nat.xor_self, Nat.zero_xor, ← Nat.shiftRight_add] at rest
  rw [Agree, Nat.add_comm]
  exact rest

theorem feedInj (same : feed c x = feed d x) : c = d := by
  obtain ⟨low, high⟩ := feedAgree (Nat.zero_le _) (.ofEq same 0)
  have low := congrArg UInt8.toNat ((UInt8.xor_left_inj x).mp low)
  rw [UInt32.toNat_toUInt8, UInt32.toNat_toUInt8] at low
  rw [Agree, Nat.shiftRight_eq_div_pow, Nat.shiftRight_eq_div_pow] at high
  apply UInt32.toNat_inj.mp
  omega

theorem foldInj (zs : List UInt8) (same : zs.foldl feed c = zs.foldl feed d) : c = d := by
  induction zs generalizing c d with
  | nil => exact same
  | cons z zs ih => exact feedInj (ih same)

theorem lastBytes (length : xs.length = n) (length' : ys.length = n) (few : n ≤ 4)
    (same : Agree (32 - 8 * n) (xs.foldl feed c) (ys.foldl feed c)) : xs = ys := by
  induction n generalizing xs ys with
  | zero => rw [List.length_eq_zero_iff.mp length, List.length_eq_zero_iff.mp length']
  | succ n ih =>
    rcases List.eq_nil_or_concat xs with rfl | ⟨xs, x, rfl⟩
    · cases length
    rcases List.eq_nil_or_concat ys with rfl | ⟨ys, y, rfl⟩
    · cases length'
    simp only [List.concat_eq_append, List.foldl_append, List.foldl_cons, List.foldl_nil] at same ⊢
    obtain ⟨entry, before⟩ := feedAgree (by omega) same
    rw [show 32 - 8 * (n + 1) + 8 = 32 - 8 * n by omega] at before
    obtain rfl := ih (by simpa using length) (by simpa using length') (by omega) before
    rw [(UInt8.xor_right_inj _).mp entry]

end Register

section Checksum

variable {a b : ByteArray} {off n : Nat}

theorem updateInj {c d : Crc32} (bytes : ByteArray) (same : c.update bytes = d.update bytes) : c = d := by
  rw [updateEqFold, updateEqFold] at same
  exact congrArg Crc32.mk (foldInj _ (Crc32.mk.inj same))

theorem valueInj {c d : Crc32} (same : c.value = d.value) : c = d :=
  congrArg Crc32.mk ((UInt32.xor_left_inj _).mp same)

theorem updateAltered (altered : Altered a b off n) (few : n ≤ 4) (c : Crc32) : c.update b ≠ c.update a := by
  intro same
  obtain ⟨front, back⟩ := altered.around
  have split (x : ByteArray) : x.data.toList =
      x.data.toList.take off ++ ((x.data.toList.drop off).take n ++ x.data.toList.drop (off + n)) := by
    rw [← List.drop_drop, List.take_append_drop, List.take_append_drop]
  have length : ((b.data.toList.drop off).take n).length = ((a.data.toList.drop off).take n).length := by
    have size := altered.size
    simp only [List.length_take, List.length_drop, BigEndian.lengthList, size]
  rw [updateEqFold, updateEqFold, split a, split b, front, back] at same
  simp only [List.foldl_append, Crc32.mk.injEq] at same
  have window := foldInj _ same
  have bound : ((a.data.toList.drop off).take n).length ≤ 4 := Nat.le_trans (List.length_take_le ..) few
  have equal := lastBytes length rfl bound (.ofEq window _)
  refine altered.differ (BigEndian.listInj ?_)
  rw [split a, split b, front, back, equal]

theorem bytesAltered (altered : Altered a b off n) (few : n ≤ 4) : ofBytes b ≠ ofBytes a :=
  fun same => updateAltered altered few empty (valueInj same)

end Checksum

end Crc32
end OrphanFiles
