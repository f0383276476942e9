import OrphanFiles.DataDir

/-!
Where the files of relations are.  A path that is joined from names leads to the place with these names, so the first
file of a relation and its segments lie in one directory, and no two of them in the same place.
-/
namespace OrphanFiles

namespace Volume

section Components

theorem piecesSome (cs : List Char) : pieces cs ≠ [] := by
  cases cs with
  | nil => exact List.cons_ne_nil _ _
  | cons c cs =>
    unfold pieces
    split
    · exact List.cons_ne_nil _ _
    · split <;> exact List.cons_ne_nil _ _

theorem piecesSlash (xs ys : List Char) : pieces (xs ++ '/' :: ys) = pieces xs ++ pieces ys := by
  induction xs with
  | nil => rfl
  | cons x xs ih =>
    by_cases slash : x = '/'
    · simp only [List.cons_append, pieces, if_pos slash, ih]
    · simp only [List.cons_append, pieces, if_neg slash, ih]
      cases rest : pieces xs with
      | nil => exact absurd rest (piecesSome xs)
      | cons p ps => rfl

theorem piecesSolid {cs : List Char} (solid : '/' ∉ cs) : pieces cs = [cs] := by
  induction cs with
  | nil => rfl
  | cons c cs ih =>
    have other : c ≠ '/' := fun same => solid (same ▸ List.mem_cons_self)
    simp only [pieces, if_neg other, ih fun member => solid (List.mem_cons_of_mem _ member)]

theorem piecesEmpty {cs : List Char} (root : pieces cs = [[]]) : cs = [] := by
  cases cs with
  | nil => rfl
  | cons c cs =>
    unfold pieces at root
    split at root
    · exact absurd (List.cons.inj root).2 (piecesSome cs)
    · split at root <;> simp at root

def namesIn (ps : List (List Char)) : List String := (ps.filter (· != [])).map String.ofList

def namesFrom : List (List Char) → List String
  | [] :: p :: ps => "" :: namesIn (p :: ps)
  | ps => namesIn ps

theorem componentsEq (text : String) : components text = namesFrom (pieces text.toList) := by
  unfold components namesFrom
  rfl

theorem namesInEmpty (ps : List (List Char)) : namesIn (ps ++ [[]]) = namesIn ps := by
  simp [namesIn]

theorem namesInSnoc (ps : List (List Char)) (c : List Char) :
    namesIn (ps ++ [c]) = namesIn (ps ++ [[]]) ++ namesIn [c] := by
  simp [namesIn]

theorem namesFromSnoc {ps : List (List Char)} (some : ps ≠ []) (c : List Char) :
    namesFrom (ps ++ [c]) = namesFrom (ps ++ [[]]) ++ namesIn [c] := by
  rcases ps with _ | ⟨_ | ⟨x, p⟩, ps⟩
  · exact absurd rfl some
  · cases ps with
    | nil => rfl
    | cons q ps => exact congrArg ("" :: ·) (namesInSnoc (q :: ps) c)
  · exact namesInSnoc ((x :: p) :: ps) c

theorem namesFromEmpty {ps : List (List Char)} (some : ps ≠ []) (other : ps ≠ [[]]) :
    namesFrom (ps ++ [[]]) = namesFrom ps := by
  rcases ps with _ | ⟨_ | ⟨x, p⟩, ps⟩
  · exact absurd rfl some
  · cases ps with
    | nil => exact absurd rfl other
    | cons q ps => exact congrArg ("" :: ·) (namesInEmpty (q :: ps))
  · exact namesInEmpty ((x :: p) :: ps)

theorem componentsJoin (root : String) {c : String} (named : c ≠ "") (solid : '/' ∉ c.toList) :
    components (DataDir.join root c) = components root ++ [c] := by
  have letters : c.toList ≠ [] := fun none => named (String.toList_eq_nil_iff.mp none)
  have one : namesIn [c.toList] = [c] := by simp [namesIn, letters]
  unfold DataDir.join
  rw [componentsEq, componentsEq]
  by_cases empty : root = ""
  · subst empty
    rw [if_pos (by rfl), String.toList_append, String.toList_empty, List.nil_append, piecesSolid solid]
    cases chars : c.toList with
    | nil => exact absurd chars letters
    | cons x xs => rw [chars] at one; exact one
  · by_cases slash : endsInSlash root = true
    · obtain ⟨xs, spelled⟩ := List.getLast?_eq_some_iff.mp (of_decide_eq_true slash)
      rw [if_pos (by simp [slash]), String.toList_append, spelled, List.append_assoc, List.singleton_append,
        piecesSlash, piecesSolid solid, piecesSlash, namesFromSnoc (piecesSome xs), one]
      rfl
    · rw [if_neg (by simp [slash, empty]), String.toList_append, String.toList_append,
        show ("/" : String).toList = ['/'] from rfl, List.append_assoc, List.singleton_append, piecesSlash,
        piecesSolid solid, namesFromSnoc (piecesSome _), one, namesFromEmpty (piecesSome _)]
      exact fun root' => empty (String.toList_eq_nil_iff.mp (piecesEmpty root'))

end Components

theorem walkAppend (v : Volume) (place : Place) (xs ys : List String) :
    v.walk place (xs ++ ys) = (v.walk place xs).bind fun next => v.walk next ys := by
  induction xs generalizing place with
  | nil => rfl
  | cons x xs ih =>
    rw [List.cons_append, walk, walk]
    split
    · rfl
    · rfl
    · split
      · rfl
      · exact ih _

theorem walkName {v : Volume} {place next : Place} {c : String} {cs : List String} (inside : c ≠ "." ∧ c ≠ "..")
    (walked : v.walk place (c :: cs) = .ok next) : v.walk (place.push c) cs = .ok next := by
  unfold walk at walked
  split at walked
  · cases walked
  · cases walked
  · split at walked
    · cases walked
    · unfold enter at walked
      rw [if_neg inside.1, if_neg inside.2] at walked
      exact walked

end Volume

namespace DataDir

def digits (n : Nat) : List Char := Nat.toDigits 10 n

theorem digitsInj {m n : Nat} (same : digits m = digits n) : m = n := by
  have values := congrArg (Nat.ofDigitChars 10 · 0) same
  simpa [digits] using values

theorem digitsOnly {n : Nat} : ∀ c ∈ digits n, c.isDigit = true :=
  fun _ member => Nat.isDigit_of_mem_toDigits (by decide) (by decide) member

theorem listDigits (n : Nat) : (toString n).toList = digits n := by
  rw [Nat.toString_eq_ofList_toDigits, String.toList_ofList, digits]

def unitName (f : RelFile) : Nat → String
  | 0 => fileName f
  | n + 1 => fileName f ++ "." ++ toString (n + 1)

def unitPath (root : String) (f : RelFile) : Nat → String
  | 0 => relationPath root f
  | n + 1 => segmentPath (relationPath root f) (n + 1)

def suffix : Nat → List Char
  | 0 => []
  | n + 1 => '.' :: digits (n + 1)

def temporaryMark (f : RelFile) : List Char := if f.temporary then ['t', '_'] else []

theorem listUnitName (f : RelFile) (n : Nat) :
    (unitName f n).toList = temporaryMark f ++ (digits f.node.relation.toNat ++ suffix n) := by
  have mark : (if f.temporary then "t_" else "" : String).toList = temporaryMark f := by
    unfold temporaryMark
    split <;> rfl
  have first : (fileName f).toList = temporaryMark f ++ digits f.node.relation.toNat := by
    rw [fileName, String.toList_append, mark, listDigits]
  cases n with
  | zero => rw [unitName, first, suffix, List.append_nil]
  | succ n =>
    rw [unitName, String.toList_append, String.toList_append, first, listDigits, suffix]
    simp

theorem spanDigits (n k : Nat) : (digits n ++ suffix k).takeWhile Char.isDigit = digits n := by
  rw [List.takeWhile_append_of_pos digitsOnly]
  cases k <;> simp [suffix]

theorem suffixInj {j k : Nat} (same : suffix j = suffix k) : j = k := by
  cases j with
  | zero => cases k with
    | zero => rfl
    | succ k => cases same
  | succ j => cases k with
    | zero => cases same
    | succ k => exact digitsInj (List.cons.inj same).2

theorem digitsFirst (n k : Nat) : ∃ c cs, digits n ++ suffix k = c :: cs ∧ c.isDigit = true := by
  cases chars : digits n with
  | nil => exact absurd chars Nat.toDigits_ne_nil
  | cons c cs => exact ⟨c, cs ++ suffix k, rfl, digitsOnly c (chars ▸ List.mem_cons_self)⟩

theorem numbersInj {m n j k : Nat} (same : digits m ++ suffix j = digits n ++ suffix k) : m = n ∧ j = k := by
  have first := spanDigits m j
  rw [same, spanDigits] at first
  rw [first] at same
  exact ⟨(digitsInj first).symm, suffixInj (List.append_cancel_left same)⟩

theorem unitNameInj {f g : RelFile} {j k : Nat} (same : unitName f j = unitName g k) :
    f.temporary = g.temporary ∧ f.node.relation = g.node.relation ∧ j = k := by
  have chars := congrArg String.toList same
  rw [listUnitName, listUnitName] at chars
  unfold temporaryMark at chars
  cases left : f.temporary with
  | false => cases right : g.temporary with
    | false =>
      rw [left, right] at chars
      obtain ⟨relation, number⟩ := numbersInj chars
      exact ⟨rfl, UInt32.toNat_inj.mp relation, number⟩
    | true =>
      obtain ⟨c, cs, first, digit⟩ := digitsFirst f.node.relation.toNat j
      rw [left, right, if_neg (by decide), if_pos rfl, List.nil_append, first] at chars
      rw [(List.cons.inj chars).1] at digit
      cases digit
  | true => cases right : g.temporary with
    | false =>
      obtain ⟨c, cs, first, digit⟩ := digitsFirst g.node.relation.toNat k
      rw [left, right, if_pos rfl, if_neg (by decide), List.nil_append, first] at chars
      rw [← (List.cons.inj chars).1] at digit
      cases digit
    | true =>
      rw [left, right] at chars
      obtain ⟨relation, number⟩ := numbersInj (List.append_cancel_left chars)
      exact ⟨rfl, UInt32.toNat_inj.mp relation, number⟩

theorem unitNamesInj {f g : RelFile} {j k : Nat}
    (tablespace : toString f.node.tablespace.toNat = toString g.node.tablespace.toNat)
    (database : toString f.node.database.toNat = toString g.node.database.toNat)
    (name : unitName f j = unitName g k) : f = g ∧ j = k := by
  obtain ⟨temporary, relation, number⟩ := unitNameInj name
  have numbers {m n : Nat} (same : toString m = toString n) : m = n := by
    apply digitsInj
    rw [← listDigits, ← listDigits, same]
  obtain ⟨⟨spc, db, rel⟩, temp⟩ := f
  obtain ⟨⟨spc', db', rel'⟩, temp'⟩ := g
  cases temporary
  cases relation
  cases UInt32.toNat_inj.mp (numbers database)
  cases UInt32.toNat_inj.mp (numbers tablespace)
  exact ⟨rfl, number⟩

structure Plain (c : String) : Prop where
  named : c ≠ ""
  solid : '/' ∉ c.toList
  inside : c ≠ "." ∧ c ≠ ".."

theorem plainOf {c : String} {x : Char} {xs : List Char} (letters : c.toList = x :: xs) (first : x ≠ '.')
    (solid : '/' ∉ c.toList) : Plain c where
  named none := by
    rw [none] at letters
    cases letters
  solid := solid
  inside := by
    constructor
    · intro same
      rw [same] at letters
      exact first (List.cons.inj letters).1.symm
    · intro same
      rw [same] at letters
      exact first (List.cons.inj letters).1.symm

theorem digitsSolid (n : Nat) : '/' ∉ digits n :=
  fun member => absurd (digitsOnly _ member) (by decide)

theorem numberPlain (n : Nat) : Plain (toString n) := by
  obtain ⟨c, cs, first, digit⟩ := digitsFirst n 0
  rw [suffix, List.append_nil, ← listDigits] at first
  refine plainOf first (fun dot => ?_) ?_
  · rw [dot] at digit
    cases digit
  · rw [listDigits]
    exact digitsSolid n

theorem unitPlain (f : RelFile) (n : Nat) : Plain (unitName f n) := by
  have letters := listUnitName f n
  have solid : '/' ∉ (unitName f n).toList := by
    have mark : '/' ∉ temporaryMark f := by unfold temporaryMark; split <;> decide
    have behind : '/' ∉ suffix n := by cases n <;> simp [suffix, digitsSolid]
    rw [letters]
    simp [mark, behind, digitsSolid]
  obtain ⟨c, cs, first, digit⟩ := digitsFirst f.node.relation.toNat n
  rw [first] at letters
  cases marked : f.temporary with
  | true =>
    rw [temporaryMark, marked, if_pos rfl] at letters
    exact plainOf letters (by decide) solid
  | false =>
    rw [temporaryMark, marked, if_neg (by decide)] at letters
    refine plainOf letters (fun dot => ?_) solid
    rw [dot] at digit
    cases digit

theorem joinAppend (path c s : String) : join path c ++ s = join path (c ++ s) := by
  unfold join
  split <;> simp [String.append_assoc]

theorem unitPathJoin (root : String) (f : RelFile) (n : Nat) : unitPath root f n =
    join (join (join root (toString f.node.tablespace.toNat)) (toString f.node.database.toNat)) (unitName f n) := by
  cases n with
  | zero => rfl
  | succ n => rw [unitPath, segmentPath, relationPath, joinAppend, joinAppend, unitName]

theorem componentsUnit (root : String) (f : RelFile) (n : Nat) : Volume.components (unitPath root f n) =
    Volume.components root ++ [toString f.node.tablespace.toNat, toString f.node.database.toNat, unitName f n] := by
  have tablespace := numberPlain f.node.tablespace.toNat
  have database := numberPlain f.node.database.toNat
  have last := unitPlain f n
  rw [unitPathJoin, Volume.componentsJoin _ last.named last.solid,
    Volume.componentsJoin _ database.named database.solid, Volume.componentsJoin _ tablespace.named tablespace.solid]
  simp

end DataDir

namespace Volume

theorem resolveWalk {v : Volume} {text : String} {place : Place} (resolved : v.resolve text = .ok place) :
    v.walk #[] (components text) = .ok place := by
  simp only [resolve, bind, Except.bind] at resolved
  split at resolved
  · cases resolved
  split at resolved
  · cases resolved
  next next walked =>
  rw [walked]
  split at resolved
  · split at resolved
    · cases resolved
    · exact resolved
  · exact resolved

end Volume

namespace DataDir

open Volume

theorem unitPlace {v : Volume} {root : String} {f : RelFile} {n : Nat} {place : Place}
    (resolved : v.resolve (unitPath root f n) = .ok place) : ∃ base, v.walk #[] (components root) = .ok base ∧
      place = ((base.push (toString f.node.tablespace.toNat)).push (toString f.node.database.toNat)).push
        (unitName f n) := by
  have walked := resolveWalk resolved
  rw [componentsUnit, walkAppend] at walked
  cases start : v.walk #[] (components root) with
  | error fault =>
    rw [start] at walked
    cases walked
  | ok base =>
    rw [start] at walked
    have walked := walkName (numberPlain f.node.tablespace.toNat).inside walked
    have walked := walkName (numberPlain f.node.database.toNat).inside walked
    have walked := walkName (unitPlain f n).inside walked
    exact ⟨base, rfl, (Except.ok.inj walked).symm⟩

theorem unitPlaceInj {v : Volume} {root : String} {f g : RelFile} {j k : Nat} {place : Place}
    (first : v.resolve (unitPath root f j) = .ok place) (second : v.resolve (unitPath root g k) = .ok place) :
    f = g ∧ j = k := by
  obtain ⟨base, walked, here⟩ := unitPlace first
  obtain ⟨base', walked', here'⟩ := unitPlace second
  cases walked.symm.trans walked'
  obtain ⟨name, rest⟩ := Array.push_eq_push.mp (here.symm.trans here')
  obtain ⟨database, rest⟩ := Array.push_eq_push.mp rest
  obtain ⟨tablespace, -⟩ := Array.push_eq_push.mp rest
  exact unitNamesInj tablespace database name

end DataDir

end OrphanFiles
