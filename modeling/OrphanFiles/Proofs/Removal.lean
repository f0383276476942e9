import Mathlib.Tactic.ByContra
import Mathlib.Tactic.Tauto
import OrphanFiles.Proofs.Clearing

/-!
The removal of relations from any tree at all.  What goes, and what fails, can be told from the tree as it was at the
start: each relation for itself, since no two of them have a file in common.  So it does not matter what was removed
before, and what was removed once is left alone from then on.  The numbers of segments have no bound here.
-/
namespace OrphanFiles

namespace DataDir

open Volume

def Present (v : Volume) (root : String) (f : RelFile) (n : Nat) : Prop :=
  ∃ place id, v.resolve (unitPath root f n) = .ok place ∧ v.lookup place = some (.file id)

def Absent (v : Volume) (root : String) (f : RelFile) (n : Nat) : Prop :=
  v.openEntry (unitPath root f n) = .error .notFound

def InRun (v : Volume) (root : String) (f : RelFile) (n : Nat) : Prop :=
  ∀ m, 1 ≤ m → m ≤ n → Present v root f m

structure Regular (v : Volume) (root : String) (f : RelFile) : Prop where
  first : Absent v root f 0 ∨ Present v root f 0
  ends : ∃ k, InRun v root f k ∧ Absent v root f (k + 1)

def Taken (v : Volume) (root : String) (S : RelFile → Nat → Prop) (p : Place) : Prop :=
  ∃ f n, S f n ∧ v.resolve (unitPath root f n) = .ok p ∧ ∃ id, v.lookup p = some (.file id)

section Units

variable {v : Volume} {base place : Place} {root : String} {S T : RelFile → Nat → Prop} {f : RelFile} {id k n : Nat}
  {fault : PathFault}

theorem unitNoSlash (root : String) (f : RelFile) (n : Nat) : endsInSlash (unitPath root f n) = false := by
  have plain := unitPlain f n
  have last : (unitName f n).toList.getLast? ≠ some '/' := fun slash => plain.solid (List.mem_of_getLast? slash)
  have named : (unitName f n).toList ≠ [] := fun none => plain.named (String.toList_eq_nil_iff.mp none)
  unfold endsInSlash
  rw [unitPathJoin, join]
  split
  · rw [String.toList_append, List.getLast?_append_of_ne_nil _ named]
    exact decide_eq_false last
  · rw [String.toList_append, List.getLast?_append_of_ne_nil _ named]
    exact decide_eq_false last

theorem unitWalk (rooted : v.walk #[] (components root) = .ok base) (f : RelFile) (n : Nat) :
    v.walk #[] (components (unitPath root f n)) =
      v.walk base [toString f.node.tablespace.toNat, toString f.node.database.toNat, unitName f n] := by
  rw [componentsUnit, walkAppend, rooted]
  rfl

theorem unitDeep (rooted : v.walk #[] (components root) = .ok base) {p : Place}
    (resolved : v.resolve (unitPath root f n) = .ok p) : Deep base p := by
  obtain ⟨base', walked, rfl⟩ := unitPlace resolved
  cases rooted.symm.trans walked
  exact ⟨_, _, _, numberPlain _, numberPlain _, unitPlain f n, rfl⟩

theorem unitSegment {m : Nat} (some : 1 ≤ m) : segmentPath (relationPath root f) m = unitPath root f m := by
  cases m with
  | zero => cases some
  | succ m => rfl

theorem presentIff : Present v root f n ↔ ∃ u, v.remove (unitPath root f n) = .ok u := by
  rw [removeEq]
  unfold Present
  cases v.resolve (unitPath root f n) with
  | error fault => simp [Except.bind]
  | ok p => cases here : v.lookup p with
    | none => simp [Except.bind, here]
    | some entry => cases entry <;> simp [Except.bind, here]

theorem absentOf (failed : v.remove (unitPath root f n) = .error fault) : ¬ Present v root f n := by
  rw [presentIff]
  rintro ⟨u, removed⟩
  rw [failed] at removed
  cases removed

theorem presentOr (v : Volume) (root : String) (f : RelFile) (n : Nat) :
    Present v root f n ∨ ∃ fault, v.remove (unitPath root f n) = .error fault := by
  cases removed : v.remove (unitPath root f n) with
  | ok u => exact .inl (presentIff.mpr ⟨u, removed⟩)
  | error fault => exact .inr ⟨fault, rfl⟩

theorem runWithin (ends : ¬ Present v root f (k + 1)) {m : Nat} (run : InRun v root f m) : m ≤ k := by
  rcases Nat.lt_or_ge k m with beyond | within
  · exact absurd (run (k + 1) (by omega) beyond) ends
  · exact within

theorem takenCongr (same : ∀ f n, Present v root f n → (S f n ↔ T f n)) :
    Taken v root S = Taken v root T := by
  funext p
  apply propext
  constructor
  · rintro ⟨f, n, taken, resolved, id, here⟩
    exact ⟨f, n, (same f n ⟨p, id, resolved, here⟩).mp taken, resolved, id, here⟩
  · rintro ⟨f, n, taken, resolved, id, here⟩
    exact ⟨f, n, (same f n ⟨p, id, resolved, here⟩).mpr taken, resolved, id, here⟩

theorem takenAlso (resolved : v.resolve (unitPath root f n) = .ok place)
    (here : v.lookup place = some (.file id)) :
    (Taken v root fun g m => S g m ∨ g = f ∧ m = n) = fun q => Taken v root S q ∨ q = place := by
  funext q
  apply propext
  constructor
  · rintro ⟨g, m, taken | ⟨rfl, rfl⟩, resolved', rest⟩
    · exact .inl ⟨g, m, taken, resolved', rest⟩
    · exact .inr (Except.ok.inj (resolved'.symm.trans resolved))
  · rintro (⟨g, m, taken, rest⟩ | rfl)
    · exact ⟨g, m, .inl taken, rest⟩
    · exact ⟨f, n, .inr ⟨rfl, rfl⟩, resolved, id, here⟩

theorem takenOther (resolved : v.resolve (unitPath root f n) = .ok place) (fresh : ¬ S f n) :
    ¬ Taken v root S place := by
  rintro ⟨g, m, taken, resolved', -⟩
  obtain ⟨rfl, rfl⟩ := unitPlaceInj resolved' resolved
  exact fresh taken

theorem takenDeep (rooted : v.walk #[] (components root) = .ok base) (taken : Taken v root S place) :
    Deep base place := by
  obtain ⟨f, n, -, resolved, -⟩ := taken
  exact unitDeep rooted resolved

end Units

def Passable (v : Volume) (root : String) (f : RelFile) : Prop :=
  Present v root f 0 ∨ v.remove (unitPath root f 0) = .error .notFound

/- A file or segment that is removed with its relation: no segment before it is missing or is something else. -/
structure Goes (v : Volume) (root : String) (f : RelFile) (n : Nat) : Prop where
  passable : Passable v root f
  run : InRun v root f n
  present : Present v root f n

inductive Fails (v : Volume) (root : String) (f : RelFile) (fault : PathFault) : Prop where
  | first (failed : v.remove (unitPath root f 0) = .error fault) (other : fault ≠ .notFound)
  | segment (k : Nat) (passable : Passable v root f) (run : InRun v root f k)
      (failed : v.remove (unitPath root f (k + 1)) = .error fault) (other : fault ≠ .notFound)

/- The tree without the files of which `S` says that they are taken away. -/
structure Trim (v : Volume) (root : String) (S : RelFile → Nat → Prop) (w : Volume) : Prop where
  names : ∃ keep : Place → Bool, (∀ p, keep p = false ↔ Taken v root S p) ∧ w.names = v.names.filter fun e => keep e.1
  files : w.files = v.files

section Trim

variable {v w u : Volume} {root : String} {S T : RelFile → Nat → Prop} {f : RelFile} {n : Nat} {fault : PathFault}

theorem Trim.start (v : Volume) (root : String) : Trim v root (fun _ _ => False) v where
  names := ⟨fun _ => true, fun p => by simp [Taken], by simp⟩
  files := rfl

theorem Trim.cleared (trim : Trim v root S w) : Cleared v (Taken v root S) w := by
  obtain ⟨⟨keep, taken, names⟩, -⟩ := trim
  refine ⟨fun p other => ?_, fun p lost => ?_, fun p ⟨f, n, _, _, here⟩ => here⟩
  · have kept : keep p = true := by simpa using mt (taken p).mp other
    rw [lookup, lookup, names, lookupFilter, if_pos kept]
  · have cut : ¬ keep p = true := by simpa using (taken p).mpr lost
    obtain ⟨f, n, -, -, id, here⟩ := lost
    rw [lookup] at here ⊢
    rw [names, lookupFilter, if_neg cut]
    split at here
    · cases here
    · next outside => rw [if_neg outside]

theorem Trim.congr (trim : Trim v root S w) (same : ∀ f n, Present v root f n → (S f n ↔ T f n)) : Trim v root T w := by
  obtain ⟨names, files⟩ := trim
  rw [takenCongr same] at names
  exact ⟨names, files⟩

theorem Trim.unique (first : Trim v root S w) (second : Trim v root S u) : w = u := by
  obtain ⟨⟨keep, taken, names⟩, files⟩ := first
  obtain ⟨⟨keep', taken', names'⟩, files'⟩ := second
  have same : keep = keep' := by
    funext p
    rw [Bool.eq_iff_iff, ← not_iff_not, Bool.not_eq_true, Bool.not_eq_true, taken, taken']
  cases w
  cases u
  simp only at names names' files files'
  rw [names, names', files, files', same]

theorem Trim.walk (trim : Trim v root S w) (f : RelFile) (n : Nat) :
    w.walk #[] (components (unitPath root f n)) = v.walk #[] (components (unitPath root f n)) := by
  cases rooted : v.walk #[] (components root) with
  | ok base =>
    rw [unitWalk rooted, unitWalk (trim.cleared.walk rooted)]
    refine trim.cleared.walkDown (fun q lost => (takenDeep rooted lost).size) fun c member => ?_
    simp only [List.mem_cons, List.not_mem_nil, or_false] at member
    rcases member with rfl | rfl | rfl
    · exact numberPlain _
    · exact numberPlain _
    · exact unitPlain f n
  | error blocked =>
    -- No way leads to a file of a relation, so none of them is gone.
    refine walkCongr (fun p => trim.cleared.kept p ?_) #[] _
    rintro ⟨g, m, -, resolved, -⟩
    obtain ⟨base, walked, -⟩ := unitPlace resolved
    cases rooted.symm.trans walked

theorem Trim.fails (trim : Trim v root S w) (failed : v.remove (unitPath root f n) = .error fault) :
    w.remove (unitPath root f n) = .error fault :=
  trim.cleared.removeFails (trim.walk f n) (unitNoSlash root f n) failed

theorem Trim.gone (trim : Trim v root S w) (taken : S f n) (present : Present v root f n) :
    w.remove (unitPath root f n) = .error .notFound := by
  obtain ⟨place, id, resolved, here⟩ := present
  exact removeMissing (trim.cleared.unfound resolved ⟨f, n, taken, resolved, id, here⟩)

theorem Trim.also (trim : Trim v root S w) (present : Present v root f n) (fresh : ¬ S f n) :
    ∃ u, w.remove (unitPath root f n) = .ok u ∧ u.names.length < w.names.length ∧
      Trim v root (fun g m => S g m ∨ g = f ∧ m = n) u := by
  obtain ⟨place, id, resolved, here⟩ := present
  obtain ⟨resolved', there⟩ := trim.cleared.found resolved here (takenOther resolved fresh)
  obtain ⟨u, removed, files', fewer, -⟩ := removeFile resolved' there
  obtain ⟨⟨keep, taken, names⟩, files⟩ := trim
  refine ⟨u, removed, fewer, ⟨fun p => keep p && p != place, fun p => ?_, ?_⟩, files'.trans files⟩
  · rw [takenAlso resolved here, Bool.and_eq_false_iff, taken, bne_eq_false_iff_eq]
  · rw [removeEq, resolved'] at removed
    simp only [Except.bind, there, Except.ok.injEq] at removed
    rw [← removed, names, List.filter_filter]
    simp only [Bool.and_comm]

end Trim

def tolerated (fault : PathFault) : Except PathFault Unit := if fault = .notFound then .ok () else .error fault

def Meets (v : Volume) (root : String) (f : RelFile) : Except PathFault Unit → Prop
  | .ok () => ∀ fault, ¬ Fails v root f fault
  | .error fault => Fails v root f fault

structure Initial (v : Volume) (root : String) (S : RelFile → Nat → Prop) : Prop where
  goes : ∀ f n, S f n → Goes v root f n
  down : ∀ f n m, S f n → m ≤ n → Goes v root f m → S f m

def Grown (v : Volume) (root : String) (S : RelFile → Nat → Prop) (D : RelFile → Prop) (f : RelFile) (n : Nat) : Prop :=
  S f n ∨ D f ∧ Goes v root f n ∧ (n = 0 ∨ ¬ S f 1)

section Removal

variable {v w u : Volume} {root : String} {S T : RelFile → Nat → Prop} {D E : RelFile → Prop} {f : RelFile} {k n : Nat}
  {fault : PathFault} {fs : List RelFile}

theorem Goes.before {m : Nat} (goes : Goes v root f n) (some : 1 ≤ m) (within : m ≤ n) : Goes v root f m where
  passable := goes.passable
  run j one upto := goes.run j one (by omega)
  present := goes.run m some within

theorem initialNone : Initial v root fun _ _ => False := ⟨fun _ _ none => none.elim, fun _ _ _ none => none.elim⟩

theorem initialGrown (initial : Initial v root S) : Initial v root (Grown v root S D) where
  goes f n gone := gone.elim (initial.goes f n) fun added => added.2.1
  down f n m gone within goes := by
    rcases gone with taken | ⟨named, -, once⟩
    · exact .inl (initial.down f n m taken within goes)
    · refine .inr ⟨named, goes, once.imp (fun none => ?_) id⟩
      omega

theorem grownNone : Grown v root (fun _ _ => False) D = fun f n => D f ∧ Goes v root f n := by
  funext f n
  simp [Grown]

theorem grownTwice : Grown v root (Grown v root S D) E = Grown v root S fun f => D f ∨ E f := by
  funext f n
  apply propext
  simp only [Grown]
  tauto

theorem grownCons : Grown v root (Grown v root S (· = f)) (· ∈ fs) = Grown v root S (· ∈ f :: fs) := by
  simp only [grownTwice, List.mem_cons]

theorem grownSettled (more : ∀ f n, Grown v root S D f n → T f n) : Grown v root T D f n ↔ T f n := by
  refine ⟨fun gone => ?_, .inl⟩
  rcases gone with taken | ⟨named, goes, none | fresh⟩
  · exact taken
  · exact more f n (.inr ⟨named, goes, .inl none⟩)
  · exact more f n (.inr ⟨named, goes, .inr fun taken => fresh (more f 1 (.inl taken))⟩)

theorem Trim.segments {fuel : Nat} (trim : Trim v root S w) (some : 1 ≤ n) (fresh : ∀ m, n ≤ m → ¬ S f m)
    (enough : w.names.length < fuel) : ∃ k fault u, n ≤ k ∧ (∀ m, n ≤ m → m < k → Present v root f m) ∧
      v.remove (unitPath root f k) = .error fault ∧
      removeSegments (relationPath root f) fuel n w = (tolerated fault, u) ∧
      Trim v root (fun g m => S g m ∨ g = f ∧ n ≤ m ∧ m < k) u := by
  induction fuel generalizing n w S with
  | zero => cases enough
  | succ fuel ih =>
    unfold removeSegments
    rw [unitSegment some]
    rcases presentOr v root f n with present | ⟨fault, failed⟩
    · obtain ⟨w', removed, fewer, next⟩ := trim.also present (fresh n (Nat.le_refl n))
      have fresh' (m : Nat) (later : n + 1 ≤ m) : ¬ (S f m ∨ f = f ∧ m = n) := by
        rintro (taken | ⟨-, rfl⟩)
        · exact fresh m (by omega) taken
        · omega
      obtain ⟨k, fault, u, beyond, presents, failed, loop, last⟩ := ih next (by omega) fresh' (by omega)
      simp only [removed]
      refine ⟨k, fault, u, by omega, fun m later within => ?_, failed, loop, last.congr fun g m _ => ?_⟩
      · rcases Nat.eq_or_lt_of_le later with rfl | after
        · exact present
        · exact presents m after within
      · constructor
        · rintro ((taken | ⟨same, rfl⟩) | ⟨same, later, within⟩)
          · exact .inl taken
          · exact .inr ⟨same, Nat.le_refl _, by omega⟩
          · exact .inr ⟨same, by omega, within⟩
        · rintro (taken | ⟨same, later, within⟩)
          · exact .inl (.inl taken)
          · rcases Nat.eq_or_lt_of_le later with rfl | after
            · exact .inl (.inr ⟨same, rfl⟩)
            · exact .inr ⟨same, after, within⟩
    · have stops := trim.fails failed
      refine ⟨n, fault, w, Nat.le_refl n, fun m later within => by omega, failed, ?_, trim.congr fun g m _ => ?_⟩
      · simp only [stops]
        cases fault <;> rfl
      · exact ⟨.inl, fun taken => taken.resolve_right fun ⟨_, later, within⟩ => by omega⟩

theorem runEnds (v : Volume) (root : String) (f : RelFile) : ∃ k, InRun v root f k ∧ ¬ Present v root f (k + 1) := by
  obtain ⟨k, fault, u, some, presents, failed, -, -⟩ :=
    (Trim.start v root).segments (f := f) (Nat.le_refl 1) (fun _ _ none => none) (Nat.lt_succ_self _)
  obtain ⟨k, rfl⟩ : ∃ j, k = j + 1 := ⟨k - 1, by omega⟩
  exact ⟨k, fun m one within => presents m one (by omega), absentOf failed⟩

theorem Trim.first (trim : Trim v root S w) (passable : Passable v root f) : ∃ u,
    Trim v root (fun g m => S g m ∨ g = f ∧ m = 0) u ∧
      removeRelation root f w = removeSegments (relationPath root f) (u.names.length + 1) 1 u := by
  have missing (gone : w.remove (unitPath root f 0) = .error .notFound) :
      removeRelation root f w = removeSegments (relationPath root f) (w.names.length + 1) 1 w := by
    have gone : w.remove (relationPath root f) = .error .notFound := gone
    unfold removeRelation
    simp only [gone]
  rcases passable with present | absent
  · by_cases taken : S f 0
    · refine ⟨w, trim.congr fun g m _ => ⟨.inl, fun taken' => taken'.elim id ?_⟩, missing (trim.gone taken present)⟩
      rintro ⟨rfl, rfl⟩
      exact taken
    · obtain ⟨u, removed, -, next⟩ := trim.also present taken
      have removed : w.remove (relationPath root f) = .ok u := removed
      refine ⟨u, next, ?_⟩
      unfold removeRelation
      simp only [removed]
  · refine ⟨w, trim.congr fun g m present => ⟨.inl, fun taken => taken.resolve_right ?_⟩, missing (trim.fails absent)⟩
    rintro ⟨rfl, rfl⟩
    exact absentOf absent present

theorem notPassable (blocked : v.remove (unitPath root f 0) = .error fault) (other : fault ≠ .notFound) :
    ¬ Passable v root f := by
  rintro (present | absent)
  · exact absentOf blocked present
  · exact other (Except.error.inj (blocked.symm.trans absent))

theorem failsAt {fault' : PathFault} (passable : Passable v root f) (run : InRun v root f k)
    (failed : v.remove (unitPath root f (k + 1)) = .error fault) (fails : Fails v root f fault') :
    fault' = fault ∧ fault' ≠ .notFound := by
  cases fails with
  | first blocked other => exact absurd passable (notPassable blocked other)
  | segment j _ run' failed' other =>
    have ends := runWithin (absentOf failed) run'
    have ends' := runWithin (absentOf failed') run
    obtain rfl := Nat.le_antisymm ends ends'
    exact ⟨Except.error.inj (failed'.symm.trans failed), other⟩

theorem failsBehind (passable : Passable v root f) (run : InRun v root f k)
    (failed : v.remove (unitPath root f (k + 1)) = .error fault) : Meets v root f (tolerated fault) := by
  unfold tolerated
  split
  · next missing =>
    intro fault' fails
    obtain ⟨same, other⟩ := failsAt passable run failed fails
    exact other (same.trans missing)
  · next other => exact .segment k passable run failed other

theorem failsUnique {fault' : PathFault} (fails : Fails v root f fault) (fails' : Fails v root f fault') :
    fault = fault' := by
  cases fails with
  | first blocked other => cases fails' with
    | first blocked' _ => exact Except.error.inj (blocked.symm.trans blocked')
    | segment _ passable => exact absurd passable (notPassable blocked other)
  | segment k passable run failed _ => exact (failsAt passable run failed fails').1.symm

theorem Trim.relation (trim : Trim v root S w) (initial : Initial v root S) (f : RelFile) :
    ∃ answer u, removeRelation root f w = (answer, u) ∧ Trim v root (Grown v root S (· = f)) u ∧
      (S f 1 → answer = .ok ()) ∧ (¬ S f 1 → Meets v root f answer) := by
  by_cases passable : Passable v root f
  · obtain ⟨w', first, removed⟩ := trim.first passable
    by_cases again : S f 1
    · -- The segments are not looked for again.
      have present := (initial.goes f 1 again).present
      have stops : removeSegments (relationPath root f) (w'.names.length + 1) 1 w' = (.ok (), w') := by
        unfold removeSegments
        rw [unitSegment (Nat.le_refl 1)]
        simp only [first.gone (.inl again) present]
      refine ⟨.ok (), w', removed.trans stops, first.congr fun g m present => ?_, fun _ => rfl,
        fun fresh => absurd again fresh⟩
      refine or_congr_right ⟨?_, ?_⟩
      · rintro ⟨rfl, rfl⟩
        exact ⟨rfl, ⟨passable, fun m one none => by omega, present⟩, .inl rfl⟩
      · rintro ⟨rfl, -, rfl | fresh⟩
        · exact ⟨rfl, rfl⟩
        · exact absurd again fresh
    · have fresh (m : Nat) (some : 1 ≤ m) : ¬ (S f m ∨ f = f ∧ m = 0) := by
        rintro (taken | ⟨-, rfl⟩)
        · exact again (initial.down f m 1 taken some ((initial.goes f m taken).before (Nat.le_refl 1) some))
        · cases some
      obtain ⟨k, fault, u, some, presents, failed, loop, last⟩ :=
        first.segments (Nat.le_refl 1) fresh (Nat.lt_succ_self _)
      obtain ⟨k, rfl⟩ : ∃ j, k = j + 1 := ⟨k - 1, by omega⟩
      have run : InRun v root f k := fun m one within => presents m one (by omega)
      refine ⟨tolerated fault, u, removed.trans loop, last.congr fun g m present => ?_, fun taken => absurd taken again,
        fun _ => failsBehind passable run failed⟩
      constructor
      · rintro ((taken | ⟨rfl, rfl⟩) | ⟨rfl, one, within⟩)
        · exact .inl taken
        · exact .inr ⟨rfl, ⟨passable, fun m one none => by omega, present⟩, .inl rfl⟩
        · exact .inr ⟨rfl, ⟨passable, fun j one' upto => presents j one' (by omega), present⟩, .inr again⟩
      · rintro (taken | ⟨rfl, goes, -⟩)
        · exact .inl (.inl taken)
        · rcases Nat.eq_zero_or_pos m with none | one
          · exact .inl (.inr ⟨rfl, none⟩)
          · exact .inr ⟨rfl, one, Nat.lt_succ_of_le (runWithin (absentOf failed) goes.run)⟩
  · obtain ⟨fault, failed⟩ := (presentOr v root f 0).resolve_left fun present => passable (.inl present)
    have other : fault ≠ .notFound := by
      rintro rfl
      exact passable (.inr failed)
    have blocked : w.remove (relationPath root f) = .error fault := trim.fails (n := 0) failed
    refine ⟨.error fault, w, ?_, trim.congr fun g m _ => ⟨.inl, fun grown => grown.elim id ?_⟩, fun taken => ?_,
      fun _ => ?_⟩
    · unfold removeRelation
      simp only [blocked]
    · rintro ⟨rfl, goes, -⟩
      exact absurd goes.passable passable
    · exact absurd (initial.goes f 1 taken).passable passable
    · exact .first failed other

def Answers (v : Volume) (root : String) (fs : List RelFile) : Except PathFault Unit → Prop
  | .ok () => ∀ f ∈ fs, ∀ fault, ¬ Fails v root f fault
  | .error fault => ∃ before f after, fs = before ++ f :: after ∧ (∀ g ∈ before, ∀ fault', ¬ Fails v root g fault') ∧
      Fails v root f fault

theorem answersCons {head rest : Except PathFault Unit} (first : Meets v root f head)
    (others : head = .ok () → Answers v root fs rest) : Answers v root (f :: fs) (head.bind fun _ => rest) := by
  cases head with
  | error fault => exact ⟨[], f, fs, rfl, fun g none => absurd none List.not_mem_nil, first⟩
  | ok _ =>
    have others := others rfl
    cases rest with
    | ok _ =>
      rintro g member
      rcases List.mem_cons.mp member with rfl | member
      · exact first
      · exact others g member
    | error fault =>
      obtain ⟨before, g, after, rfl, clean, fails⟩ := others
      refine ⟨f :: before, g, after, rfl, fun h member => ?_, fails⟩
      rcases List.mem_cons.mp member with rfl | member
      · exact first
      · exact clean h member

theorem answersUnique {fault' : PathFault} (first : Answers v root fs (.error fault))
    (second : Answers v root fs (.error fault')) : fault = fault' := by
  obtain ⟨before, f, after, rfl, clean, fails⟩ := first
  obtain ⟨before', g, after', same, clean', fails'⟩ := second
  rcases List.append_eq_append_iff.mp same with ⟨between, longer, rest⟩ | ⟨between, longer, rest⟩
  · cases between with
    | nil =>
      cases rest
      exact failsUnique fails fails'
    | cons h between =>
      cases rest
      exact absurd fails (clean' f (longer ▸ List.mem_append_right before List.mem_cons_self) fault)
  · cases between with
    | nil =>
      cases rest
      exact failsUnique fails fails'
    | cons h between =>
      cases rest
      exact absurd fails' (clean g (longer ▸ List.mem_append_right before' List.mem_cons_self) fault')

theorem Trim.all (trim : Trim v root S w) (initial : Initial v root S) (fs : List RelFile) :
    ∃ answer u, removeAll root fs w = (answer, u) ∧ Trim v root (Grown v root S (· ∈ fs)) u ∧
      ((∀ f, S f 1 → ∀ fault, ¬ Fails v root f fault) → Answers v root fs answer) := by
  induction fs generalizing S w with
  | nil =>
    refine ⟨.ok (), w, rfl, trim.congr fun f n _ => ?_, fun _ f none => absurd none List.not_mem_nil⟩
    simp [Grown]
  | cons f fs ih =>
    obtain ⟨head, w', removed, next, again, fresh⟩ := trim.relation initial f
    obtain ⟨rest, u, removed', last, answers⟩ := ih next (initialGrown initial)
    rw [grownCons] at last
    refine ⟨head.bind fun _ => rest, u, ?_, last, fun clean => ?_⟩
    · unfold removeAll
      simp only [removed, removed']
    · have first : Meets v root f head := by
        by_cases taken : S f 1
        · rw [again taken]
          exact clean f taken
        · exact fresh taken
      refine answersCons first fun done => answers fun g taken => ?_
      rcases taken with taken | ⟨rfl, -⟩
      · exact clean g taken
      · rw [done] at first
        exact first

theorem meetsOk {answer : Except PathFault Unit} (meets : Meets v root f answer) :
    answer = .ok () ↔ ∀ fault, ¬ Fails v root f fault := by
  cases answer with
  | ok _ => exact ⟨fun _ => meets, fun _ => rfl⟩
  | error fault =>
    constructor
    · intro done
      cases done
    · intro clean
      exact absurd meets (clean fault)

theorem Trim.succeeds (trim : Trim v root S w) (initial : Initial v root S) (fs : List RelFile) :
    (removeAll root fs w).1 = .ok () ↔ ∀ f ∈ fs, ¬ S f 1 → ∀ fault, ¬ Fails v root f fault := by
  induction fs generalizing S w with
  | nil => exact ⟨fun _ f none => absurd none List.not_mem_nil, fun _ => rfl⟩
  | cons f fs ih =>
    obtain ⟨head, w', removed, next, again, fresh⟩ := trim.relation initial f
    have first : head = .ok () ↔ (¬ S f 1 → ∀ fault, ¬ Fails v root f fault) := by
      by_cases taken : S f 1
      · exact ⟨fun _ fresh => absurd taken fresh, fun _ => again taken⟩
      · rw [meetsOk (fresh taken)]
        exact ⟨fun clean _ => clean, fun clean => clean taken⟩
    have both : (removeAll root (f :: fs) w).1 = .ok () ↔ head = .ok () ∧ (removeAll root fs w').1 = .ok () := by
      rw [removeAll, removed]
      cases head <;> simp [Except.bind]
    rw [both, first, ih next (initialGrown initial), List.forall_mem_cons]
    refine and_congr_right fun clean => forall₂_congr fun g member => ⟨fun others left => ?_, fun others left => ?_⟩
    · by_cases same : g = f
      · exact same ▸ clean (same ▸ left)
      · exact others fun gone => gone.elim left fun named => same named.1
    · exact others fun taken => left (.inl taken)

theorem Trim.again (trim : Trim v root S w) (initial : Initial v root S) (later : Trim v root T u)
    (initial' : Initial v root T) (more : ∀ f n, Grown v root S (· ∈ fs) f n → T f n) :
    (removeAll root fs u).2 = u ∧ ((removeAll root fs w).1 = .ok () → (removeAll root fs u).1 = .ok ()) := by
  constructor
  · obtain ⟨answer, u', removed, last, -⟩ := later.all initial' fs
    rw [removed]
    exact (last.congr fun f n _ => grownSettled more).unique later
  · rw [trim.succeeds initial, later.succeeds initial']
    exact fun clean f member fresh => clean f member fun taken => fresh (more f 1 (.inl taken))

end Removal

end DataDir

end OrphanFiles
