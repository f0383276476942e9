import OrphanFiles.Proofs.Unlinking

/-!
A removal that stops between two of its calls, and is run again.  The segments of a relation are looked for from the
first on, and the first is also the first to go: so a run that stops behind it leaves segments that no later run
finds.  Main statement: what such a stop costs, which is exactly these segments, and of one relation only.
-/
namespace OrphanFiles

namespace DataDir

open Volume

def attempt (v : Volume) (path : String) : Volume :=
  match v.remove path with
  | .ok v => v
  | .error _ => v

def segmentCalls (base : String) : Nat → Nat → Volume → List String
  | 0, _, _ => []
  | fuel + 1, segment, v => segmentPath base segment :: match v.remove (segmentPath base segment) with
    | .ok v => segmentCalls base fuel (segment + 1) v
    | .error _ => []

def relationCalls (root : String) (f : RelFile) (v : Volume) : List String :=
  let base := relationPath root f
  base :: match v.remove base with
  | .ok v => segmentCalls base (v.names.length + 1) 1 v
  | .error .notFound => segmentCalls base (v.names.length + 1) 1 v
  | .error _ => []

def calls (root : String) : List RelFile → Volume → List String
  | [], _ => []
  | f :: fs, v => relationCalls root f v ++ calls root fs (removeRelation root f v).2

def interrupted (root : String) (fs : List RelFile) (v : Volume) (n : Nat) : Volume :=
  ((calls root fs v).take n).foldl attempt v

section Calls

variable {root base path : String} {fs : List RelFile} {f : RelFile} {v w : Volume} {fuel n : Nat} {fault : PathFault}

theorem attemptOk (removed : v.remove path = .ok w) : attempt v path = w := by
  unfold attempt
  rw [removed]

theorem attemptError (failed : v.remove path = .error fault) : attempt v path = v := by
  unfold attempt
  rw [failed]

theorem segmentCallsMade : (segmentCalls base fuel n v).foldl attempt v = (removeSegments base fuel n v).2 := by
  induction fuel generalizing n v with
  | zero => rfl
  | succ fuel ih =>
    unfold segmentCalls removeSegments
    rw [List.foldl_cons]
    cases removed : v.remove (segmentPath base n) with
    | ok w =>
      rw [attemptOk removed]
      exact ih
    | error fault =>
      rw [attemptError removed]
      cases fault <;> rfl

theorem relationCallsMade : (relationCalls root f v).foldl attempt v = (removeRelation root f v).2 := by
  unfold relationCalls removeRelation
  dsimp only
  rw [List.foldl_cons]
  cases removed : v.remove (relationPath root f) with
  | ok w =>
    rw [attemptOk removed]
    exact segmentCallsMade
  | error fault =>
    rw [attemptError removed]
    cases fault with
    | notFound => exact segmentCallsMade
    | _ => rfl

theorem callsMade : (calls root fs v).foldl attempt v = (removeAll root fs v).2 := by
  induction fs generalizing v with
  | nil => rfl
  | cons f fs ih =>
    unfold calls removeAll
    rw [List.foldl_append, relationCallsMade, ih]

end Calls

section Prefix

variable {v w : Volume} {root : String} {S : RelFile → Nat → Prop} {f : RelFile} {n : Nat}

theorem Trim.present (trim : Trim v root S w) : Present w root f n ↔ Present v root f n ∧ ¬ S f n := by
  constructor
  · intro present
    rcases presentOr v root f n with before | ⟨fault, failed⟩
    · exact ⟨before, fun taken => absentOf (trim.gone taken before) present⟩
    · exact absurd present (absentOf (trim.fails failed))
  · rintro ⟨before, fresh⟩
    obtain ⟨u, removed, -, -⟩ := trim.also before fresh
    exact presentIff.mpr ⟨u, removed⟩

theorem Trim.attempt (trim : Trim v root S w) (f : RelFile) (n : Nat) :
    Trim v root (fun g m => S g m ∨ g = f ∧ m = n) (attempt w (unitPath root f n)) := by
  by_cases present : Present w root f n
  · obtain ⟨before, fresh⟩ := trim.present.mp present
    obtain ⟨u, removed, -, next⟩ := trim.also before fresh
    rw [attemptOk removed]
    exact next
  · obtain ⟨fault, failed⟩ := (presentOr w root f n).resolve_left present
    rw [attemptError failed]
    refine trim.congr fun g m before => ⟨.inl, fun taken => taken.elim id ?_⟩
    rintro ⟨rfl, rfl⟩
    by_contra fresh
    exact present (trim.present.mpr ⟨before, fresh⟩)

theorem Trim.attempts (trim : Trim v root S w) (f : RelFile) (numbers : List Nat) :
    Trim v root (fun g m => S g m ∨ g = f ∧ m ∈ numbers) ((numbers.map (unitPath root f)).foldl DataDir.attempt w) := by
  induction numbers generalizing S w with
  | nil => simpa using trim
  | cons n numbers ih =>
    refine (ih (trim.attempt f n)).congr fun g m _ => ?_
    rw [List.mem_cons]
    tauto

theorem segmentCallsUnits (f : RelFile) (fuel : Nat) (trim : Trim v root S w) (some : 1 ≤ n) : ∃ c,
    segmentCalls (relationPath root f) fuel n w = (List.range' n c).map (unitPath root f) ∧
      ∀ m, n ≤ m → m + 1 < n + c → Present v root f m := by
  induction fuel generalizing n w S with
  | zero => exact ⟨0, rfl, fun m later within => by omega⟩
  | succ fuel ih =>
    have next := trim.attempt f n
    unfold segmentCalls
    rw [unitSegment some]
    cases removed : w.remove (unitPath root f n) with
    | error fault => exact ⟨1, rfl, fun m later within => by omega⟩
    | ok w' =>
      rw [attemptOk removed] at next
      obtain ⟨c, units, presents⟩ := ih next (Nat.le_succ_of_le some)
      refine ⟨c + 1, ?_, fun m later within => ?_⟩
      · rw [List.range'_succ, List.map_cons, ← units]
      · rcases Nat.eq_or_lt_of_le later with rfl | after
        · exact (trim.present.mp (presentIff.mpr ⟨w', removed⟩)).1
        · exact presents m after (by omega)

theorem relationCallsUnits (trim : Trim v root S w) (f : RelFile) : ∃ c,
    relationCalls root f w = (List.range' 0 c).map (unitPath root f) ∧
      ∀ m, m < c → Present v root f m → Goes v root f m := by
  have behind {T : RelFile → Nat → Prop} {u : Volume} (trim : Trim v root T u) (passable : Passable v root f) : ∃ c,
      relationPath root f :: segmentCalls (relationPath root f) (u.names.length + 1) 1 u =
        (List.range' 0 c).map (unitPath root f) ∧ ∀ m, m < c → Present v root f m → Goes v root f m := by
    obtain ⟨c, units, presents⟩ := segmentCallsUnits f (u.names.length + 1) trim (Nat.le_refl 1)
    refine ⟨c + 1, ?_, fun m within present => ⟨passable, fun j one upto => ?_, present⟩⟩
    · rw [units, List.range'_succ]
      rfl
    · rcases Nat.eq_or_lt_of_le upto with rfl | before
      · exact present
      · exact presents j one (by omega)
  have next := trim.attempt f 0
  unfold relationCalls
  dsimp only
  cases removed : w.remove (relationPath root f) with
  | ok w' =>
    have present : Present w root f 0 := presentIff.mpr ⟨w', removed⟩
    rw [show DataDir.attempt w (unitPath root f 0) = w' from attemptOk removed] at next
    exact behind next (.inl (trim.present.mp present).1)
  | error fault =>
    by_cases missing : fault = .notFound
    · subst missing
      refine behind trim ?_
      rcases presentOr v root f 0 with present | ⟨fault, failed⟩
      · exact .inl present
      · cases removed.symm.trans (trim.fails (n := 0) failed)
        exact .inr failed
    · refine ⟨1, by cases fault <;> first | rfl | exact absurd rfl missing, fun m within present => ?_⟩
      obtain rfl : m = 0 := by omega
      exact ⟨.inl present, fun j one none => by omega, present⟩

def Settled (v : Volume) (root : String) (S : RelFile → Nat → Prop) (f : RelFile) : Prop :=
  S f 1 → ∀ n, Goes v root f n → S f n

theorem settledGrown (settled : Settled v root S f) (D : RelFile → Prop) : Settled v root (Grown v root S D) f := by
  intro first n goes
  rcases first with taken | ⟨named, -, -⟩
  · exact .inl (settled taken n goes)
  · by_cases taken : S f 1
    · exact .inl (settled taken n goes)
    · exact .inr ⟨named, goes, .inr taken⟩

theorem relationPrefix (trim : Trim v root S w) (initial : Initial v root S) (f : RelFile) (n : Nat) : ∃ T,
    Trim v root T (((relationCalls root f w).take n).foldl DataDir.attempt w) ∧ Initial v root T ∧
      ∀ g m, g ≠ f → (T g m ↔ S g m) := by
  obtain ⟨c, units, goes⟩ := relationCallsUnits trim f
  have made := trim.attempts f ((List.range' 0 c).take n)
  rw [List.map_take, ← units] at made
  refine ⟨fun g m => S g m ∨ g = f ∧ m < min n c ∧ Present v root g m, made.congr fun g m present => ?_, ⟨?_, ?_⟩, ?_⟩
  · have counted : m ∈ (List.range' 0 c).take n ↔ m < min n c := by
      rw [← List.range_eq_range', List.take_range, List.mem_range]
    simp only [counted, present, and_true]
  · rintro g m (taken | ⟨rfl, within, present⟩)
    · exact initial.goes g m taken
    · exact goes m (by omega) present
  · rintro g m j (taken | ⟨rfl, within, -⟩) before goes
    · exact .inl (initial.down g m j taken before goes)
    · exact .inr ⟨rfl, by omega, goes.present⟩
  · intro g m other
    simp [other]

theorem callsPrefix (trim : Trim v root S w) (initial : Initial v root S) (settled : ∀ f, Settled v root S f)
    (fs : List RelFile) (n : Nat) : ∃ T, Trim v root T (((calls root fs w).take n).foldl DataDir.attempt w) ∧
      Initial v root T ∧ (∀ f m, T f m → S f m ∨ f ∈ fs) ∧
      ∀ f g, ¬ Settled v root T f → ¬ Settled v root T g → f = g := by
  induction fs generalizing S w n with
  | nil =>
    refine ⟨S, ?_, initial, fun f m taken => .inl taken, fun f g open' => absurd (settled f) open'⟩
    rw [calls, List.take_nil, List.foldl_nil]
    exact trim
  | cons f fs ih =>
    unfold calls
    rw [List.take_append, List.foldl_append]
    by_cases within : n ≤ (relationCalls root f w).length
    · obtain ⟨T, made, partly, others⟩ := relationPrefix trim initial f n
      have only (g : RelFile) (unsettled : ¬ Settled v root T g) : g = f := by
        by_contra other
        refine unsettled fun first m goes => (others g m other).mpr ?_
        exact settled g ((others g 1 other).mp first) m goes
      refine ⟨T, ?_, partly, fun g m taken => ?_, fun g h first second => (only g first).trans (only h second).symm⟩
      · rw [Nat.sub_eq_zero_of_le within, List.take_zero, List.foldl_nil]
        exact made
      · by_cases other : g = f
        · exact .inr (other ▸ List.mem_cons_self)
        · exact .inl ((others g m other).mp taken)
    · obtain ⟨answer, w', removed, next, -, -⟩ := trim.relation initial f
      rw [List.take_of_length_le (by omega), relationCallsMade, removed]
      obtain ⟨T, made, partly, named, alone⟩ :=
        ih next (initialGrown initial) (fun g => settledGrown (settled g) _) (n - (relationCalls root f w).length)
      refine ⟨T, made, partly, fun g m taken => ?_, alone⟩
      rcases named g m taken with (taken | ⟨rfl, -⟩) | member
      · exact .inl taken
      · exact .inr List.mem_cons_self
      · exact .inr (List.mem_cons_of_mem f member)

end Prefix

/- A segment that is left by an interrupted removal where no later one looks for it. -/
structure Stranded (v : Volume) (root : String) (fs : List RelFile) (u : Volume) (f : RelFile) (n : Nat) : Prop where
  named : f ∈ fs
  goes : Goes v root f n
  behind : 1 < n
  left : Present u root f n
  gap : ¬ Present u root f 1

section Again

variable {v u : Volume} {root : String} {S : RelFile → Nat → Prop} {fs : List RelFile} {f : RelFile} {n : Nat}

theorem strandedIff (trim : Trim v root S u) : Stranded v root fs u f n ↔
    f ∈ fs ∧ Goes v root f n ∧ ¬ Grown v root S (· ∈ fs) f n := by
  constructor
  · rintro ⟨named, goes, behind, left, gap⟩
    refine ⟨named, goes, ?_⟩
    rw [trim.present] at left gap
    have first := (goes.before (Nat.le_refl 1) (Nat.le_of_lt behind)).present
    rintro (taken | ⟨-, -, rfl | fresh⟩)
    · exact left.2 taken
    · cases behind
    · exact gap ⟨first, fresh⟩
  · rintro ⟨named, goes, lost⟩
    have fresh : ¬ S f n := fun taken => lost (.inl taken)
    have taken : S f 1 := by
      by_contra fresh
      exact lost (.inr ⟨named, goes, .inr fresh⟩)
    have some : n ≠ 0 := fun none => lost (.inr ⟨named, goes, .inl none⟩)
    have other : n ≠ 1 := by
      rintro rfl
      exact fresh taken
    refine ⟨named, goes, by omega, trim.present.mpr ⟨goes.present, fresh⟩, fun left => ?_⟩
    exact (trim.present.mp left).2 taken

theorem strandedUnsettled (trim : Trim v root S u) (stranded : Stranded v root fs u f n) : ¬ Settled v root S f := by
  intro settled
  obtain ⟨named, goes, lost⟩ := (strandedIff trim).mp stranded
  have taken : S f 1 := by
    by_contra fresh
    exact lost (.inr ⟨named, goes, .inr fresh⟩)
  exact lost (.inl (settled taken n goes))

end Again

/-- What a removal that stopped between two calls leaves, once it is run again: the tree that a whole run leaves, and in
it the segments that are stranded.  They are of one relation, and there are none of them unless the run stopped behind
the first segment of one that has more. -/
theorem interruptedStrands (v : Volume) (root : String) (fs : List RelFile) (n : Nat) :
    interrupted root fs v (calls root fs v).length = (removeAll root fs v).2 ∧
    ((removeAll root fs (interrupted root fs v n)).2 = (removeAll root fs v).2 ↔
      ∀ f m, ¬ Stranded v root fs (interrupted root fs v n) f m) ∧
    (∀ text entry, (removeAll root fs (interrupted root fs v n)).2.openEntry text = .ok entry ↔
      (removeAll root fs v).2.openEntry text = .ok entry ∨ v.openEntry text = .ok entry ∧
        ∃ f m, Stranded v root fs (interrupted root fs v n) f m ∧ v.resolve text = v.resolve (unitPath root f m)) ∧
    ∀ f g m k, Stranded v root fs (interrupted root fs v n) f m → Stranded v root fs (interrupted root fs v n) g k →
      f = g := by
  obtain ⟨S, made, partly, named, alone⟩ :=
    callsPrefix (Trim.start v root) initialNone (fun f none => none.elim) fs n
  have ended : interrupted root fs v (calls root fs v).length = (removeAll root fs v).2 := by
    rw [interrupted, List.take_length, callsMade]
  refine ⟨ended, ?_⟩
  change Trim v root S (interrupted root fs v n) at made
  generalize interrupted root fs v n = u at made
  obtain ⟨answer, w, whole, trim, -⟩ := (Trim.start v root).all initialNone fs
  obtain ⟨answer', w', again, trim', -⟩ := made.all partly fs
  rw [grownNone] at trim
  rw [whole, again]
  have within (f : RelFile) (m : Nat) (gone : Grown v root S (· ∈ fs) f m) : f ∈ fs ∧ Goes v root f m := by
    rcases gone with taken | ⟨member, goes, -⟩
    · exact ⟨(named f m taken).resolve_left id, partly.goes f m taken⟩
    · exact ⟨member, goes⟩
  refine ⟨⟨fun same f m stranded => ?_, fun none => ?_⟩, fun text entry => ?_, fun f g m k first second => ?_⟩
  · obtain ⟨member, goes, lost⟩ := (strandedIff made).mp stranded
    obtain ⟨place, id, resolved, here⟩ := goes.present
    have gone := trim.cleared.lost place ⟨f, m, ⟨member, goes⟩, resolved, id, here⟩
    have same : w' = w := same
    rw [← same, trim'.cleared.kept place (takenOther resolved lost), here] at gone
    cases gone
  · refine (trim'.congr fun f m _ => ⟨within f m, fun ⟨member, goes⟩ => ?_⟩).unique trim
    by_contra lost
    exact none f m ((strandedIff made).mpr ⟨member, goes, lost⟩)
  · rw [trim.cleared.opens, trim'.cleared.opens]
    constructor
    · rintro ⟨opened, other⟩
      by_cases stranded : ∃ f m, Stranded v root fs u f m ∧ v.resolve text = v.resolve (unitPath root f m)
      · exact .inr ⟨opened, stranded⟩
      · refine .inl ⟨opened, fun p resolved => ?_⟩
        rintro ⟨f, m, ⟨member, goes⟩, resolved', here⟩
        by_cases gone : Grown v root S (· ∈ fs) f m
        · exact other p resolved ⟨f, m, gone, resolved', here⟩
        · exact stranded ⟨f, m, (strandedIff made).mpr ⟨member, goes, gone⟩, resolved.trans resolved'.symm⟩
    · rintro (⟨opened, other⟩ | ⟨opened, f, m, stranded, same⟩)
      · refine ⟨opened, fun p resolved => ?_⟩
        rintro ⟨f, m, gone, rest⟩
        exact other p resolved ⟨f, m, within f m gone, rest⟩
      · exact ⟨opened, fun p resolved => takenOther (same.symm.trans resolved) ((strandedIff made).mp stranded).2.2⟩
  · exact alone f g (strandedUnsettled made first) (strandedUnsettled made second)

def threeFiles : Volume := inDatabase [("100", .file 0), ("100.1", .file 1), ("100.2", .file 2)]

theorem threePlaces : threeFiles.resolve (unitPath "base" (lies 100 false) 0) = .ok #["base", "1663", "5", "100"] ∧
    threeFiles.resolve (unitPath "base" (lies 100 false) 1) = .ok #["base", "1663", "5", "100.1"] ∧
    threeFiles.resolve (unitPath "base" (lies 100 false) 2) = .ok #["base", "1663", "5", "100.2"] ∧
    threeFiles.openEntry (unitPath "base" (lies 100 false) 3) = .error .notFound := by
  decide +kernel

theorem threeRegular : Regular threeFiles "base" (lies 100 false) := by
  obtain ⟨first, second, third, behind⟩ := threePlaces
  refine ⟨.inr ⟨_, 0, first, by decide +kernel⟩, 2, fun m some within => ?_, behind⟩
  obtain rfl | rfl : m = 1 ∨ m = 2 := by omega
  · exact ⟨_, 1, second, by decide +kernel⟩
  · exact ⟨_, 2, third, by decide +kernel⟩

def wholeRun : Volume := (removeAll "base" [lies 100 false] threeFiles).2

def stoppedRun : Volume := interrupted "base" [lies 100 false] threeFiles 2
def nextRun : Volume := (removeAll "base" [lies 100 false] stoppedRun).2

theorem runNames : wholeRun.names = (inDatabase []).names ∧
    nextRun.names = (inDatabase [("100.2", .file 2)]).names := by
  decide +kernel

theorem runsDiffer : nextRun ≠ wholeRun := by
  obtain ⟨whole, next⟩ := runNames
  intro same
  rw [same, whole] at next
  exact absurd next (by decide)

theorem secondSegmentStays : Regular threeFiles "base" (lies 100 false) ∧
    (calls "base" [lies 100 false] threeFiles).take 2 = ["base/1663/5/100", "base/1663/5/100.1"] ∧
    wholeRun.names = (inDatabase []).names ∧ nextRun.names = (inDatabase [("100.2", .file 2)]).names ∧
    nextRun ≠ wholeRun :=
  ⟨threeRegular, by decide +kernel, runNames.1, runNames.2, runsDiffer⟩

theorem strandsSecond : ∃ f m, Stranded threeFiles "base" [lies 100 false] stoppedRun f m := by
  obtain ⟨-, same, -⟩ := interruptedStrands threeFiles "base" [lies 100 false] 2
  by_contra none
  exact runsDiffer (same.mpr fun f m stranded => none ⟨f, m, stranded⟩)

end DataDir

end OrphanFiles
