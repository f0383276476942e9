import OrphanFiles.Proofs.Removal

/-!
What a removal leaves of a tree, whatever stands in its way.  Main statement: exactly the files that go with their
relations are gone, the answer is the failure of the first relation that fails, and neither the order of the relations
matters, nor whether one of them is named twice.
-/
namespace OrphanFiles

namespace DataDir

open Volume

structure Unlinked (v : Volume) (root : String) (fs : List RelFile) (w : Volume) : Prop where
  trim : Trim v root (fun f n => f ∈ fs ∧ Goes v root f n) w
  gone : ∀ f ∈ fs, ∀ n, Goes v root f n → w.openEntry (unitPath root f n) = .error .notFound
  opens : ∀ text entry, w.openEntry text = .ok entry ↔ v.openEntry text = .ok entry ∧
    ∀ f ∈ fs, ∀ n, Goes v root f n → v.resolve text ≠ v.resolve (unitPath root f n)
  places : ∀ place, (∀ f ∈ fs, ∀ n, Goes v root f n → v.resolve (unitPath root f n) ≠ .ok place) →
    w.lookup place = v.lookup place

theorem unlinkedOf {v w : Volume} {root : String} {fs : List RelFile}
    (trim : Trim v root (fun f n => f ∈ fs ∧ Goes v root f n) w) : Unlinked v root fs w where
  trim := trim
  gone f member n goes := by
    obtain ⟨place, id, resolved, here⟩ := goes.present
    exact trim.cleared.unfound resolved ⟨f, n, ⟨member, goes⟩, resolved, id, here⟩
  opens text entry := by
    rw [trim.cleared.opens]
    refine and_congr_right fun opened => ⟨fun other f member n goes same => ?_, fun other p resolved => ?_⟩
    · obtain ⟨place, id, resolved, here⟩ := goes.present
      exact other place (same.trans resolved) ⟨f, n, ⟨member, goes⟩, resolved, id, here⟩
    · rintro ⟨f, n, ⟨member, goes⟩, resolved', -⟩
      exact other f member n goes (resolved.trans resolved'.symm)
  places place other := trim.cleared.kept place fun ⟨f, n, ⟨member, goes⟩, resolved, _⟩ =>
    other f member n goes resolved

theorem dropUnlinks (v : Volume) (root : String) (fs : List RelFile) (redo : Bool) :
    (∀ f, ∃ k, InRun v root f k ∧ ¬ Present v root f (k + 1) ∧
      ∀ n, Goes v root f n ↔ Passable v root f ∧ Present v root f n ∧ n ≤ k) ∧
    ∃ answer w, drop fs redo ⟨root, v⟩ = (answer, ⟨root, w⟩) ∧ Unlinked v root fs w ∧
      (answer = .ok () ↔ ∀ f ∈ fs, ∀ fault, ¬ Fails v root f fault) ∧
      (∀ error, answer = .error error ↔ ∃ fault before f after, error = .path fault ∧ fs = before ++ f :: after ∧
        (∀ g ∈ before, ∀ fault', ¬ Fails v root g fault') ∧ Fails v root f fault) ∧
      (∀ gs redo', (∀ f, f ∈ gs ↔ f ∈ fs) → (drop gs redo' ⟨root, v⟩).2 = ⟨root, w⟩) ∧
      ∀ redo', (drop fs redo' ⟨root, w⟩).2 = ⟨root, w⟩ := by
  refine ⟨fun f => ?_, ?_⟩
  · obtain ⟨k, run, ends⟩ := runEnds v root f
    refine ⟨k, run, ends, fun n => ?_⟩
    constructor
    · intro goes
      exact ⟨goes.passable, goes.present, runWithin ends goes.run⟩
    · rintro ⟨passable, present, within⟩
      exact ⟨passable, fun m one upto => run m one (by omega), present⟩
  obtain ⟨answer, w, removed, trim, answers⟩ := (Trim.start v root).all initialNone fs
  have answers := answers fun f none => none.elim
  refine ⟨answer.mapError .path, w, ?_, unlinkedOf (grownNone ▸ trim), ?_, fun error => ?_, fun gs redo' same => ?_,
    fun redo' => ?_⟩
  · simp only [drop, removed]
  · cases answer with
    | ok _ => exact ⟨fun _ => answers, fun _ => rfl⟩
    | error fault =>
      obtain ⟨before, f, after, rfl, -, fails⟩ := answers
      constructor
      · intro done
        cases done
      · intro clean
        exact absurd fails (clean f (List.mem_append_right before List.mem_cons_self) fault)
  · constructor
    · intro failed
      cases answer with
      | ok _ => cases failed
      | error fault =>
        cases failed
        obtain ⟨before, f, after, named, clean, fails⟩ := answers
        exact ⟨fault, before, f, after, rfl, named, clean, fails⟩
    · rintro ⟨fault, before, f, after, rfl, named, clean, fails⟩
      cases answer with
      | ok _ => exact absurd fails (answers f (named ▸ List.mem_append_right before List.mem_cons_self) fault)
      | error fault' =>
        rw [answersUnique answers ⟨before, f, after, named, clean, fails⟩]
        rfl
  · obtain ⟨answer', w', removed', trim', -⟩ := (Trim.start v root).all initialNone gs
    have alike : (· ∈ gs) = (· ∈ fs) := funext fun f => propext (same f)
    rw [alike] at trim'
    simp only [drop, removed', trim'.unique trim]
  · obtain ⟨answer', w', removed', trim', -⟩ := trim.all (initialGrown initialNone) fs
    have settled := trim'.congr (T := Grown v root (fun _ _ => False) (· ∈ fs)) fun f n _ => by
      simp only [Grown]
      tauto
    simp only [drop, removed', settled.unique trim]

def inDatabase (things : List (String × Entry)) : Volume where
  names := [(#["base"], .directory), (#["base", "1663"], .directory), (#["base", "1663", "5"], .directory)] ++
    things.map fun (name, entry) => (#["base", "1663", "5", name], entry)

def lies (relation : UInt32) (temporary : Bool) : RelFile := ⟨⟨1663, 5, relation⟩, temporary⟩

def obstructed : Volume := inDatabase [("100", .file 0), ("100.1", .file 1), ("100.2", .directory), ("100.3", .file 2),
  ("t_100", .file 3), ("200", .directory), ("200.1", .file 4), ("300.1", .file 5), ("300.3", .file 6)]

def fourRelations : List RelFile := [lies 200 false, lies 100 false, lies 100 true, lies 300 false]

theorem obstructedUnlinks : ∃ w,
    drop fourRelations true ⟨"base", obstructed⟩ = (.error (.path .isDirectory), ⟨"base", w⟩) ∧
    w.names = (inDatabase [("100.2", .directory), ("100.3", .file 2), ("200", .directory), ("200.1", .file 4),
      ("300.3", .file 6)]).names ∧
    (drop (lies 300 false :: fourRelations.reverse) false ⟨"base", obstructed⟩).2 = ⟨"base", w⟩ ∧
    (drop fourRelations false ⟨"base", w⟩).2 = ⟨"base", w⟩ := by
  have result : (drop fourRelations true ⟨"base", obstructed⟩).1 = .error (.path .isDirectory) := by decide +kernel
  have left : (drop fourRelations true ⟨"base", obstructed⟩).2.volume.names =
      (inDatabase [("100.2", .directory), ("100.3", .file 2), ("200", .directory), ("200.1", .file 4),
        ("300.3", .file 6)]).names := by decide +kernel
  obtain ⟨-, answer, w, done, -, -, -, reorders, again⟩ := dropUnlinks obstructed "base" fourRelations true
  rw [done] at result left
  obtain rfl := result
  refine ⟨w, done, left, reorders _ false fun f => ?_, again false⟩
  rw [List.mem_cons, List.mem_reverse]
  refine ⟨fun member => member.elim (fun same => ?_) id, .inr⟩
  subst same
  decide

end DataDir

end OrphanFiles
