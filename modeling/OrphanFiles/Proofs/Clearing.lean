import Mathlib.Data.List.Basic
import OrphanFiles.Proofs.Paths

/-!
Trees in which files lost their names.  The invariant says which places that are; all other places hold what they held,
and a path leads where it led, unless that was to one of these files.
-/
namespace OrphanFiles

namespace Volume

structure Cleared (v : Volume) (gone : Place → Prop) (w : Volume) : Prop where
  kept : ∀ p, ¬ gone p → w.lookup p = v.lookup p
  lost : ∀ p, gone p → w.lookup p = none
  filed : ∀ p, gone p → ∃ id, v.lookup p = some (.file id)

def Inside (base p : Place) : Prop := ∃ names : List String, p.toList = base.toList ++ names ∧
  ∀ c ∈ names, c ≠ "" ∧ c ≠ ".."

def Deep (base p : Place) : Prop := ∃ a b c, DataDir.Plain a ∧ DataDir.Plain b ∧ DataDir.Plain c ∧
  p = ((base.push a).push b).push c

theorem Deep.inside {base p : Place} (deep : Deep base p) : Inside base p := by
  obtain ⟨a, b, c, first, second, third, rfl⟩ := deep
  refine ⟨[a, b, c], by simp, fun name member => ?_⟩
  simp only [List.mem_cons, List.not_mem_nil, or_false] at member
  rcases member with rfl | rfl | rfl
  · exact ⟨first.named, first.inside.2⟩
  · exact ⟨second.named, second.inside.2⟩
  · exact ⟨third.named, third.inside.2⟩

theorem Deep.size {base p : Place} (deep : Deep base p) : p.size = base.size + 3 := by
  obtain ⟨a, b, c, -, -, -, rfl⟩ := deep
  simp

section Places

variable {v w u : Volume} {gone more : Place → Prop} {p : Place} {entry : Entry}

theorem clearedNone (same : w.names = v.names) : v.Cleared (fun _ => False) w :=
  ⟨fun p _ => by rw [lookup, lookup, same], fun _ none => none.elim, fun _ none => none.elim⟩

theorem Cleared.unfiled (cleared : Cleared v gone w) (other : ∀ id, v.lookup p ≠ some (.file id)) :
    w.lookup p = v.lookup p :=
  cleared.kept p fun lost => (cleared.filed p lost).elim other

theorem Cleared.directory (cleared : Cleared v gone w) (here : v.lookup p = some .directory) :
    w.lookup p = some .directory := by
  rw [cleared.unfiled, here]
  simp [here]

theorem Cleared.missing (cleared : Cleared v gone w) (here : v.lookup p = none) : w.lookup p = none := by
  rw [cleared.unfiled, here]
  simp [here]

theorem Cleared.held (cleared : Cleared v gone w) (here : w.lookup p = some entry) :
    ¬ gone p ∧ v.lookup p = some entry := by
  have other : ¬ gone p := fun lost => by
    rw [cleared.lost p lost] at here
    cases here
  exact ⟨other, (cleared.kept p other).symm.trans here⟩

theorem Cleared.trans (first : v.Cleared gone w) (second : w.Cleared more u) :
    v.Cleared (fun q => gone q ∨ more q) u where
  kept q other := by
    rw [second.kept q fun lost => other (.inr lost), first.kept q fun lost => other (.inl lost)]
  lost q lost := by
    by_cases later : more q
    · exact second.lost q later
    · rw [second.kept q later]
      exact first.lost q (lost.resolve_right later)
  filed q lost := by
    by_cases before : gone q
    · exact first.filed q before
    · rw [← first.kept q before]
      exact second.filed q (lost.resolve_left before)

end Places

section Ways

variable {v w : Volume} {gone : Place → Prop} {p q : Place} {cs : List String}

theorem Cleared.walks (cleared : Cleared v gone w) (p : Place) (cs : List String) :
    w.walk p cs = v.walk p cs ∨ v.walk p cs = .error .notDirectory ∧ w.walk p cs = .error .notFound := by
  induction cs generalizing p with
  | nil => exact .inl rfl
  | cons c cs ih =>
    unfold Volume.walk
    by_cases lost : gone p
    · obtain ⟨id, filed⟩ := cleared.filed p lost
      simp [filed, cleared.lost p lost]
    · rw [cleared.kept p lost]
      cases v.lookup p with
      | none => exact .inl rfl
      | some entry => cases entry with
        | file id => exact .inl rfl
        | directory =>
          dsimp only
          split
          · exact .inl rfl
          · exact ih (enter p c)

theorem Cleared.walk (cleared : Cleared v gone w) (walked : v.walk p cs = .ok q) : w.walk p cs = .ok q := by
  rcases cleared.walks p cs with same | ⟨blocked, -⟩
  · rw [same, walked]
  · cases blocked.symm.trans walked

theorem Cleared.walkMissing (cleared : Cleared v gone w) (missing : v.walk p cs = .error .notFound) :
    w.walk p cs = .error .notFound := by
  rcases cleared.walks p cs with same | ⟨-, missing'⟩
  · rw [same, missing]
  · exact missing'

theorem Cleared.walkBack (cleared : Cleared v gone w) (walked : w.walk p cs = .ok q) : v.walk p cs = .ok q := by
  rcases cleared.walks p cs with same | ⟨-, missing⟩
  · rw [← same, walked]
  · cases missing.symm.trans walked

theorem Cleared.walkDown (cleared : v.Cleared gone w) (deep : ∀ q, gone q → q.size = p.size + cs.length)
    (plain : ∀ c ∈ cs, DataDir.Plain c) : w.walk p cs = v.walk p cs := by
  induction cs generalizing p with
  | nil => rfl
  | cons c cs ih =>
    have here : w.lookup p = v.lookup p := by
      refine cleared.kept p fun lost => ?_
      have size := deep p lost
      rw [List.length_cons] at size
      omega
    obtain ⟨outside, apart⟩ := (plain c List.mem_cons_self).inside
    have next : enter p c = p.push c := by rw [enter, if_neg outside, if_neg apart]
    have rest : w.walk (p.push c) cs = v.walk (p.push c) cs := by
      refine ih (fun q lost => ?_) fun name member => plain name (List.mem_cons_of_mem _ member)
      rw [deep q lost, Array.size_push, List.length_cons]
      omega
    unfold Volume.walk
    rw [here, next, rest]

theorem walkCongr (same : ∀ p, w.lookup p = v.lookup p) (p : Place) (cs : List String) : w.walk p cs = v.walk p cs := by
  induction cs generalizing p with
  | nil => rfl
  | cons c cs ih =>
    unfold walk
    simp only [same, ih]

end Ways

section Paths

variable {v w : Volume} {gone : Place → Prop} {text : String} {p : Place} {id : Nat} {entry : Entry} {fault : PathFault}

theorem resolveEq (v : Volume) (text : String) : v.resolve text = (checkPath text).bind fun _ =>
    (v.walk #[] (components text)).bind fun place => match v.lookup place with
      | some (.file _) => if endsInSlash text then .error .notDirectory else .ok place
      | _ => .ok place := by
  rfl

theorem resolveChecked (resolved : v.resolve text = .ok p) : checkPath text = .ok () := by
  rw [resolveEq] at resolved
  cases checked : checkPath text with
  | error fault =>
    rw [checked] at resolved
    cases resolved
  | ok u => rfl

theorem openEq (v : Volume) (text : String) : v.openEntry text = (v.resolve text).bind fun place =>
    match v.lookup place with
      | none => .error .notFound
      | some entry => .ok entry := by
  rfl

theorem openSome : v.openEntry text = .ok entry ↔ ∃ p, v.resolve text = .ok p ∧ v.lookup p = some entry := by
  rw [openEq]
  cases v.resolve text with
  | error fault => simp [Except.bind]
  | ok p => cases here : v.lookup p <;> simp [Except.bind, here]

theorem openFound (opened : v.openEntry text = .ok (.file id)) :
    ∃ place, v.resolve text = .ok place ∧ v.lookup place = some (.file id) :=
  openSome.mp opened

theorem fileFound (resolved : v.resolve text = .ok p) (here : v.lookup p = some (.file id)) :
    v.openEntry text = .ok (.file id) :=
  openSome.mpr ⟨p, resolved, here⟩

theorem removeEq (v : Volume) (text : String) : v.remove text = (v.resolve text).bind fun place =>
    match v.lookup place with
      | none => .error .notFound
      | some .directory => .error .isDirectory
      | some (.file _) => .ok { v with names := v.names.filter (·.1 != place) } := by
  rfl

theorem removeMissing (absent : v.openEntry text = .error .notFound) : v.remove text = .error .notFound := by
  rw [openEq] at absent
  rw [removeEq]
  cases resolved : v.resolve text with
  | error fault =>
    rw [resolved] at absent
    cases absent
    rfl
  | ok place =>
    rw [resolved] at absent
    cases here : v.lookup place with
    | none => simp only [Except.bind, here]
    | some entry => simp [Except.bind, here] at absent

theorem resolveSolid (solid : endsInSlash text = false) (v : Volume) :
    v.resolve text = (checkPath text).bind fun _ => v.walk #[] (components text) := by
  rw [resolveEq]
  congr 1
  funext _
  cases v.walk #[] (components text) with
  | error fault => rfl
  | ok p => cases here : v.lookup p with
    | none => simp [Except.bind, here]
    | some entry => cases entry <;> simp [Except.bind, here, solid]

theorem Cleared.removeFails (cleared : Cleared v gone w)
    (same : w.walk #[] (components text) = v.walk #[] (components text)) (solid : endsInSlash text = false)
    (failed : v.remove text = .error fault) : w.remove text = .error fault := by
  have resolved : w.resolve text = v.resolve text := by rw [resolveSolid solid, resolveSolid solid, same]
  rw [removeEq] at failed ⊢
  rw [resolved]
  cases there : v.resolve text with
  | error fault' =>
    rw [there] at failed
    exact failed
  | ok p =>
    rw [there] at failed
    simp only [Except.bind] at failed ⊢
    cases here : v.lookup p with
    | none => simpa only [here, cleared.missing here] using failed
    | some entry => cases entry with
      | directory => simpa only [here, cleared.directory here] using failed
      | file id => simp [here] at failed

theorem Cleared.stays (cleared : Cleared v gone w) (resolved : v.resolve text = .ok p) (other : ¬ gone p) :
    w.resolve text = .ok p ∧ w.lookup p = v.lookup p := by
  have there := cleared.kept p other
  refine ⟨?_, there⟩
  have walked := resolveWalk resolved
  have checked := resolveChecked resolved
  rw [resolveEq, checked] at resolved ⊢
  simp only [Except.bind, walked] at resolved
  simp only [Except.bind, cleared.walk walked, there]
  exact resolved

theorem Cleared.found (cleared : Cleared v gone w) (resolved : v.resolve text = .ok p)
    (here : v.lookup p = some (.file id)) (other : ¬ gone p) :
    w.resolve text = .ok p ∧ w.lookup p = some (.file id) := by
  obtain ⟨resolved', there⟩ := cleared.stays resolved other
  exact ⟨resolved', there.trans here⟩

theorem Cleared.staysDirectory (cleared : Cleared v gone w) (resolved : v.resolve text = .ok p)
    (here : v.lookup p = some .directory) : w.resolve text = .ok p ∧ w.lookup p = some .directory := by
  obtain ⟨resolved', -⟩ := cleared.stays resolved fun lost => by
    obtain ⟨id, filed⟩ := cleared.filed p lost
    rw [filed] at here
    cases here
  exact ⟨resolved', cleared.directory here⟩

theorem Cleared.unfound (cleared : Cleared v gone w) (resolved : v.resolve text = .ok p) (lost : gone p) :
    w.openEntry text = .error .notFound := by
  have there := cleared.lost p lost
  rw [openEq, resolveEq, resolveChecked resolved]
  simp only [Except.bind, cleared.walk (resolveWalk resolved), there]

theorem Cleared.absent (cleared : Cleared v gone w) (absent : v.openEntry text = .error .notFound) :
    w.openEntry text = .error .notFound := by
  rw [openEq, resolveEq] at absent ⊢
  cases checked : checkPath text with
  | error fault =>
    rw [checked] at absent
    exact absent
  | ok u =>
    rw [checked] at absent
    simp only [Except.bind] at absent ⊢
    cases walked : v.walk #[] (components text) with
    | error fault =>
      rw [walked] at absent
      cases absent
      rw [cleared.walkMissing walked]
    | ok place =>
      rw [walked] at absent
      rw [cleared.walk walked]
      simp only at absent ⊢
      cases here : v.lookup place with
      | none => simp only [cleared.missing here]
      | some entry => cases entry with
        | directory => simp [here] at absent
        | file id =>
          by_cases slash : endsInSlash text = true
          · simp [here, slash] at absent
          · simp [here, slash] at absent

theorem Cleared.resolveBack (cleared : Cleared v gone w) (resolved : w.resolve text = .ok p)
    (here : w.lookup p = some entry) : v.resolve text = .ok p := by
  have walked := resolveWalk resolved
  have checked := resolveChecked resolved
  rw [resolveEq, checked] at resolved ⊢
  simp only [Except.bind, walked, here] at resolved
  simp only [Except.bind, cleared.walkBack walked, (cleared.held here).2]
  exact resolved

theorem Cleared.opens (cleared : Cleared v gone w) : w.openEntry text = .ok entry ↔
    v.openEntry text = .ok entry ∧ ∀ p, v.resolve text = .ok p → ¬ gone p := by
  rw [openSome, openSome]
  constructor
  · rintro ⟨p, resolved, here⟩
    have before := cleared.resolveBack resolved here
    refine ⟨⟨p, before, (cleared.held here).2⟩, fun q resolved' => ?_⟩
    cases before.symm.trans resolved'
    exact (cleared.held here).1
  · rintro ⟨⟨p, resolved, here⟩, other⟩
    obtain ⟨resolved', there⟩ := cleared.stays resolved (other p resolved)
    exact ⟨p, resolved', there.trans here⟩

theorem lookupFilter (keep : Place → Bool) (q : Place) (names : List (Place × Entry)) :
    (names.filter fun e => keep e.1).lookup q = if keep q then names.lookup q else none := by
  induction names with
  | nil => simp
  | cons e names ih => by_cases kept : keep e.1 <;> by_cases here : q = e.1 <;> grind

theorem filterShorter {names : List (Place × Entry)} {entry : Entry} (here : names.lookup p = some entry) :
    (names.filter (·.1 != p)).length < names.length := by
  obtain ⟨before, after, rfl, -⟩ := List.lookup_eq_some_iff.mp here
  exact List.length_filter_lt_length_iff_exists.mpr ⟨(p, entry), by simp, by simp⟩

theorem removeFile (resolved : v.resolve text = .ok p) (here : v.lookup p = some (.file id)) :
    ∃ w, v.remove text = .ok w ∧ w.files = v.files ∧ w.names.length < v.names.length ∧ Cleared v (· = p) w := by
  have named : v.names.lookup p = some (.file id) ∧ (p = #[""] || p.all (· = "..")) = false := by
    unfold lookup at here
    split at here
    · cases here
    · next outside => exact ⟨here, by simpa using outside⟩
  refine ⟨{ v with names := v.names.filter (·.1 != p) }, ?_, rfl, filterShorter named.1, fun q other => ?_, ?_, ?_⟩
  · rw [removeEq, resolved]
    simp only [Except.bind, here]
  · simp only [lookup, lookupFilter (· != p), bne_iff_ne.mpr other, if_true]
  · rintro q rfl
    simp only [lookup, named.2, lookupFilter (· != q), bne_self_eq_false, Bool.false_eq_true, if_false]
  · rintro q rfl
    exact ⟨id, here⟩

end Paths

end Volume

end OrphanFiles
