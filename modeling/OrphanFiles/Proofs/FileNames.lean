import OrphanFiles.Proofs.Unlinking

/-!
The paths of relations are all different: as texts, by the names they are made of, and by where they lead in any tree.
So a temporary relation, a permanent one and a segment have no file in common, and each is removed for itself.
-/
namespace OrphanFiles

namespace Volume

def way (text : String) : List String := (components text).filter (· != ".")

end Volume

namespace DataDir

open Volume

section Units

variable {v w : Volume} {root : String} {f g : RelFile} {j k : Nat}

theorem wayUnit (root : String) (f : RelFile) (n : Nat) : way (unitPath root f n) =
    way root ++ [toString f.node.tablespace.toNat, toString f.node.database.toNat, unitName f n] := by
  have names : [toString f.node.tablespace.toNat, toString f.node.database.toNat, unitName f n].filter (· != ".") =
      [toString f.node.tablespace.toNat, toString f.node.database.toNat, unitName f n] := by
    refine List.filter_eq_self.mpr fun c member => bne_iff_ne.mpr ?_
    simp only [List.mem_cons, List.not_mem_nil, or_false] at member
    rcases member with rfl | rfl | rfl
    · exact (numberPlain _).inside.1
    · exact (numberPlain _).inside.1
    · exact (unitPlain f n).inside.1
  rw [way, componentsUnit, List.filter_append, names, way]

theorem wayInj (same : way (unitPath root f j) = way (unitPath root g k)) : f = g ∧ j = k := by
  rw [wayUnit, wayUnit] at same
  have names := List.append_cancel_left same
  simp only [List.cons.injEq, and_true] at names
  obtain ⟨tablespace, database, name⟩ := names
  exact unitNamesInj tablespace database name

theorem removedOpens (removed : v.remove (unitPath root f j) = .ok w) (entry : Entry) :
    w.openEntry (unitPath root g k) = .ok entry ↔
      v.openEntry (unitPath root g k) = .ok entry ∧ ¬ (f = g ∧ j = k) := by
  obtain ⟨place, id, resolved, here⟩ := presentIff.mpr ⟨w, removed⟩
  obtain ⟨w', removed', -, -, cleared⟩ := removeFile resolved here
  cases removed.symm.trans removed'
  rw [cleared.opens]
  refine and_congr_right fun opened => ⟨fun other same => ?_, fun apart p resolved' same => ?_⟩
  · obtain ⟨rfl, rfl⟩ := same
    exact other place resolved rfl
  · exact apart (unitPlaceInj resolved (same ▸ resolved'))

end Units

theorem pathsApart (root : String) (f g : RelFile) (j k : Nat) :
    (unitPath root f j = unitPath root g k ↔ f = g ∧ j = k) ∧
    (way (unitPath root f j) = way (unitPath root g k) ↔ f = g ∧ j = k) ∧
    (∀ (v : Volume) place, v.resolve (unitPath root f j) = .ok place →
      (v.resolve (unitPath root g k) = .ok place ↔ f = g ∧ j = k)) ∧
    ∀ (v w : Volume) entry, v.remove (unitPath root f j) = .ok w →
      (w.openEntry (unitPath root g k) = .ok entry ↔
        v.openEntry (unitPath root g k) = .ok entry ∧ ¬ (f = g ∧ j = k)) := by
  have alike (same : f = g ∧ j = k) : unitPath root f j = unitPath root g k := by rw [same.1, same.2]
  refine ⟨⟨fun same => wayInj (congrArg way same), alike⟩, ⟨wayInj, fun same => congrArg way (alike same)⟩,
    fun v place resolved => ⟨unitPlaceInj resolved, fun same => ?_⟩,
    fun v w entry removed => removedOpens removed entry⟩
  rw [← alike same]
  exact resolved

theorem segmentApart : ∃ w, obstructed.remove (unitPath "base" (lies 100 false) 1) = .ok w ∧
    unitPath "base" (lies 100 false) 1 ≠ unitPath "base" (lies 100 true) 0 ∧
    obstructed.resolve (unitPath "base" (lies 100 false) 1) = .ok #["base", "1663", "5", "100.1"] ∧
    obstructed.resolve (unitPath "base" (lies 100 true) 0) ≠ .ok #["base", "1663", "5", "100.1"] ∧
    w.openEntry (unitPath "base" (lies 100 true) 0) = .ok (.file 3) := by
  have resolved : obstructed.resolve (unitPath "base" (lies 100 false) 1) = .ok #["base", "1663", "5", "100.1"] := by
    decide +kernel
  have there : obstructed.openEntry (unitPath "base" (lies 100 true) 0) = .ok (.file 3) := by decide +kernel
  have different : ¬ (lies 100 false = lies 100 true ∧ 1 = 0) := by decide
  obtain ⟨w, removed⟩ := presentIff.mp ⟨_, 1, resolved, by decide +kernel⟩
  obtain ⟨texts, -, places, opens⟩ := pathsApart "base" (lies 100 false) (lies 100 true) 1 0
  exact ⟨w, removed, mt texts.mp different, resolved, mt (places _ _ resolved).mp different,
    (opens _ w _ removed).mpr ⟨there, different⟩⟩

end DataDir

end OrphanFiles
