import OrphanFiles.Proofs.Untracked

/-!
The room that is asked for at startup, beside the registry that is built.  Both look at the switches for themselves; the
room is that of the lists and nodes that are built, but it is asked for during a bootstrap too, when none are.
-/
namespace OrphanFiles.Registry

structure SwitchedOff (r : Registry) : Prop where
  disabled : r.enabled = false
  lists : r.heads.size = 0
  nodes : r.pool.capacity = 0
  adds : ∀ b file xid, r.add b file xid = (.ok .invalid, r)
  removes : ∀ b t, r.remove b t = r
  lengths : ∀ b, r.pendingLen b = 0
  leaves : ∀ b, (r.detach b).1 = 0
  dumps : r.dump = .ok none

def footprint (r : Registry) : Nat :=
  Config.saturate (Config.saturate (r.heads.size * 16) +
    Config.saturate (Config.saturate (r.pool.capacity * (48 + 4)) + 56))

structure Furnished (c : Config) (r : Registry) : Prop where
  enabled : r.enabled = true
  lists : r.heads.size = c.maxBackends ∧ 0 < r.heads.size
  nodes : r.pool.capacity = c.poolNodes ∧ 0 < r.pool.capacity
  room : c.startupBytes = r.footprint

section Built

variable {c : Config} {r : Registry}

theorem Listless.switchedOff (idle : r.Listless c) : r.SwitchedOff where
  disabled := idle.enabled
  lists := by rw [idle.heads]; rfl
  nodes := by rw [idle.pool]; rfl
  adds := idle.add
  removes := idle.remove
  lengths := idle.length
  leaves b := by rw [idle.detach]
  dumps := idle.dump

theorem newFurnished (on : c.enabled = true) (made : new c = .ok r) : r.Furnished c := by
  obtain ⟨valid, made⟩ := newOk made
  obtain ⟨some, -, more, few, -⟩ := Config.validateOk.mp valid
  have tracked : c.track = true := by
    rw [Config.enabled, Bool.and_eq_true] at on
    exact on.1
  have lists : r.heads.size = c.maxBackends := by simp [made, on]
  have nodes : r.pool.capacity = c.poolNodes := by
    simp only [made, on, if_true, Pool.withCapacity]
    omega
  refine ⟨by rw [made]; exact on, ⟨lists, by omega⟩, ⟨nodes, by omega⟩, ?_⟩
  rw [Config.startupBytes, if_pos tracked, footprint, lists, nodes]

theorem startupBytesEqZero : c.startupBytes = 0 ↔ c.track = false := by
  cases tracked : c.track with
  | false => simp [Config.startupBytes, tracked]
  | true =>
    simp only [Config.startupBytes, tracked, if_true, Config.saturate, Config.maxSize, Bool.true_eq_false, iff_false]
    omega

theorem switchedOffIff (made : new c = .ok r) : r.SwitchedOff ↔ c.enabled = false := by
  constructor
  · intro off
    rw [← Bool.not_eq_true]
    intro on
    exact Bool.false_ne_true (off.disabled.symm.trans (newFurnished on made).enabled)
  · intro off
    exact (newListless off made).switchedOff

end Built

theorem roomAsBuilt {c : Config} (valid : c.validate = .ok ()) : ∃ r, new c = .ok r ∧
    (r.SwitchedOff ∨ r.Furnished c) ∧ (c.startupBytes = 0 → r.SwitchedOff) ∧
    (c.track = true ∧ c.bootstrap = true → 0 < c.startupBytes ∧ r.SwitchedOff) ∧
    (¬ (c.track = true ∧ c.bootstrap = true) → (c.startupBytes = 0 ↔ r.SwitchedOff)) := by
  obtain ⟨r, made⟩ : ∃ r, new c = .ok r := by
    unfold new
    rw [valid]
    exact ⟨_, rfl⟩
  have off := switchedOffIff made
  have zero := startupBytesEqZero (c := c)
  refine ⟨r, made, ?_, fun none => ?_, fun ⟨track, bootstrap⟩ => ⟨?_, ?_⟩, fun other => ?_⟩
  · cases on : c.enabled with
    | false => exact .inl (off.mpr on)
    | true => exact .inr (newFurnished on made)
  · rw [off, Config.enabled, zero.mp none, Bool.false_and]
  · refine Nat.pos_of_ne_zero fun none => ?_
    rw [zero.mp none] at track
    contradiction
  · rw [off, Config.enabled, bootstrap, Bool.not_true, Bool.and_false]
  · rw [zero, off, Config.enabled]
    cases track : c.track <;> cases bootstrap : c.bootstrap <;> simp_all

theorem roomAsBuiltSmall : Config.validate (.compact 2 4) = .ok () ∧ ∃ r, new (.compact 2 4) = .ok r ∧
    (r.SwitchedOff ∨ r.Furnished (.compact 2 4)) ∧
    (Config.startupBytes (.compact 2 4) = 0 ↔ r.SwitchedOff) := by
  obtain ⟨r, made, built, -, -, agrees⟩ := roomAsBuilt (c := .compact 2 4) rfl
  exact ⟨rfl, r, made, built, agrees (by decide)⟩

/- While the catalog is bootstrapped, room is asked for lists and nodes that are not built. -/
theorem bootstrapAsksForRoom : ∃ c r, c = { bootstrap := true } ∧ Config.validate c = .ok () ∧ new c = .ok r ∧
    r.SwitchedOff ∧ c.startupBytes ≠ 0 ∧ ¬ (c.startupBytes = 0 ↔ r.SwitchedOff) := by
  have made : ∃ r, new { bootstrap := true } = .ok r := ⟨_, rfl⟩
  obtain ⟨r, made⟩ := made
  have off : r.SwitchedOff := (switchedOffIff made).mpr rfl
  have room : Config.startupBytes { bootstrap := true } ≠ 0 := mt startupBytesEqZero.mp (by decide)
  exact ⟨_, r, rfl, rfl, made, off, room, fun agrees => room (agrees.mpr off)⟩

end OrphanFiles.Registry
