import OrphanFiles.Recovery

/-!
What a list of log records says of transactions: the files that its snapshots list, and the outcomes that its
completions tell.  A body that does not decode says nothing.
-/
namespace OrphanFiles

def filesOf (x : Xid) (entries : List PendingFile) : List RelFile :=
  (entries.filter (·.xid == x)).map PendingFile.file

@[simp] theorem filesOfNil (x : Xid) : filesOf x [] = [] := rfl

theorem filesOfCons (x : Xid) (e : PendingFile) (es : List PendingFile) :
    filesOf x (e :: es) = if e.xid = x then e.file :: filesOf x es else filesOf x es := by
  by_cases h : e.xid = x <;> simp [filesOf, h]

theorem filesOfAppend (x : Xid) (as bs : List PendingFile) :
    filesOf x (as ++ bs) = filesOf x as ++ filesOf x bs := by
  simp [filesOf]

theorem filesOfEqNil {x : Xid} {es : List PendingFile} : filesOf x es = [] ↔ ∀ e ∈ es, e.xid ≠ x := by
  simp [filesOf]

theorem memFilesOf {x : Xid} {es : List PendingFile} {f : RelFile} : f ∈ filesOf x es ↔ ⟨f, x⟩ ∈ es := by
  simp only [filesOf, List.mem_map, List.mem_filter, beq_iff_eq]
  constructor
  · rintro ⟨e, ⟨member, rfl⟩, rfl⟩
    exact member
  · intro member
    exact ⟨_, ⟨member, rfl⟩, rfl⟩

theorem Completion.memTree {c : Completion} {x : Xid} : x ∈ c.tree ↔ x = c.xid ∨ x ∈ c.subs := by
  simp [Completion.tree, or_comm]

namespace Log

namespace Record

def listed (r : Record) : List PendingFile :=
  match r.kind, Snapshot.decode r.payload with
  | .pendingDelete, .ok entries => entries
  | _, _ => []

def told? (r : Record) : Option (Completion × TxStatus) :=
  match r.kind, Completion.decode r.payload with
  | .commit, .ok c => some (c, .committed)
  | .abort, .ok c => some (c, .aborted)
  | _, _ => none

def outcome? (x : Xid) (r : Record) : Option TxStatus :=
  r.told?.bind fun (c, s) => if x ∈ c.tree then some s else none

def Names (r : Record) (x : Xid) : Prop := ∃ c s, r.told? = some (c, s) ∧ (x = c.xid ∨ x ∈ c.subs)

theorem outcomeEqNone {r : Record} {x : Xid} : r.outcome? x = none ↔ ¬ r.Names x := by
  simp only [outcome?, Names, ← Completion.memTree]
  cases h : r.told? with
  | none => simp
  | some told => obtain ⟨c, s⟩ := told; simp

theorem outcomeEnded {r : Record} {x : Xid} {s : TxStatus} (h : r.outcome? x = some s) : s ≠ .inProgress := by
  simp only [outcome?, Option.bind_eq_some_iff] at h
  obtain ⟨⟨c, t⟩, told, same⟩ := h
  have ended : t ≠ .inProgress := by
    unfold told? at told
    split at told <;> cases told <;> simp
  simp only [Option.ite_none_right_eq_some, Option.some.injEq] at same
  exact same.2 ▸ ended

end Record

def listed (rs : List Record) : List PendingFile := rs.flatMap Record.listed

def lastOutcome? (x : Xid) (rs : List Record) : Option TxStatus := (rs.filterMap (Record.outcome? x)).getLast?

theorem lastOutcomeSnoc (x : Xid) (rs : List Record) (r : Record) :
    lastOutcome? x (rs ++ [r]) = (r.outcome? x).or (lastOutcome? x rs) := by
  cases h : r.outcome? x with
  | none => simp [lastOutcome?, h]
  | some s => simp [lastOutcome?, h]

theorem lastOutcomeEqNone {x : Xid} {rs : List Record} : lastOutcome? x rs = none ↔ ∀ r ∈ rs, ¬ r.Names x := by
  simp [lastOutcome?, Record.outcomeEqNone]

theorem lastOutcomeEnded {x : Xid} {rs : List Record} {s : TxStatus} (h : lastOutcome? x rs = some s) :
    s ≠ .inProgress := by
  obtain ⟨r, _, told⟩ := List.mem_filterMap.mp (List.mem_of_getLast? h)
  exact Record.outcomeEnded told

/- A transaction whose files a recovery has to remove: it is known to the horizon, no outcome of it is known
beforehand, a snapshot lists it, and no completion names it, wherever it stands. -/
structure InDoubt (l : Ledger) (rs : List Record) (x : Xid) : Prop where
  valid : x.isValid = true
  recent : x.precedes l.oldest = false
  running : l.statusOf x = .inProgress
  listed : ∃ e ∈ listed rs, e.xid = x
  unnamed : ∀ r ∈ rs, ¬ r.Names x

end Log
end OrphanFiles
