/-!
The kinds of log records.
-/
namespace OrphanFiles.Log

inductive Kind where
  | pendingDelete
  | commit
  | abort
  | checkpoint
  deriving DecidableEq, Repr

namespace Kind

def code : Kind → UInt8
  | .pendingDelete => 1
  | .commit => 2
  | .abort => 3
  | .checkpoint => 4

def ofCode? : UInt8 → Option Kind
  | 1 => some .pendingDelete
  | 2 => some .commit
  | 3 => some .abort
  | 4 => some .checkpoint
  | _ => none

def name : Kind → String
  | .pendingDelete => "pending_delete"
  | .commit => "xact_commit"
  | .abort => "xact_abort"
  | .checkpoint => "checkpoint"

theorem ofCodeCode (k : Kind) : ofCode? k.code = some k := by cases k <;> rfl

theorem codeOfCode {b : UInt8} {k : Kind} (h : ofCode? b = some k) : k.code = b := by
  unfold ofCode? at h
  split at h <;> simp_all <;> subst h <;> rfl

end Kind
end OrphanFiles.Log
