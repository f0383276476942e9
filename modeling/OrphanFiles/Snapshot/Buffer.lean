import OrphanFiles.Config
import OrphanFiles.Relation

/-!
The buffer in which a snapshot is collected.  Its room grows in steps, each twice the step before it, so
that few of them are needed, and a step that no memory could satisfy is refused.
-/
namespace OrphanFiles.Snapshot

structure Buffer where
  entries : Array PendingFile
  capacity : Nat
  step : Nat
  deriving DecidableEq, Repr

def slotSize : Nat := 20

/-- The most bytes that one allocation may have.  It stands for what an allocator grants: a smaller reservation is taken
never to fail. -/
def maxAllocation : Nat := 0x7FFFFFFFFFFFFFFF

namespace Buffer

def withStep (step : Nat) : Buffer := ⟨#[], 0, max step 1⟩

def nextStep (b : Buffer) : Nat := if b.capacity = 0 then b.step else Config.saturate (b.step * 2)

/-- Makes room for one step more.  If no memory could satisfy it there is as much room as before, but the step that was
tried is kept. -/
def grow (b : Buffer) : Except Error Unit × Buffer :=
  let b := { b with step := b.nextStep }
  let capacity := b.capacity + b.step
  if capacity * slotSize ≤ maxAllocation then (.ok (), { b with capacity })
  else (.error (.bufferExhausted (Config.saturate capacity)), b)

def add (b : Buffer) (e : PendingFile) : Except Error Unit × Buffer :=
  match if b.entries.size = b.capacity then b.grow else (.ok (), b) with
  | (.ok (), b) => (.ok (), { b with entries := b.entries.push e })
  | (.error failure, b) => (.error failure, b)

def push (b : Buffer) (e : PendingFile) : Except Error Buffer :=
  match b.add e with
  | (.ok (), b) => .ok b
  | (.error failure, _) => .error failure

end Buffer
end OrphanFiles.Snapshot
