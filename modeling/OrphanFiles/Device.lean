import OrphanFiles.Content
import OrphanFiles.Error

/-!
An open file whose operations can be made to fail.  A file keeps its content and, apart from it, the content
that the last sync made stable.  A failure is armed ahead of time: it lets a number of calls of one operation
pass, and refuses the next one before anything is done.
-/
namespace OrphanFiles

structure File where
  content : Content
  /-- The content as of the last sync, all that a crash is sure to leave. -/
  stable : Content

def File.empty : File := ⟨[], []⟩

structure ArmedFault where
  op : FileOp
  after : Nat
  atEnd : Bool
  deriving DecidableEq, Repr

/-- Counts one call against the first fault that is armed for its operation.  The answer is the fault if it
fires, and the faults that stay armed; later faults of that operation wait. -/
def ArmedFault.strike (op : FileOp) : List ArmedFault → Option ArmedFault × List ArmedFault
  | [] => (none, [])
  | f :: fs =>
    if f.op = op then
      match f.after with
      | 0 => (some f, fs)
      | after + 1 => (none, { f with after } :: fs)
    else
      let (hit, fs) := strike op fs
      (hit, f :: fs)

structure Device where
  file : File
  faults : List ArmedFault

abbrev FileM := EStateM Error Device

namespace FileM

def call (op : FileOp) : FileM Unit := do
  let d ← get
  let (hit, faults) := ArmedFault.strike op d.faults
  set { d with faults }
  match hit with
  | none => pure ()
  | some f => throw (.io (.injected op f.atEnd))

def content : FileM Content := return (← get).file.content

def setContent (c : Content) : FileM Unit := modify fun d => { d with file := { d.file with content := c } }

def readAt (off n : Nat) : FileM ByteArray := do
  call .read
  let c ← content
  if n = 0 then pure .empty
  else if off + n ≤ c.size then pure (Content.read off (off + n) c)
  else throw (.io .endOfFile)

def writeAt (off : Nat) (src : ByteArray) : FileM Unit := do
  call .write
  setContent (Content.overwrite off src (← content))

def sync : FileM Unit := do
  call .sync
  modify fun d => { d with file := { d.file with stable := d.file.content } }

def len : FileM Nat := do
  call .len
  return (← content).size

def truncate (n : Nat) : FileM Unit := do
  call .truncate
  setContent (Content.resize n (← content))

def readOrEnd (off n : Nat) : FileM (Option ByteArray) := do
  match ← Error.attempt (readAt off n) with
  | .ok b => pure (some b)
  | .error e => if e.isEnd then pure none else throw e

end FileM
end OrphanFiles
