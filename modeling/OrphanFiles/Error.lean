import OrphanFiles.Xid

/-!
Why an operation was refused.  Each kind of failure is a type of causes; the wording of all of them is in
the `text` functions here and in `Error.message`, and nowhere else.
-/
namespace OrphanFiles

inductive FileOp where
  | read | write | sync | len | truncate
  deriving DecidableEq, Repr

def FileOp.name : FileOp → String
  | .read => "read"
  | .write => "write"
  | .sync => "sync"
  | .len => "len"
  | .truncate => "truncate"

inductive PathFault where
  | notFound
  | exists
  | notDirectory
  | isDirectory
  | tooLong
  | holdsNul
  deriving DecidableEq, Repr

def PathFault.text : PathFault → String
  | .notFound => "No such file or directory (os error 2)"
  | .exists => "File exists (os error 17)"
  | .notDirectory => "Not a directory (os error 20)"
  | .isDirectory => "Is a directory (os error 21)"
  | .tooLong => "File name too long (os error 36)"
  | .holdsNul => "file name contained an unexpected NUL byte"

inductive IoFault where
  | endOfFile
  /-- A failure that was armed on the device; with `atEnd` it presents itself as the end of the file. -/
  | injected (op : FileOp) (atEnd : Bool)
  | path (fault : PathFault)
  | badPosition
  | tooLarge
  | badSize
  | notUtf8
  deriving DecidableEq, Repr

namespace IoFault

def text : IoFault → String
  | .endOfFile => "read_at reached EOF"
  | .injected op _ => s!"injected {op.name} failure"
  | .path fault => fault.text
  | .badPosition => "Invalid argument (os error 22)"
  | .tooLarge => "File too large (os error 27)"
  | .badSize => "out of range integral type conversion attempted"
  | .notUtf8 => "stream did not contain valid UTF-8"

def isEnd : IoFault → Bool
  | .endOfFile => true
  | .injected _ atEnd => atEnd
  | _ => false

end IoFault

inductive Damage where
  | logShort
  | headerShort
  | magic
  | version
  | reservedHeader
  | headerChecksum
  | salt
  | belowStart
  | unknownKind
  | snapshotShort
  | snapshotLength
  | snapshotFlag
  | snapshotPadding
  | completionShort
  | completionLength
  deriving DecidableEq, Repr

def Damage.text : Damage → String
  | .logShort => "wal truncated header"
  | .headerShort => "wal header truncated"
  | .magic => "wal magic mismatch"
  | .version => "wal format version mismatch"
  | .reservedHeader => "wal reserved header bytes non-zero"
  | .headerChecksum => "wal header crc mismatch"
  | .salt => "wal salt mismatch"
  | .belowStart => "wal record lsn below start_lsn"
  | .unknownKind => "wal record kind unknown"
  | .snapshotShort => "pending delete record truncated"
  | .snapshotLength => "pending delete record length mismatch"
  | .snapshotFlag => "pending delete temp flag invalid"
  | .snapshotPadding => "pending delete padding non-zero"
  | .completionShort => "xact record truncated"
  | .completionLength => "xact record length mismatch"

inductive Misuse where
  | payloadTooLarge
  | backendOutOfRange
  | backendAttached (id : UInt32)
  /-- A refusal in the words of a log or a file dropper outside this library. -/
  | reported (text : String)
  deriving DecidableEq, Repr

def Misuse.text : Misuse → String
  | .payloadTooLarge => "wal record payload too large"
  | .backendOutOfRange => "backend id out of range"
  | .backendAttached id => s!"backend {id.toNat} already attached"
  | .reported text => text

inductive ConfigFault where
  | noBackends
  | tooManyBackends
  | noNodes
  | tooManyNodes
  | noInitialEntries
  | unreadable (path : String) (cause : IoFault)
  | malformed
  deriving DecidableEq, Repr

def ConfigFault.text? : ConfigFault → Option String
  | .noBackends => some "max_backends must be non-zero"
  | .tooManyBackends => some "max_backends exceeds u32 range"
  | .noNodes => some "arena_nodes must be non-zero"
  | .tooManyNodes => some "arena_nodes exceeds u32 range"
  | .noInitialEntries => some "dump_initial_entries must be non-zero"
  | .unreadable path cause => some s!"{path}: {cause.text}"
  | .malformed => none

inductive Error where
  | io (fault : IoFault)
  | corruption (damage : Damage)
  | invalid (misuse : Misuse)
  | outOfMemory (backend : UInt32) (capacity : Nat)
  | bufferExhausted (entries : Nat)
  | config (fault : ConfigFault)
  | missingLog (path : String)
  | missingDataDir (path : String)
  deriving DecidableEq, Repr

namespace Error

def message : Error → String
  | .io fault => "IO: " ++ fault.text
  | .corruption damage => "corruption: " ++ damage.text
  | .invalid misuse => "invalid argument: " ++ misuse.text
  | .outOfMemory backend capacity =>
    s!"not enough memory to add pending delete node (backend {backend.toNat}, capacity {capacity})"
  | .bufferExhausted entries => s!"not enough memory to grow pending delete snapshot to {entries} entries"
  | .config fault => match fault.text? with
    | some text => "config: " ++ text
    | none => "config"
  | .missingLog path => "log not found: " ++ path
  | .missingDataDir path => "data directory not found: " ++ path

def isEnd : Error → Bool
  | .io fault => fault.isEnd
  | _ => false

def path (fault : PathFault) : Error := .io (.path fault)

def dropMessage (cause : Error) (xid : Xid) : String :=
  s!"failed to drop files for xid {xid.text}: {cause.message}"

variable {σ α : Type}

def attempt (x : EStateM Error σ α) : EStateM Error σ (Except Error α) := fun s =>
  match x s with
  | .ok a s => .ok (.ok a) s
  | .error e s => .ok (.error e) s

def ofExcept : Except Error α → EStateM Error σ α
  | .ok a => pure a
  | .error e => throw e

end Error

end OrphanFiles
