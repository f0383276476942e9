import OrphanFiles.CommandLine

/-!
The program on the files of the machine: what the arguments name is read into a volume, the command runs there,
and what it changed is done to the files.
-/
namespace OrphanFiles.CommandLine

/-- Adds a path of the machine to a volume, and what lies up to `depth` levels below it; the files are read only
with `contents`.  What cannot be read is taken to be missing. -/
def load (contents : Bool) (depth : Nat) (path : String) (v : Volume) : IO Volume := do
  try
    let real ← IO.FS.realPath path
    if ← real.isDir then
      let (_, v) := v.createDirectories path
      match depth with
      | 0 => pure v
      | depth + 1 =>
        (← real.readDir).foldlM (fun v e => load contents depth (DataDir.join path e.fileName) v) v
    else
      let bytes ← if contents then IO.FS.readBinFile path else pure .empty
      pure (v.write path bytes).2
  catch _ => pure v

def loadFor : Command → IO Volume
  | .inspect log => load true 0 log {}
  | .recover log options config => do
    let v ← load false 3 options.dataDir {}
    let v ← config.elim (pure v) (load true 0 · v)
    load true 0 log v

/-- Removes the files that lost their names, and cuts the log to what is left of it. -/
def store (before after : Volume) : IO Unit := do
  for (place, entry) in before.names do
    if let .file id := entry then
      let text := "/".intercalate place.toList
      if after.lookup place = none then IO.FS.removeFile text
      else
        let content := (after.file id).content
        if content.bytes != (before.file id).content.bytes then IO.FS.writeBinFile text content.bytes

end OrphanFiles.CommandLine

open OrphanFiles CommandLine in
def main (args : List String) : IO UInt32 := do
  let before ← match request? none false args with
    | none => IO.eprint usage; pure {}
    | some .version => pure {}
    | some (.perform _ command) => loadFor command
  let (outcome, after) := run args before
  store before after
  IO.print outcome.stdout
  if let some e := outcome.failure then IO.eprintln ("error: " ++ e.message)
  return UInt32.ofNat outcome.code
