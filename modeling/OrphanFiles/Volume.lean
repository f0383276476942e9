import OrphanFiles.Device

/-!
A tree of directories and files.  A name leads to a directory or to a numbered file; a file that lost its name
keeps its number, so whoever has it open still has it.
-/
namespace OrphanFiles

inductive Volume.Entry where
  | directory
  | file (id : Nat)
  deriving DecidableEq, Repr

/-- Where something is: the names on the way to it, from the root of the tree on.  Names `..` at the start lead
out of the tree, and an empty name is the root of the machine. -/
abbrev Volume.Place := Array String

structure Volume where
  names : List (Volume.Place × Volume.Entry) := []
  files : Array File := #[]

namespace Volume

def pieces : List Char → List (List Char)
  | [] => [[]]
  | c :: cs =>
    if c = '/' then [] :: pieces cs
    else match pieces cs with
      | [] => [[c]]
      | p :: ps => (c :: p) :: ps

def components (text : String) : List String :=
  let names (ps : List (List Char)) := (ps.filter (· != [])).map String.ofList
  match pieces text.toList with
  | [] :: p :: ps => "" :: names (p :: ps)
  | ps => names ps

def endsInSlash (text : String) : Bool := text.toList.getLast? = some '/'

def maxPathBytes : Nat := 4095
def maxNameBytes : Nat := 255

def checkPath (text : String) : Except PathFault Unit :=
  if text.toList.contains '\x00' then .error .holdsNul
  else if text = "" then .error .notFound
  else if maxPathBytes < text.utf8ByteSize then .error .tooLong
  else .ok ()

/-- What is at a place that was walked to.  The root of the machine and what lies above the root of the tree are
directories in any case. -/
def lookup (v : Volume) (place : Place) : Option Entry :=
  if place = #[""] || place.all (· = "..") then some .directory else v.names.lookup place

def enter (place : Place) (c : String) : Place :=
  if c = "." then place
  else if c = ".." then match place.back? with
    | none | some ".." => place.push c
    | some "" => place
    | some _ => place.pop
  else place.push c

def walk (v : Volume) (place : Place) : List String → Except PathFault Place
  | [] => .ok place
  | c :: cs => match v.lookup place with
    | none => .error .notFound
    | some (.file _) => .error .notDirectory
    | some .directory => if maxNameBytes < c.utf8ByteSize then .error .tooLong else walk v (enter place c) cs

def resolve (v : Volume) (text : String) : Except PathFault Place := do
  checkPath text
  let place ← v.walk #[] (components text)
  match v.lookup place with
  | some (.file _) => if endsInSlash text then throw .notDirectory else pure place
  | _ => pure place

def find? (v : Volume) (text : String) : Option Entry :=
  match v.resolve text with
  | .ok place => v.lookup place
  | .error _ => none

def isPresent (v : Volume) (text : String) : Bool := (v.find? text).isSome
def isDirectory (v : Volume) (text : String) : Bool := v.find? text = some .directory

def openEntry (v : Volume) (text : String) : Except PathFault Entry := do
  match v.lookup (← v.resolve text) with
  | none => throw .notFound
  | some entry => pure entry

def openExisting (v : Volume) (text : String) : Except PathFault Nat := do
  match ← v.openEntry text with
  | .directory => throw .isDirectory
  | .file id => pure id

def insert (v : Volume) (place : Place) (entry : Entry) : Volume := { v with names := (place, entry) :: v.names }

/-- The number of a file, which is made if it is missing.  A path that ends in a slash names no file, whatever
its last component leads to. -/
def openOrCreate (v : Volume) (text : String) : Except PathFault (Nat × Volume) := do
  checkPath text
  let cs := components text
  if endsInSlash text then
    discard (v.walk #[] (cs.dropLast ++ ["."]))
    throw .isDirectory
  let place ← v.walk #[] cs
  match v.lookup place with
  | some .directory => throw .isDirectory
  | some (.file id) => pure (id, v)
  | none => pure (v.files.size, { v.insert place (.file v.files.size) with files := v.files.push .empty })

def remove (v : Volume) (text : String) : Except PathFault Volume := do
  let place ← v.resolve text
  match v.lookup place with
  | none => throw .notFound
  | some .directory => throw .isDirectory
  | some (.file _) => pure { v with names := v.names.filter (·.1 != place) }

def makeDirectory (v : Volume) (text : String) : Except PathFault Volume := do
  checkPath text
  let place ← v.walk #[] (components text)
  match v.lookup place with
  | some _ => throw .exists
  | none => pure (v.insert place .directory)

/-- The pieces of a path without those at its end that name nothing: the empty ones, and `.` unless the path
starts with it.  Here and in `parent` the last piece comes first. -/
def trim : List (List Char) → List (List Char)
  | [] => []
  | p :: ps => if p = [] ∨ p = ['.'] ∧ ps ≠ [] then trim ps else p :: ps

def parent (text : String) : String :=
  "/".intercalate (((trim (trim (pieces text.toList).reverse).tail).reverse).map String.ofList)

def ensureDirectory (v : Volume) (text : String) : Except PathFault Volume :=
  match v.makeDirectory text with
  | .error .exists => if v.isDirectory text then .ok v else .error .exists
  | outcome => outcome

def makeWay (place : Place) : List String → Volume → Except PathFault Unit × Volume
  | [], v => (.ok (), v)
  | c :: cs, v =>
    let next := enter place c
    if maxNameBytes < c.utf8ByteSize then (.error .tooLong, v)
    else match v.lookup next with
      | some .directory => makeWay next cs v
      | some (.file _) => (.error .exists, v)
      | none => makeWay next cs (v.insert next .directory)

def createDirectories (v : Volume) (text : String) : Except PathFault Unit × Volume :=
  if text = "" then (.ok (), v)
  else match v.ensureDirectory text with
    | .ok v => (.ok (), v)
    | .error .notFound => match makeWay #[] (components (parent text)) v with
      | (.ok (), v) => match v.ensureDirectory text with
        | .ok v => (.ok (), v)
        | .error fault => (.error fault, v)
      | failed => failed
    | .error fault => (.error fault, v)

def file (v : Volume) (id : Nat) : File := v.files[id]?.getD .empty

def setFile (v : Volume) (id : Nat) (f : File) : Volume := { v with files := v.files.setIfInBounds id f }

def write (v : Volume) (text : String) (bytes : ByteArray) : Except PathFault Unit × Volume :=
  match v.createDirectories (parent text) with
  | (.ok (), v) => match v.openOrCreate text with
    | .ok (id, v) => (.ok (), v.setFile id { v.file id with content := [.written bytes] })
    | .error fault => (.error fault, v)
  | failed => failed

def list (v : Volume) (text : String) : List String :=
  match v.resolve text with
  | .error _ => []
  | .ok base =>
    let below := v.names.filterMap fun (place, entry) =>
      match place.toList.drop base.size with
      | [] => none
      | c :: cs =>
        if base.isPrefixOf place && c != "" && c != ".." then
          some ("/".intercalate (c :: cs) ++ (if entry = .directory then "/" else ""))
        else none
    below.mergeSort fun a b => a ≤ b

def onFile {α : Type} (id : Nat) (x : FileM α) : EStateM Error Volume α := fun v =>
  match x ⟨v.file id, []⟩ with
  | .ok a d => .ok a (v.setFile id d.file)
  | .error e d => .error e (v.setFile id d.file)

end Volume

end OrphanFiles
