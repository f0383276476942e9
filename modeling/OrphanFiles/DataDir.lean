import OrphanFiles.RedoTable
import OrphanFiles.Volume

/-!
The files of relations in a data directory.  A relation lies in `tablespace/database/relation`, and a temporary
one in `tablespace/database/t_relation`; what does not fit into that file is in segments, which have the
number of the segment behind the name.
-/
namespace OrphanFiles

structure DataDir where
  root : String
  volume : Volume

namespace DataDir

def join (path component : String) : String :=
  if path = "" || Volume.endsInSlash path then path ++ component else path ++ "/" ++ component

def fileName (f : RelFile) : String :=
  (if f.temporary then "t_" else "") ++ toString f.node.relation.toNat

def relationPath (root : String) (f : RelFile) : String :=
  join (join (join root (toString f.node.tablespace.toNat)) (toString f.node.database.toNat)) (fileName f)

/-- The numbers of segments have no bound here and in `removeSegments`; that a counter of 32 bits comes to its end is
left out. -/
def segmentPath (base : String) (segment : Nat) : String := base ++ "." ++ toString segment

/-- Removes segments from a number on, up to the first that is missing.  With `fuel` for each name of the volume
and one more there is always enough. -/
def removeSegments (base : String) : Nat → Nat → Volume → Except PathFault Unit × Volume
  | 0, _, v => (.ok (), v)
  | fuel + 1, segment, v => match v.remove (segmentPath base segment) with
    | .ok v => removeSegments base fuel (segment + 1) v
    | .error .notFound => (.ok (), v)
    | .error fault => (.error fault, v)

def removeRelation (root : String) (f : RelFile) (v : Volume) : Except PathFault Unit × Volume :=
  let base := relationPath root f
  match v.remove base with
  | .ok v => removeSegments base (v.names.length + 1) 1 v
  | .error .notFound => removeSegments base (v.names.length + 1) 1 v
  | .error fault => (.error fault, v)

def removeAll (root : String) : List RelFile → Volume → Except PathFault Unit × Volume
  | [], v => (.ok (), v)
  | f :: fs, v =>
    let (first, v) := removeRelation root f v
    let (rest, v) := removeAll root fs v
    (first.bind fun _ => rest, v)

/-- Files that are gone already are no failure, in a recovery or outside it. -/
def drop (files : List RelFile) (_redo : Bool) : StateM DataDir (Except Error Unit) := fun d =>
  let (outcome, volume) := removeAll d.root files d.volume
  (outcome.mapError .path, { d with volume })

instance : FileDropper DataDir := ⟨drop⟩

end DataDir
end OrphanFiles
