import OrphanFiles.Volume

/-!
Access to what was opened in a volume, at positions of the caller's choice.  Positions have 63 bits, and a file has
less than 16 TiB; what lies outside of these is refused.  The log needs none of this, because its positions are
those of records that are in its file.
-/
namespace OrphanFiles.Volume

def positionEnd : Nat := 0x8000000000000000

/-- The greatest size of a file; blocks of 4 KiB have numbers of 32 bits, and the last number is no block's. -/
def maxFileSize : Nat := 0xFFFFFFFF000

def directorySize : Nat := 4096

def checkRange (off n : Nat) : Except Error Unit :=
  if positionEnd ≤ off + n then .error (.io .badPosition) else .ok ()

def readRange (entry : Entry) (off n : Nat) : EStateM Error Volume ByteArray := do
  if n = 0 then return .empty
  Error.ofExcept (checkRange off n)
  match entry with
  | .directory => throw (.path .isDirectory)
  | .file id => onFile id (FileM.readAt off n)

def writeRange (id off : Nat) (src : ByteArray) : EStateM Error Volume Unit := do
  if src.size = 0 then return
  Error.ofExcept (checkRange off src.size)
  onFile id (FileM.writeAt off (src.extract 0 (maxFileSize - off)))
  if maxFileSize < off + src.size then throw (.io .tooLarge)

def setSize (id n : Nat) : EStateM Error Volume Unit := do
  if positionEnd ≤ n then throw (.io .badSize)
  if maxFileSize < n then throw (.io .tooLarge)
  onFile id (FileM.truncate n)

def syncedSize : Entry → EStateM Error Volume Nat
  | .directory => pure directorySize
  | .file id => onFile id (do FileM.sync; FileM.len)

end OrphanFiles.Volume
