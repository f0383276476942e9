import OrphanFiles.Error

/-!
The settings: whether pending files are tracked, and how much room is set aside for them.
-/
namespace OrphanFiles

structure Config where
  track : Bool := true
  bootstrap : Bool := false
  maxBackends : Nat := 128
  poolNodes : Nat := 8192
  initialEntries : Nat := 32
  deriving DecidableEq, Repr

namespace Config

def disabled : Config := { track := false }

def compact (maxBackends poolNodes : Nat) : Config := { maxBackends, poolNodes }

def enabled (c : Config) : Bool := c.track && !c.bootstrap

def validate (c : Config) : Except ConfigFault Unit :=
  if c.maxBackends = 0 then .error .noBackends
  else if c.maxBackends > 0xFFFFFFFF then .error .tooManyBackends
  else if c.poolNodes = 0 then .error .noNodes
  else if c.poolNodes ≥ 0xFFFFFFFF then .error .tooManyNodes
  else if c.initialEntries = 0 then .error .noInitialEntries
  else .ok ()

theorem validateOk {c : Config} : c.validate = .ok () ↔
    0 < c.maxBackends ∧ c.maxBackends ≤ 0xFFFFFFFF ∧ 0 < c.poolNodes ∧ c.poolNodes < 0xFFFFFFFF ∧
      0 < c.initialEntries := by
  unfold validate; grind

def maxSize : Nat := 0xFFFFFFFFFFFFFFFF

def saturate (n : Nat) : Nat := min n maxSize

/-- Bytes to set aside at startup: a list head for each backend, the pool's nodes with their places on the
free list, and the pool's own head. -/
def startupBytes (c : Config) : Nat :=
  if c.track then
    saturate (saturate (c.maxBackends * 16) + saturate (saturate (c.poolNodes * (48 + 4)) + 56))
  else 0

end Config
end OrphanFiles
