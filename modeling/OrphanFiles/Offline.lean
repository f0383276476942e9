import OrphanFiles.DataDir
import OrphanFiles.Recovery

/-!
Recovery of a data directory by hand, from a log file and what is known of outcomes apart from it.
-/
namespace OrphanFiles

structure Offline where
  dataDir : String
  oldest : Xid := .firstNormal
  committed : List Xid := []
  aborted : List Xid := []
  config : Config := {}

namespace Offline

/-- The outcomes that are known beforehand; a transaction named as both is aborted. -/
def ledger (o : Offline) : Ledger :=
  let l : Ledger := { oldest := o.oldest }
  o.aborted.foldl (·.setStatus · .aborted) (o.committed.foldl (·.setStatus · .committed) l)

def openLog (logPath : String) : EStateM Error Volume OpenLog := do
  let probe ← Error.ofExcept (((← get).openExisting logPath).mapError .path)
  let header := (← Volume.onFile probe Log.Reader.ofFile).header
  let (id, v) ← Error.ofExcept (((← get).openOrCreate logPath).mapError .path)
  set v
  let log ← Volume.onFile id (Log.load header.salt header.start)
  pure { device := ⟨(← get).file id, []⟩, log }

def recover (o : Offline) (logPath : String) : EStateM Error Volume RecoveryReport := do
  if !(← get).isPresent logPath then throw (.missingLog logPath)
  if !(← get).isDirectory o.dataDir then throw (.missingDataDir o.dataDir)
  Error.ofExcept (o.config.validate.mapError .config)
  let log ← openLog logPath
  let site : Site Ledger DataDir := ⟨log, o.ledger, ⟨o.dataDir, ← get⟩⟩
  match Site.recover o.config site with
  | .ok report site => set site.files.volume; pure report
  | .error e site => set site.files.volume; throw e

end Offline
end OrphanFiles
