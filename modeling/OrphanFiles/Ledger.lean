import OrphanFiles.Completion
import OrphanFiles.XidMap

/-!
What is known of the outcome of transactions.  A ledger has a horizon, below which outcomes are no longer
known reliably; a transaction of which nothing was recorded is in progress.
-/
namespace OrphanFiles

inductive TxStatus where
  | inProgress
  | committed
  | aborted
  | subCommitted
  deriving DecidableEq, Repr

def TxStatus.name : TxStatus → String
  | .inProgress => "in_progress"
  | .committed => "committed"
  | .aborted => "aborted"
  | .subCommitted => "sub_committed"

class StatusSource (τ : Type) where
  oldest : τ → Xid
  statusOf : τ → Xid → TxStatus
  complete : τ → Completion → TxStatus → τ

structure Ledger where
  statuses : XidMap TxStatus := .empty
  oldest : Xid := .firstNormal

namespace Ledger

def statusOf (l : Ledger) (x : Xid) : TxStatus := (l.statuses.get? x).getD .inProgress

def setStatus (l : Ledger) (x : Xid) (s : TxStatus) : Ledger := { l with statuses := l.statuses.insert x s }

def complete (l : Ledger) (c : Completion) (s : TxStatus) : Ledger := c.tree.foldl (·.setStatus · s) l

instance : StatusSource Ledger := ⟨oldest, statusOf, complete⟩

end Ledger

structure ReadOnly (τ : Type) where
  source : τ

instance {τ : Type} [StatusSource τ] : StatusSource (ReadOnly τ) where
  oldest s := StatusSource.oldest s.source
  statusOf s := StatusSource.statusOf s.source
  complete s _ _ := s

end OrphanFiles
