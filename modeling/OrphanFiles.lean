import OrphanFiles.BigEndian
import OrphanFiles.Checkpoint
import OrphanFiles.CommandLine
import OrphanFiles.Completion
import OrphanFiles.Config
import OrphanFiles.Config.Document
import OrphanFiles.Content
import OrphanFiles.Crc32
import OrphanFiles.DataDir
import OrphanFiles.Device
import OrphanFiles.DropJournal
import OrphanFiles.Error
import OrphanFiles.Inspection
import OrphanFiles.JsonValue
import OrphanFiles.Ledger
import OrphanFiles.Log
import OrphanFiles.Log.Frame
import OrphanFiles.Log.Header
import OrphanFiles.Log.Kind
import OrphanFiles.Log.Reader
import OrphanFiles.Log.Sealed
import OrphanFiles.Main
import OrphanFiles.MemoryLog
import OrphanFiles.Offline
import OrphanFiles.Pool
import OrphanFiles.Proofs.Admission
import OrphanFiles.Proofs.Bodies
import OrphanFiles.Proofs.BufferGrowth
import OrphanFiles.Proofs.Bursts
import OrphanFiles.Proofs.Calls
import OrphanFiles.Proofs.Canonical
import OrphanFiles.Proofs.CheckpointCalls
import OrphanFiles.Proofs.CheckpointLimits
import OrphanFiles.Proofs.CheckpointOrder
import OrphanFiles.Proofs.Checksum
import OrphanFiles.Proofs.Clearing
import OrphanFiles.Proofs.Cluster
import OrphanFiles.Proofs.CompletionForm
import OrphanFiles.Proofs.Corruption
import OrphanFiles.Proofs.DropSet
import OrphanFiles.Proofs.Durability
import OrphanFiles.Proofs.FailedRecovery
import OrphanFiles.Proofs.FileAccess
import OrphanFiles.Proofs.FileNames
import OrphanFiles.Proofs.Finalization
import OrphanFiles.Proofs.FlushPosition
import OrphanFiles.Proofs.Frames
import OrphanFiles.Proofs.Grammar
import OrphanFiles.Proofs.Handle
import OrphanFiles.Proofs.Inspection
import OrphanFiles.Proofs.Interleaving
import OrphanFiles.Proofs.InterruptedRemoval
import OrphanFiles.Proofs.LogHistory
import OrphanFiles.Proofs.LogImage
import OrphanFiles.Proofs.MemoryLog
import OrphanFiles.Proofs.OfflineRecovery
import OrphanFiles.Proofs.OpenLog
import OrphanFiles.Proofs.Opening
import OrphanFiles.Proofs.Parsing
import OrphanFiles.Proofs.Paths
import OrphanFiles.Proofs.Pool
import OrphanFiles.Proofs.Purging
import OrphanFiles.Proofs.Readership
import OrphanFiles.Proofs.Reading
import OrphanFiles.Proofs.RedoTable
import OrphanFiles.Proofs.RegistryLists
import OrphanFiles.Proofs.Removal
import OrphanFiles.Proofs.ReplayFold
import OrphanFiles.Proofs.Replayed
import OrphanFiles.Proofs.Rerun
import OrphanFiles.Proofs.Roster
import OrphanFiles.Proofs.Sayings
import OrphanFiles.Proofs.SharedLog
import OrphanFiles.Proofs.Shelf
import OrphanFiles.Proofs.SnapshotBuffer
import OrphanFiles.Proofs.SnapshotForm
import OrphanFiles.Proofs.StartupRoom
import OrphanFiles.Proofs.Synced
import OrphanFiles.Proofs.TableHistory
import OrphanFiles.Proofs.Tally
import OrphanFiles.Proofs.Threads
import OrphanFiles.Proofs.Transcript
import OrphanFiles.Proofs.Unlinking
import OrphanFiles.Proofs.Untracked
import OrphanFiles.Proofs.Words
import OrphanFiles.Proofs.XidOrder
import OrphanFiles.Recovery
import OrphanFiles.RedoTable
import OrphanFiles.Registry
import OrphanFiles.Relation
import OrphanFiles.Report.Json
import OrphanFiles.Report.Text
import OrphanFiles.Snapshot.Body
import OrphanFiles.Snapshot.Buffer
import OrphanFiles.Volume
import OrphanFiles.Volume.Access
import OrphanFiles.Xid
import OrphanFiles.XidMap
