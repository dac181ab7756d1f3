import IndexFleet.Main
import IndexFleet.CommandLine.Run
import IndexFleet.Peer.Script
import IndexFleet.SyncGroup.Session
import IndexFleet.Proofs.Execution.Barrier
import IndexFleet.Proofs.Bulk.Cut
import IndexFleet.Proofs.Bulk.Distribution
import IndexFleet.Proofs.Bulk.Fallback
import IndexFleet.Proofs.Execution.Course
import IndexFleet.Proofs.Execution.Refinement
import IndexFleet.Proofs.Execution.FirstFailure
import IndexFleet.Proofs.Uniform
import IndexFleet.Proofs.Bulk.Deletion
import IndexFleet.Proofs.Bulk.Composition
import IndexFleet.Proofs.Entity
import IndexFleet.Proofs.Index
import IndexFleet.Proofs.Bulk.Convergence
import IndexFleet.Proofs.Execution.Determinacy
import IndexFleet.Proofs.SyncGroup.Slot
import IndexFleet.Proofs.Runner.Drain
import IndexFleet.Proofs.Topology
import IndexFleet.Proofs.Lifecycle
import IndexFleet.Proofs.Mistakes
import IndexFleet.Proofs.Selection
import IndexFleet.Proofs.Target.Resolution
import IndexFleet.Proofs.Upload.Degradation
import IndexFleet.Proofs.Topology.Settings
import IndexFleet.Proofs.Source.Reader
import IndexFleet.Proofs.Inspection
import IndexFleet.Proofs.Source.Decoding
import IndexFleet.Proofs.Execution.Log
import IndexFleet.Proofs.Bulk.Submission
import IndexFleet.Proofs.Wire
import IndexFleet.Proofs.Source.Resplitting
import IndexFleet.Proofs.FileTree.Listing
import IndexFleet.Proofs.StreamFile
