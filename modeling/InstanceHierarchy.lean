import InstanceHierarchy.Batch.Pool
import InstanceHierarchy.Batch.Scheduler
import InstanceHierarchy.Batch.Timeline
import InstanceHierarchy.Build
import InstanceHierarchy.CommandLine
import InstanceHierarchy.Context
import InstanceHierarchy.Demo
import InstanceHierarchy.Graph.Ancestry
import InstanceHierarchy.Graph.Answer
import InstanceHierarchy.Graph.Basic
import InstanceHierarchy.Graph.Mutate
import InstanceHierarchy.Json.Basic
import InstanceHierarchy.Json.Printer
import InstanceHierarchy.Json.Reader
import InstanceHierarchy.Json.Shape
import InstanceHierarchy.MachineNumber
import InstanceHierarchy.Main
import InstanceHierarchy.Operation
import InstanceHierarchy.Proofs.Additions
import InstanceHierarchy.Proofs.ArrivingData
import InstanceHierarchy.Proofs.Assurance
import InstanceHierarchy.Proofs.Attempts
import InstanceHierarchy.Proofs.BatchOrder
import InstanceHierarchy.Proofs.BatchedItems
import InstanceHierarchy.Proofs.Blanking
import InstanceHierarchy.Proofs.Building
import InstanceHierarchy.Proofs.Bulk
import InstanceHierarchy.Proofs.BulkOutcome
import InstanceHierarchy.Proofs.BulkRestart
import InstanceHierarchy.Proofs.BulkSteps
import InstanceHierarchy.Proofs.CallTrail
import InstanceHierarchy.Proofs.Changes
import InstanceHierarchy.Proofs.Children
import InstanceHierarchy.Proofs.Cloning
import InstanceHierarchy.Proofs.CodeLists
import InstanceHierarchy.Proofs.Confinement
import InstanceHierarchy.Proofs.CopiedPlaces
import InstanceHierarchy.Proofs.Coverage
import InstanceHierarchy.Proofs.Deadlines
import InstanceHierarchy.Proofs.Distance
import InstanceHierarchy.Proofs.Effects
import InstanceHierarchy.Proofs.Execution
import InstanceHierarchy.Proofs.Growth
import InstanceHierarchy.Proofs.HierarchyDrafts
import InstanceHierarchy.Proofs.IdBuildCalls
import InstanceHierarchy.Proofs.IdBuildDisturbance
import InstanceHierarchy.Proofs.IdBuildMilestones
import InstanceHierarchy.Proofs.IdBuildOutcome
import InstanceHierarchy.Proofs.IdBuildPhases
import InstanceHierarchy.Proofs.IdBuildRestart
import InstanceHierarchy.Proofs.IdBuildSite
import InstanceHierarchy.Proofs.IdBuildUnderway
import InstanceHierarchy.Proofs.IdBuilds
import InstanceHierarchy.Proofs.Integrity
import InstanceHierarchy.Proofs.Lateness
import InstanceHierarchy.Proofs.Listing
import InstanceHierarchy.Proofs.Marking
import InstanceHierarchy.Proofs.Merging
import InstanceHierarchy.Proofs.Mirroring
import InstanceHierarchy.Proofs.Misfits
import InstanceHierarchy.Proofs.Namesakes
import InstanceHierarchy.Proofs.NewClones
import InstanceHierarchy.Proofs.Obeying
import InstanceHierarchy.Proofs.Observations
import InstanceHierarchy.Proofs.Outline
import InstanceHierarchy.Proofs.ParentEdges
import InstanceHierarchy.Proofs.Picture
import InstanceHierarchy.Proofs.Placing
import InstanceHierarchy.Proofs.PoolExecution
import InstanceHierarchy.Proofs.Pruning
import InstanceHierarchy.Proofs.Reachability
import InstanceHierarchy.Proofs.Reading
import InstanceHierarchy.Proofs.Rebuilding
import InstanceHierarchy.Proofs.RecordFormats
import InstanceHierarchy.Proofs.RecordingStore
import InstanceHierarchy.Proofs.Remnants
import InstanceHierarchy.Proofs.Renaming
import InstanceHierarchy.Proofs.Repetition
import InstanceHierarchy.Proofs.ResolverExactness
import InstanceHierarchy.Proofs.Roots
import InstanceHierarchy.Proofs.RoundTrips
import InstanceHierarchy.Proofs.SearchLoop
import InstanceHierarchy.Proofs.SharedIdBuilds
import InstanceHierarchy.Proofs.SourceLookup
import InstanceHierarchy.Proofs.Strictness
import InstanceHierarchy.Proofs.Surroundings
import InstanceHierarchy.Proofs.Survivors
import InstanceHierarchy.Proofs.Tables
import InstanceHierarchy.Proofs.TargetHierarchy
import InstanceHierarchy.Proofs.Templates
import InstanceHierarchy.Proofs.TrailPicture
import InstanceHierarchy.Proofs.TroubledBuilds
import InstanceHierarchy.Proofs.TroubledStores
import InstanceHierarchy.Proofs.Turns
import InstanceHierarchy.Proofs.Unquoting
import InstanceHierarchy.Proofs.Views
import InstanceHierarchy.Proofs.Workers
import InstanceHierarchy.Record.Code
import InstanceHierarchy.Record.Hierarchy
import InstanceHierarchy.Record.Node
import InstanceHierarchy.Retry.Policy
import InstanceHierarchy.Retry.Rehearsal
import InstanceHierarchy.Settings.Basic
import InstanceHierarchy.Settings.Environment
import InstanceHierarchy.Settings.Error
import InstanceHierarchy.Settings.Layer
import InstanceHierarchy.Settings.Load
import InstanceHierarchy.Settings.Path
import InstanceHierarchy.Settings.VariableFile
import InstanceHierarchy.Statement.Basic
import InstanceHierarchy.Statement.Cypher
import InstanceHierarchy.Statement.Fragment
import InstanceHierarchy.Statement.Gremlin
import InstanceHierarchy.Store.Backend
import InstanceHierarchy.Store.Batches
import InstanceHierarchy.Store.Method
import InstanceHierarchy.Store.Program
import InstanceHierarchy.Store.Reader
import InstanceHierarchy.Store.Script
import InstanceHierarchy.StoreError
import InstanceHierarchy.Table
import InstanceHierarchy.Text.Basic
import InstanceHierarchy.Text.Case
import InstanceHierarchy.Text.Number
import InstanceHierarchy.Text.Shown
