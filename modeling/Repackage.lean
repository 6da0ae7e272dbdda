import Repackage.Command.Execute
import Repackage.Main
import Repackage.Token.Cursor
import Repackage.Tree.Memory
import Repackage.Workers
import Repackage.Proofs.Dict
import Repackage.Proofs.Memory
import Repackage.Proofs.Commit
import Repackage.Proofs.Plan
import Repackage.Proofs.Execution
import Repackage.Proofs.Workers
import Repackage.Proofs.SharedTree
import Repackage.Proofs.WorkerSchedules
import Repackage.Proofs.Moves
import Repackage.Proofs.Repetition
import Repackage.Proofs.Safety
import Repackage.Proofs.Healing
import Repackage.Proofs.Reports
import Repackage.Proofs.Schedule
import Repackage.Proofs.Isolation
import Repackage.Proofs.Stopping
import Repackage.Proofs.Completeness
import Repackage.Proofs.Boundaries
import Repackage.Proofs.EditsInTurn
import Repackage.Proofs.Lexing
import Repackage.Proofs.TokenShapes
import Repackage.Proofs.Respelling
import Repackage.Proofs.Representation
import Repackage.Proofs.ImportBlock
import Repackage.Proofs.ImportLines
import Repackage.Proofs.Sites
import Repackage.Proofs.Nesting
import Repackage.Proofs.ImportPlan
import Repackage.Proofs.Table
import Repackage.Proofs.Requalification
import Repackage.Proofs.Slices
import Repackage.Proofs.ImportGroup
import Repackage.Proofs.ImportPlaces
import Repackage.Proofs.ImportAdditions
import Repackage.Proofs.Reconciliation
import Repackage.Proofs.MoveStates
import Repackage.Proofs.NameSearch
import Repackage.Proofs.ImportNames
import Repackage.Proofs.Rescanning
import Repackage.Proofs.Qualification
import Repackage.Proofs.InertText
import Repackage.Proofs.ImportSpecs
import Repackage.Proofs.InventedNames
import Repackage.Proofs.SelectorImports
import Repackage.Proofs.ImportFrame
import Repackage.Proofs.RespelledText
import Repackage.Proofs.QualifiedText
import Repackage.Proofs.SplitLiterals
import Repackage.Proofs.StagedEdits
import Repackage.Proofs.QuotedLiterals
import Repackage.Proofs.SpanTiling
import Repackage.Proofs.ImportComments
import Repackage.Proofs.VeiledSites
import Repackage.Proofs.UnreadText
import Repackage.Proofs.SiteShapes
import Repackage.Proofs.DeclaredNames
import Repackage.Proofs.Acceptance
import Repackage.Proofs.EntryOrder
import Repackage.Proofs.CanonicalPaths
import Repackage.Proofs.TableCoherence
import Repackage.Proofs.TableIndex
import Repackage.Proofs.PlannedImports
import Repackage.Proofs.ClauseNames
import Repackage.Proofs.AlignedSlices
import Repackage.Proofs.AlignedSites
