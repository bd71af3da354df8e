import Ripple.Session
import Ripple.Settings.File
import Ripple.Store.Fingerprint
import Ripple.Store.Lookup
import Ripple.Table.Regular
import Ripple.Proofs.Schedule
import Ripple.Proofs.TimeTravel
import Ripple.Proofs.Staleness
import Ripple.Proofs.DerivedData
import Ripple.Proofs.OneRound
import Ripple.Proofs.QueuedRounds
import Ripple.Proofs.RecordedEntries
import Ripple.Proofs.Drafts
import Ripple.Proofs.FailedOperations
import Ripple.Proofs.ParsedStatements
import Ripple.Proofs.WorkingCopies
import Ripple.Proofs.Sequencing
import Ripple.Proofs.CarefulBlocks
import Ripple.Proofs.CompiledBlocks
import Ripple.Proofs.CompiledSessions
import Ripple.Proofs.CursorNotices
import Ripple.Proofs.Bookkeeping
import Ripple.Proofs.DeclarationOrder
import Ripple.Proofs.ExpressionGrammar
import Ripple.Proofs.PrintedPrograms
import Ripple.Proofs.ProducedColumns
import Ripple.Proofs.FingerprintBytes
import Ripple.Proofs.StorageInPlace
import Ripple.Proofs.ComponentOrder
import Ripple.Proofs.EdgeKinds
import Ripple.Proofs.DefinedFormulas
import Ripple.Proofs.Declarations
import Ripple.Proofs.RoundCap
import Ripple.Proofs.WriteOrder
import Ripple.Proofs.ListedCells
import Ripple.Proofs.CellNotices
import Ripple.Proofs.RefusedBatches
import Ripple.Proofs.NameScopes
import Ripple.Proofs.ProgramParts
import Ripple.Proofs.RepeatedDefinitions
import Ripple.Proofs.WholeNumbers
import Ripple.Proofs.FrameDrafts
import Ripple.Proofs.FrameExpressions
import Ripple.Proofs.FrameStatements
import Ripple.Proofs.PositionsInRange
import Ripple.Proofs.WatcherLookup
