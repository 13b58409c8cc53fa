import RegexMachine.Assembler
import RegexMachine.Assembly
import RegexMachine.Captures
import RegexMachine.Program.Listing
import RegexMachine.Trace
import RegexMachine.Proofs.Encoding
import RegexMachine.Proofs.Layout
import RegexMachine.Proofs.Acceptance
import RegexMachine.Proofs.ControlFlow
import RegexMachine.Proofs.FrameStack
import RegexMachine.Proofs.MemoryInvariant
import RegexMachine.Proofs.Safety
import RegexMachine.Proofs.OrderedChoice
import RegexMachine.Proofs.FilterCover
import RegexMachine.Proofs.LeadingFilter
import RegexMachine.Proofs.FilteredSearch
import RegexMachine.Proofs.Inversion
import RegexMachine.Proofs.LeftmostSearch
import RegexMachine.Proofs.StateInvariant
import RegexMachine.Proofs.CaptureBounds
import RegexMachine.Proofs.Assembling
import RegexMachine.Proofs.Lookaround
import RegexMachine.Proofs.LookaroundIsolation
import RegexMachine.Proofs.StackCeiling
import RegexMachine.Proofs.WiderFrames
import RegexMachine.Proofs.WiderPrograms
import RegexMachine.Proofs.Paths
import RegexMachine.Proofs.UnsetGroups
import RegexMachine.Proofs.ControlCycles
import RegexMachine.Proofs.Termination
import RegexMachine.Proofs.EncodingPrefixes
import RegexMachine.Proofs.SubjectUnits
import RegexMachine.Proofs.AbandonedChoice
import RegexMachine.Proofs.Finishing
import RegexMachine.Proofs.LiteralPieces
import RegexMachine.Proofs.SplitLiterals
import RegexMachine.Proofs.CountedLoops
import RegexMachine.Proofs.FinishErrors
import RegexMachine.Proofs.WrittenBytes
import RegexMachine.Proofs.AssembledPrograms
import RegexMachine.Proofs.RangeTables
import RegexMachine.Proofs.TightestFilters
import RegexMachine.Proofs.CaptureWalks
import RegexMachine.Proofs.SavedStates
import RegexMachine.Proofs.ResumeOffsets
import RegexMachine.Proofs.WrittenBytes
