import SolidityServer.Completion
import SolidityServer.Json.Writer
import SolidityServer.Log.Format
import SolidityServer.Proofs.Addresses
import SolidityServer.Proofs.ByteOffsets
import SolidityServer.Proofs.Comments
import SolidityServer.Proofs.ConcurrentLoads
import SolidityServer.Proofs.Debounce
import SolidityServer.Proofs.DefinitionFailures
import SolidityServer.Proofs.DefinitionTargets
import SolidityServer.Proofs.DistinctPlaces
import SolidityServer.Proofs.ErrorMarks
import SolidityServer.Proofs.ErrorRecovery
import SolidityServer.Proofs.ImportLinks
import SolidityServer.Proofs.ImportOrigins
import SolidityServer.Proofs.Intervals
import SolidityServer.Proofs.LineNumbers
import SolidityServer.Proofs.LinterFailures
import SolidityServer.Proofs.LosslessConversion
import SolidityServer.Proofs.MemberScans
import SolidityServer.Proofs.Navigation
import SolidityServer.Proofs.NormalPaths
import SolidityServer.Proofs.OffsetRoundTrip
import SolidityServer.Proofs.OneModulePerFile
import SolidityServer.Proofs.ScopedTypes
import SolidityServer.Proofs.SoliumFormat
import SolidityServer.Proofs.SupersededRuns
import SolidityServer.Proofs.TwinRuns
import SolidityServer.Proofs.UnsavedContent
import SolidityServer.Proofs.ArrayTypes
import SolidityServer.Proofs.GroupedFindings
import SolidityServer.Proofs.SearchGuard
import SolidityServer.Proofs.SourceOrder
