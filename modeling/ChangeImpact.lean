import ChangeImpact.Main
import ChangeImpact.Record.Decode
import ChangeImpact.Proofs.Distinct
import ChangeImpact.Proofs.ReverseMap
import ChangeImpact.Proofs.Impact
import ChangeImpact.Proofs.ImportScan
import ChangeImpact.Proofs.Breaking
import ChangeImpact.Proofs.ScannedAnalysis
import ChangeImpact.Proofs.Utf8
import ChangeImpact.Proofs.Scanning
import ChangeImpact.Proofs.PrintedOutput
import ChangeImpact.Proofs.PrintedPath
import ChangeImpact.Proofs.PrintedDiff
import ChangeImpact.Proofs.DiffListing
import ChangeImpact.Proofs.Declaration
import ChangeImpact.Proofs.HeaderScan
import ChangeImpact.Proofs.RecordedSignature
import ChangeImpact.Proofs.ModuleText
import ChangeImpact.Proofs.DeclarationScan
import ChangeImpact.Proofs.DeclarationPasses
import ChangeImpact.Proofs.ModuleExports
import ChangeImpact.Proofs.HeaderChange
import ChangeImpact.Proofs.CacheHistory
import ChangeImpact.Proofs.SharedCache
import ChangeImpact.Proofs.ConfigScore
import ChangeImpact.Proofs.NamedDiff
import ChangeImpact.Proofs.StoredMaps
import ChangeImpact.Proofs.QuotedName
import ChangeImpact.Proofs.Outcome
import ChangeImpact.Proofs.AnalysisRun
import ChangeImpact.Proofs.Consumers
import ChangeImpact.Proofs.Commands
import ChangeImpact.Proofs.DeclaredName
import ChangeImpact.Proofs.RemovedExport
import ChangeImpact.Proofs.Rounding
import ChangeImpact.Proofs.RiskBounds
import ChangeImpact.Proofs.PathLength
import ChangeImpact.Proofs.ExpectedTests
import ChangeImpact.Proofs.CompletedAnalysis
import ChangeImpact.Proofs.RiskOrder
import ChangeImpact.Proofs.SkippedParts
import ChangeImpact.Proofs.AnnotatedVariable
import ChangeImpact.Proofs.CommentScan
import ChangeImpact.Proofs.Reformatting
import ChangeImpact.Proofs.SymbolDiff
import ChangeImpact.Proofs.PathWalk
import ChangeImpact.Proofs.ImportTarget
import ChangeImpact.Proofs.CollapsedText
import ChangeImpact.Proofs.WrittenSignature
import ChangeImpact.Proofs.SignatureChange
import ChangeImpact.Proofs.ImpactDepth
import ChangeImpact.Proofs.BytewiseName
import ChangeImpact.Proofs.RenameNotation
import ChangeImpact.Proofs.CollectedFiles
import ChangeImpact.Proofs.StaleReferences
import ChangeImpact.Proofs.ReportedLines
import ChangeImpact.Proofs.UpdatedMentions
import ChangeImpact.Proofs.WholeWord
import ChangeImpact.Proofs.FailedReads
import ChangeImpact.Proofs.ReportOrder
import ChangeImpact.Proofs.FileSelection
import ChangeImpact.Proofs.TestPlaces
import ChangeImpact.Proofs.CoverageGaps
import ChangeImpact.Proofs.RiskGrowth
import ChangeImpact.Proofs.WrittenImport
import ChangeImpact.Proofs.RoundedShare
import ChangeImpact.Proofs.JsonText
import ChangeImpact.Proofs.ReportText
import ChangeImpact.Proofs.ConfigText
import ChangeImpact.Proofs.FolderPlaces
import ChangeImpact.Proofs.SavedConfig
import ChangeImpact.Proofs.ImportHistory
import ChangeImpact.Proofs.FoundLines
import ChangeImpact.Proofs.GraphText
