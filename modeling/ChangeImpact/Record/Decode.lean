import ChangeImpact.Record.Validated
import ChangeImpact.Report.Summary

/-!
# Records from JSON

Every record is read from a JSON object whose fields may go by their names in reports or by these
names in words separated by underscores. Fields with a default may be missing.
-/

namespace ChangeImpact

/-- A record that can be read from JSON. -/
class Decode (α : Type) where
  decode : Decoder α

namespace Decode

open Decoder

/-- The decoder of a record. -/
def of (α : Type) [Decode α] : Decoder α := Decode.decode

/-- A list of texts, empty by default. -/
def texts (fields : List (String × Json)) (name other : String) : Validated (List String) :=
  field fields name other (Decoder.list string) (some [])

/-- A list of records, empty by default. -/
def records (α : Type) [Decode α] (fields : List (String × Json)) (name other : String) :
    Validated (List α) :=
  field fields name other (Decoder.list (of α)) (some [])

/-- A text that has to be there. -/
def text (fields : List (String × Json)) (name other : String) : Validated String :=
  field fields name other string none

/-- A text that may be missing. -/
def textIfAny (fields : List (String × Json)) (name other : String) : Validated (Option String) :=
  field fields name other (optional string) (some none)

/-- A count, zero by default. -/
def count (fields : List (String × Json)) (name other : String) : Validated Nat :=
  field fields name other (intFrom 0) (some 0)

/-- A flag, unset by default. -/
def flag (fields : List (String × Json)) (name other : String) : Validated Bool :=
  field fields name other bool (some false)

/-- One of some named values, which has to be there. -/
def oneOf {α : Type} (fields : List (String × Json)) (name other : String) (all : List α)
    (nameOf : α → String) : Validated α :=
  field fields name other (named all nameOf .enum) none

/-- A record, which has to be there. -/
def inner (α : Type) [Decode α] (fields : List (String × Json)) (name other : String) :
    Validated α :=
  field fields name other (of α) none

end Decode

open Decode Decoder

instance : Decode ChangedFile where
  decode := record fun fields =>
    ChangedFile.mk <$> text fields "path" "path"
      <*> Decode.oneOf fields "status" "status" FileStatus.all FileStatus.name
      <*> textIfAny fields "oldPath" "old_path"
      <*> count fields "additions" "additions"
      <*> count fields "deletions" "deletions"
      <*> field fields "language" "language" string (some "unknown")
      <*> Decode.oneOf fields "category" "category" FileCategory.all FileCategory.name

instance : Decode ExportedSymbol where
  decode := record fun fields =>
    ExportedSymbol.mk <$> text fields "name" "name"
      <*> Decode.oneOf fields "kind" "kind" SymbolKind.all SymbolKind.name
      <*> textIfAny fields "signature" "signature"
      <*> flag fields "isDefault" "is_default"

instance : Decode FileExports where
  decode := record fun fields =>
    FileExports.mk <$> text fields "filePath" "file_path"
      <*> records ExportedSymbol fields "symbols" "symbols"

instance : Decode BreakingChange where
  decode := record fun fields =>
    BreakingChange.mk <$> text fields "filePath" "file_path"
      <*> Decode.oneOf fields "type" "type" BreakingKind.all BreakingKind.name
      <*> text fields "symbolName" "symbol_name"
      <*> text fields "before" "before"
      <*> textIfAny fields "after" "after"
      <*> Decode.oneOf fields "severity" "severity" Severity.all Severity.name
      <*> texts fields "consumers" "consumers"

instance : Decode CoverageGap where
  decode := record fun fields =>
    CoverageGap.mk <$> text fields "sourceFile" "source_file"
      <*> texts fields "expectedTestFiles" "expected_test_files"
      <*> flag fields "testFileExists" "test_file_exists"
      <*> flag fields "testFileChanged" "test_file_changed"

instance : Decode CoverageReport where
  decode := record fun fields =>
    CoverageReport.mk <$> count fields "changedSourceFiles" "changed_source_files"
      <*> count fields "sourceFilesWithTestChanges" "source_files_with_test_changes"
      <*> field fields "coverageRatio" "coverage_ratio" (realUpTo 1) (some 1)
      <*> records CoverageGap fields "gaps" "gaps"

instance : Decode StaleReference where
  decode := record fun fields =>
    StaleReference.mk <$> text fields "docFile" "doc_file"
      <*> field fields "line" "line" (intFrom 1) none
      <*> text fields "reference" "reference"
      <*> text fields "reason" "reason"

instance : Decode StalenessReport where
  decode := record fun fields =>
    StalenessReport.mk <$> records StaleReference fields "staleReferences" "stale_references"
      <*> texts fields "checkedFiles" "checked_files"

instance : Decode ImpactEdge where
  decode := record fun fields =>
    (fun source target (_ : String) => ImpactEdge.mk source target)
      <$> text fields "from" "from_"
      <*> text fields "to" "to"
      <*> field fields "type" "type" (named [ImpactEdge.relation] id .literal)
        (some ImpactEdge.relation)

instance : Decode ImpactGraph where
  decode := record fun fields =>
    ImpactGraph.mk <$> texts fields "directlyChanged" "directly_changed"
      <*> texts fields "indirectlyAffected" "indirectly_affected"
      <*> records ImpactEdge fields "edges" "edges"

instance : Decode RiskFactor where
  decode := record fun fields =>
    RiskFactor.mk <$> text fields "name" "name"
      <*> field fields "score" "score" (realUpTo 100) none
      <*> field fields "weight" "weight" (realUpTo 1) none
      <*> text fields "description" "description"
      <*> field fields "details" "details" (optional (Decoder.list string)) (some none)

instance : Decode RiskAssessment where
  decode := record fun fields =>
    RiskAssessment.mk <$> field fields "score" "score" (intUpTo 100) none
      <*> Decode.oneOf fields "level" "level" RiskLevel.all RiskLevel.name
      <*> records RiskFactor fields "factors" "factors"

instance : Decode Analysis where
  decode := record fun fields =>
    Analysis.mk <$> text fields "repoPath" "repo_path"
      <*> text fields "baseBranch" "base_branch"
      <*> text fields "headBranch" "head_branch"
      <*> records ChangedFile fields "changedFiles" "changed_files"
      <*> records BreakingChange fields "breakingChanges" "breaking_changes"
      <*> inner CoverageReport fields "testCoverage" "test_coverage"
      <*> inner StalenessReport fields "docStaleness" "doc_staleness"
      <*> inner ImpactGraph fields "impactGraph" "impact_graph"
      <*> inner RiskAssessment fields "riskScore" "risk_score"
      <*> text fields "summary" "summary"

end ChangeImpact
