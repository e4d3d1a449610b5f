import ChangeImpact.Export.Diff
import ChangeImpact.Json.Printer
import ChangeImpact.Report.Summary

/-!
# Records as JSON

Every record as a JSON object with all of its fields in a fixed order; a missing value is null. One
record is reported with all characters as they are, a list of records with ASCII escapes. The writer
of lists refuses integers of too many digits.
-/

namespace ChangeImpact

/-- A record's JSON object. -/
class Encode (α : Type) where
  encode : α → Json

export Encode (encode)

namespace Encode

/-- A list of records. -/
def list {α : Type} [Encode α] (items : List α) : Json := .list (items.map encode)

/-- A number. -/
def real (x : Binary64) : Json := .real (.finite x)

/-- A natural number. -/
def nat (n : Nat) : Json := .int n

end Encode

open Encode (list real nat)

instance : Encode ChangedFile where
  encode f := .object [
    ("path", .string f.path), ("status", .string f.status.name),
    ("oldPath", Json.textOrNull f.oldPath), ("additions", nat f.additions),
    ("deletions", nat f.deletions), ("language", .string f.language),
    ("category", .string f.category.name)]

instance : Encode ExportedSymbol where
  encode s := .object [
    ("name", .string s.name), ("kind", .string s.kind.name),
    ("signature", Json.textOrNull s.signature), ("isDefault", .bool s.isDefault)]

instance : Encode FileExports where
  encode e := .object [("filePath", .string e.filePath), ("symbols", list e.symbols)]

instance : Encode BreakingChange where
  encode c := .object [
    ("filePath", .string c.filePath), ("type", .string c.kind.name),
    ("symbolName", .string c.symbolName), ("before", .string c.before),
    ("after", Json.textOrNull c.after), ("severity", .string c.severity.name),
    ("consumers", Json.texts c.consumers)]

instance : Encode CoverageGap where
  encode g := .object [
    ("sourceFile", .string g.sourceFile), ("expectedTestFiles", Json.texts g.expectedTests),
    ("testFileExists", .bool g.testExists), ("testFileChanged", .bool g.testChanged)]

instance : Encode CoverageReport where
  encode r := .object [
    ("changedSourceFiles", nat r.changedSources),
    ("sourceFilesWithTestChanges", nat r.coveredSources),
    ("coverageRatio", real r.ratio), ("gaps", list r.gaps)]

instance : Encode StaleReference where
  encode r := .object [
    ("docFile", .string r.docFile), ("line", nat r.line), ("reference", .string r.reference),
    ("reason", .string r.reason)]

instance : Encode StalenessReport where
  encode r := .object [
    ("staleReferences", list r.references), ("checkedFiles", Json.texts r.checkedFiles)]

instance : Encode ImpactEdge where
  encode e := .object [
    ("from", .string e.source), ("to", .string e.target),
    ("type", .string ImpactEdge.relation)]

instance : Encode ImpactGraph where
  encode g := .object [
    ("directlyChanged", Json.texts g.directlyChanged),
    ("indirectlyAffected", Json.texts g.indirectlyAffected), ("edges", list g.edges)]

instance : Encode RiskFactor where
  encode f := .object [
    ("name", .string f.name), ("score", real f.score), ("weight", real f.weight),
    ("description", .string f.description),
    ("details", match f.details with
      | some details => Json.texts details
      | none => .null)]

instance : Encode RiskAssessment where
  encode r := .object [
    ("score", nat r.score), ("level", .string r.level.name), ("factors", list r.factors)]

instance : Encode Analysis where
  encode a := .object [
    ("repoPath", .string a.repoPath), ("baseBranch", .string a.baseBranch),
    ("headBranch", .string a.headBranch), ("changedFiles", list a.changedFiles),
    ("breakingChanges", list a.breakingChanges), ("testCoverage", encode a.testCoverage),
    ("docStaleness", encode a.docStaleness), ("impactGraph", encode a.impactGraph),
    ("riskScore", encode a.riskScore), ("summary", .string a.summary)]

/-- The report on one record. -/
def recordReport {α : Type} [Encode α] (value : α) : String := Json.write .record (encode value)

/-- The report on a list of records, unless one of their integers has more digits than `limit`. -/
def listReportWithin (limit : Option Nat) {α : Type} [Encode α] (values : List α) : Option String :=
  Json.writeWithin limit .ascii (Encode.list values)

/-- The report on a list of records, with the usual limit for integers. -/
def listReport {α : Type} [Encode α] (values : List α) : Option String :=
  listReportWithin (some Text.maxIntegerDigits) values

end ChangeImpact
