import ChangeImpact.Change.Classify
import ChangeImpact.Change.Rename
import ChangeImpact.Failure

/-!
# Listing changed files

The diff summary between two refs becomes a list of changed files, in the order of its count lines.
The status of a file is what the summary lines say of its printed path; a file in rename notation of
which they say nothing was renamed, and any other was modified.
-/

namespace ChangeImpact

/-- What the summary lines say of a printed path. -/
def DiffSummary.status (summary : DiffSummary) (printed : String) : FileStatus :=
  if summary.created.contains printed then .added
  else if summary.deleted.contains printed then .deleted
  else if summary.renamed.contains printed then .renamed
  else if summary.copied.contains printed then .copied
  else .modified

/-- A line count of a changed file, which cannot be negative. -/
def lineCount (name : String) (n : Int) : Validated Nat :=
  if n < 0 then .invalid [⟨[.field name], .tooSmall⟩] else .valid n.toNat

/-- The changed file of a count line. -/
def DiffSummary.changedFile (summary : DiffSummary) (entry : FileCount) :
    Except Failure ChangedFile := do
  let some renamed := RenamedPath.ofPrinted entry.file | .error .badNumber
  let said := summary.status entry.file
  let status :=
    if said = .modified && renamed.oldPath.any (fun old => !old.isEmpty) then .renamed else said
  let counts : Validated (Nat × Nat) :=
    ((lineCount "additions" entry.insertions).map Prod.mk).apply
      (lineCount "deletions" entry.deletions)
  match counts with
  | .invalid violations => .error (.invalid violations)
  | .valid (additions, deletions) =>
    return {
      path := renamed.path
      status := status
      oldPath := renamed.oldPath
      additions := additions
      deletions := deletions
      language := detectLanguage renamed.path
      category := categorize renamed.path }

/-- The changed files of a diff summary. -/
def DiffSummary.changedFiles (summary : DiffSummary) : Except Failure (List ChangedFile) :=
  summary.files.mapM summary.changedFile

namespace Git.Repository

/-- The diff summary between two refs. -/
def diffSummary (repo : Repository) (base head : String) : Except Failure DiffSummary := do
  let text ← ofGit (repo.output (.changes base head))
  (DiffSummary.ofOutput text).mapError DiffSummary.Fault.failure

/-- The files that changed between two refs. -/
def changedFiles (repo : Repository) (base head : String) : Except Failure (List ChangedFile) := do
  (← repo.diffSummary base head).changedFiles

end Git.Repository

end ChangeImpact
