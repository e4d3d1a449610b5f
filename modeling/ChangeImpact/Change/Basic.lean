/-!
# Changed files

What a change set says about one file: its path, how it changed, how many lines came and went, its
language and its role in the repository.
-/

namespace ChangeImpact

/-- How a file changed. -/
inductive FileStatus
  | added
  | modified
  | deleted
  | renamed
  | copied
  deriving DecidableEq, Repr

/-- The status as reports write it. -/
def FileStatus.name : FileStatus → String
  | .added => "added"
  | .modified => "modified"
  | .deleted => "deleted"
  | .renamed => "renamed"
  | .copied => "copied"

/-- All statuses. -/
def FileStatus.all : List FileStatus := [.added, .modified, .deleted, .renamed, .copied]

/-- The role of a file in a repository. -/
inductive FileCategory
  | source
  | test
  | doc
  | config
  | other
  deriving DecidableEq, Repr

/-- The category as reports write it. -/
def FileCategory.name : FileCategory → String
  | .source => "source"
  | .test => "test"
  | .doc => "doc"
  | .config => "config"
  | .other => "other"

/-- All categories. -/
def FileCategory.all : List FileCategory := [.source, .test, .doc, .config, .other]

/-- One file of a change set. -/
structure ChangedFile where
  path : String
  status : FileStatus
  /-- Where a renamed or copied file came from. -/
  oldPath : Option String := none
  additions : Nat := 0
  deletions : Nat := 0
  language : String := "unknown"
  category : FileCategory
  deriving DecidableEq, Repr

/-- The paths of the changed source files, in order. -/
def sourcePaths (changed : List ChangedFile) : List String :=
  (changed.filter (·.category = .source)).map (·.path)

/-- The paths of the changed tests, in order. -/
def testPaths (changed : List ChangedFile) : List String :=
  (changed.filter (·.category = .test)).map (·.path)

end ChangeImpact
