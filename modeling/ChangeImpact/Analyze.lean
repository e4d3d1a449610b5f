import ChangeImpact.Change.Listing
import ChangeImpact.Config.File
import ChangeImpact.Import.Cache
import ChangeImpact.Report.Summary

/-!
# Analyzing a change set

An analysis first makes sure that there is a repository and that both refs name commits, then loads
the configuration and lists the changed files; any of these may fail. Breaking changes, coverage,
stale documentation, impact and risk follow, of which each of the first three may be skipped and
then counts as empty. What git cannot show is left out of them; they fail only where an expected
test cannot be looked up or a number of lines cannot be written.
-/

namespace ChangeImpact

open Git (Repository)

/-- Branches that are compared with by default, best first. -/
def defaultBases : List String := ["main", "master"]

/-- The ref whose changes are analyzed by default. -/
def defaultHead : String := "HEAD"

namespace Git.Repository

/-- The branch that is compared with by default: the first that exists, else the first. -/
def defaultBase (repo : Repository) : Except Failure String := do
  let branches ← ofGit repo.branches
  return (defaultBases.find? branches.contains).getD "main"

/-- A ref that the caller gave, unless it is empty. -/
def given? (ref : Option String) : Option String := ref.filter fun r => !r.isEmpty

/-- The base and head refs of an analysis, both of which name commits. -/
def refs (repo : Repository) (base head : Option String) : Except Failure (String × String) := do
  ofGit (← ofFiles repo.requireWorkTree)
  let base ← match given? base with
    | some ref => pure ref
    | none => repo.defaultBase
  let head := (given? head).getD defaultHead
  let _ ← ofGit (repo.commit base)
  let _ ← ofGit (repo.commit head)
  return (base, head)

end Git.Repository

namespace Analysis

/-- What an analysis works on once the change set is known. -/
structure Input where
  base : String
  head : String
  config : ProjectConfig
  changed : List ChangedFile
  deriving DecidableEq

/-- The input of an analysis; a configuration that the caller gives is used instead of the file. -/
def input (repo : Repository) (base head : Option String) (config : Option ProjectConfig) :
    Except Failure Input := do
  let (base, head) ← repo.refs base head
  let config ← match config with
    | some config => pure config
    | none => ProjectConfig.load repo.root repo.tree
  let changed ← repo.changedFiles base head
  return ⟨base, head, config, changed⟩

/-- The breaking changes, unless they are skipped. -/
def breakingPart (repo : Repository) (options : AnalysisOptions) (input : Input)
    (map : ReverseMap) : List BreakingChange :=
  if options.skipBreaking then []
  else BreakingChange.ofChanges repo input.base input.head input.changed (some map)

/-- The coverage; a skipped one has nothing covered. -/
def coveragePart (repo : Repository) (options : AnalysisOptions) (input : Input) :
    Except FileFault CoverageReport :=
  if options.skipCoverage then .ok { ratio := 0 }
  else CoverageReport.ofChanges repo.root repo.tree input.changed

/-- The stale documentation, unless it is skipped. -/
def stalenessPart (repo : Repository) (options : AnalysisOptions) (input : Input) :
    StalenessReport :=
  if options.skipDocs then {}
  else StalenessReport.ofChanges repo input.changed input.base input.head input.config.scan

/-- The analysis of a known change set, with the reverse dependency maps of the repository that the
breaking changes and the impact are given. -/
def ofInput (repo : Repository) (options : AnalysisOptions) (input : Input)
    (breakingMap impactMap : ReverseMap) : Except Failure Analysis := do
  let breaking := breakingPart repo options input breakingMap
  let coverage ← ofFiles (coveragePart repo options input)
  let staleness := stalenessPart repo options input
  let impact := ImpactGraph.ofChanges impactMap input.changed input.config.maxDepth
  let some risk := RiskAssessment.ofChanges? input.changed breaking coverage staleness impact
    | .error .badNumber
  let some summary := summarize? input.changed breaking coverage risk | .error .badNumber
  return {
    repoPath := options.repoPath
    baseBranch := input.base
    headBranch := input.head
    changedFiles := input.changed
    breakingChanges := breaking
    testCoverage := coverage
    docStaleness := staleness
    impactGraph := impact
    riskScore := risk
    summary := summary }

/-- The maps that the breaking changes and the impact are given, and the cache afterwards. Both ask
the cache, the second before the first is answered; skipped breaking changes do not ask. -/
def maps (repo : Repository) (options : AnalysisOptions) (cache : MapCache) :
    ReverseMap × ReverseMap × MapCache :=
  if options.skipBreaking then
    let (scan, cache) := cache.get repo.tree repo.root
    (scan.map, scan.map, cache)
  else
    let (first, second, cache) := cache.getTwice repo.tree repo.root
    (first.map, second.map, cache)

/-- An analysis with a cache of reverse dependency maps, and the cache afterwards. Without a cache
of the caller's, one with the scan settings of the configuration is used. No cache is asked if
there is no input. -/
def runCached (repo : Repository) (options : AnalysisOptions) (config : Option ProjectConfig)
    (cache : Option MapCache) : Except Failure (Except Failure Analysis × MapCache) := do
  let input ← input repo options.baseBranch options.headBranch config
  let (breakingMap, impactMap, cache) :=
    maps repo options (cache.getD { config := input.config.scan })
  return (ofInput repo options input breakingMap impactMap, cache)

/-- An analysis. -/
def run (repo : Repository) (options : AnalysisOptions) (config : Option ProjectConfig) :
    Except Failure Analysis := do
  (← runCached repo options config none).1

end Analysis

/-- The breaking changes between two refs alone. -/
def findBreaking (repo : Repository) (base head : Option String) :
    Except Failure (List BreakingChange) := do
  let input ← Analysis.input repo base head none
  let (scan, _) := MapCache.get { config := input.config.scan } repo.tree repo.root
  return BreakingChange.ofChanges repo input.base input.head input.changed (some scan.map)

/-- A single file as a change set, whatever its name says. -/
def singleChange (path : String) : List ChangedFile :=
  let path := Path.tidy path
  [{ path := path, status := .modified, language := detectLanguage path, category := .source }]

/-- The impact of a single file, or of the changes since the default base, up to a given depth or
the configured one. -/
def findImpact (repo : Repository) (file : Option String) (depth : Option Nat) :
    Except Failure ImpactGraph := do
  let config ← ProjectConfig.load repo.root repo.tree
  let changed ← match file.filter fun f => !f.isEmpty with
    | some file => pure (singleChange file)
    | none => do
      ofGit (← ofFiles repo.requireWorkTree)
      let base ← repo.defaultBase
      let _ ← ofGit (repo.commit base)
      repo.changedFiles base defaultHead
  let map := ReverseMap.ofDirectory (repo.root.resolved.directory repo.tree) config.scan
  return ImpactGraph.ofChanges map changed (depth.getD config.maxDepth)

end ChangeImpact
