import ChangeImpact.Command.Run
import ChangeImpact.Proofs.Consumers

/-!
# Commands and analyses

The commands for breaking changes and for the impact find their results on their own, with a cache
or a scan of their own. Both results are those of an analysis, and the exit status of the first
command is decided by them.
-/

namespace ChangeImpact

namespace Git.Repository

variable {repo : Repository}

/-- Where the check for a work tree goes well, the root is a folder. -/
theorem exists_folder_of_requireWorkTree
    (hcheck : repo.requireWorkTree = .ok (.ok ())) :
    ∃ found, repo.root.locate repo.tree [] = .ok (.folder found) := by
  unfold requireWorkTree isWorkTree Root.isDirectory at hcheck
  cases hroot : repo.root.locate repo.tree [] with
  | error fault =>
    rw [hroot] at hcheck
    cases fault <;> cases hcheck
  | ok entry =>
    rw [hroot] at hcheck
    cases entry with
    | file content => cases hcheck
    | folder found => exact ⟨found, rfl⟩

end Git.Repository

namespace Analysis

variable {repo : Git.Repository} {base head : Option String} {config : Option ProjectConfig}
  {input : Input} {options : AnalysisOptions} {analysis : Analysis}

/-- An input is had only in a folder. -/
theorem exists_folder_of_input (hinput : Analysis.input repo base head config = .ok input) :
    ∃ found, repo.root.locate repo.tree [] = .ok (.folder found) := by
  unfold Analysis.input Git.Repository.refs at hinput
  simp only [bind_eq_ok_iff, ofFiles_eq_ok_iff, ofGit_eq_ok_iff] at hinput
  obtain ⟨refs, ⟨answer, hcheck, ⟨⟩, hanswer, -⟩, -⟩ := hinput
  exact Git.Repository.exists_folder_of_requireWorkTree (hanswer ▸ hcheck)

/-- The breaking changes that are looked for alone are found where there is an input. -/
theorem findBreaking_of_input (hinput : Analysis.input repo base head none = .ok input) :
    findBreaking repo base head =
      .ok (BreakingChange.ofChanges repo input.base input.head input.changed
        (some (scannedMap repo input))) := by
  rw [findBreaking, hinput]
  rfl

/-- So is the impact since the default base, where there is an input for the default refs. -/
theorem findImpact_of_input (hinput : Analysis.input repo none none none = .ok input) :
    findImpact repo none none =
      .ok (.ofChanges (scannedMap repo input) input.changed input.config.maxDepth) := by
  unfold Analysis.input Git.Repository.refs at hinput
  simp only [bind_eq_ok_iff, Git.Repository.given?, Option.filter_none, Option.getD_none] at hinput
  obtain ⟨⟨base, head⟩, ⟨answer, hwork, checked, hchecked, found, hbase, commit, hcommit, -, -,
    hrefs⟩, config, hconfig, changed, hchanged, hresult⟩ := hinput
  cases hrefs
  cases hresult
  unfold findImpact
  simp only [Option.filter_none, bind_eq_ok_iff, Option.getD_none]
  exact ⟨config, hconfig, answer, hwork, checked, hchecked, base, hbase, commit, hcommit, changed,
    hchanged, rfl⟩

/-- An analysis has the breaking changes that are looked for alone. -/
theorem findBreaking_of_run (hrun : run repo options none = .ok analysis)
    (hbreaking : options.skipBreaking = false) :
    findBreaking repo options.baseBranch options.headBranch = .ok analysis.breakingChanges := by
  obtain ⟨input, hinput, hresult⟩ := exists_input_of_run hrun
  obtain ⟨-, -, -, hreported, -, -⟩ := eq_of_ofInput hresult
  rw [findBreaking_of_input hinput, hreported, breakingPart, hbreaking, if_neg Bool.false_ne_true]

/-- An analysis with the default refs has the impact that is looked for alone. -/
theorem findImpact_of_run (hrun : run repo options none = .ok analysis)
    (hbase : options.baseBranch = none) (hhead : options.headBranch = none) :
    findImpact repo none none = .ok analysis.impactGraph := by
  obtain ⟨input, hinput, hresult⟩ := exists_input_of_run hrun
  obtain ⟨-, -, -, -, -, himpact⟩ := eq_of_ofInput hresult
  rw [hbase, hhead] at hinput
  rw [findImpact_of_input hinput, himpact]

end Analysis

namespace Command

variable {w : Workspace} {arguments : List String} {parsed : Parsed} {severity : Severity}
  {format : String} {changes : List BreakingChange}

/-- Arguments that ask for the breaking changes of a severity or worse, in some format. -/
structure IsBreakingCall (arguments : List String) (parsed : Parsed) (severity : Severity)
    (format : String) : Prop where
  parse_eq : ((commands.lookup "breaking").bind fun (specs, _) => parse? specs true {} arguments) =
    some parsed
  no_help : parsed.isSet "--help" = false
  positional_length_le : parsed.positional.length ≤ 2
  severity_eq : choice parsed "--severity" ["low", "medium", "high"] = some severity.name
  format_eq : choice parsed "--format" ["md", "json", "text"] = some format

/-- The name of a command ends the options before it. -/
theorem run_cons {name : String} (hname : looksLikeOption name = false) :
    run w (name :: arguments) = (runCommand w name arguments).getD (w.done 2 "") := by
  have hglobal : parse? globalOptions false {} (name :: arguments) =
      some { positional := name :: arguments } := by
    -- The equation of `parse?` for other arguments asks for this.
    have hdashes : name ≠ "--" := by
      rintro rfl
      exact absurd hname (by decide)
    simp [parse?, hname]
  have hrun : run? w (name :: arguments) = runCommand w name arguments := by
    rw [run?, hglobal]
    rfl
  rw [run, hrun]
  cases runCommand w name arguments <;> rfl

/-- A call for the breaking changes runs their command. -/
theorem run_of_isBreakingCall (hcall : IsBreakingCall arguments parsed severity format) :
    run w ("breaking" :: arguments) =
      w.breaking parsed severity format parsed.positional[0]? parsed.positional[1]? := by
  have hseverity : Severity.all.find? (fun s => s.name == severity.name) = some severity := by
    cases severity <;> decide
  have hcommand : commands.lookup "breaking" = some
      ([{ long := "--severity", takesValue := true }, formatOption, repoOption, helpOption],
        2) := by
    decide
  have hparse := hcall.parse_eq
  rw [hcommand] at hparse
  have hrun : runCommand w "breaking" arguments = some
      (w.breaking parsed severity format parsed.positional[0]? parsed.positional[1]?) := by
    rw [runCommand, hcommand]
    simp only [Option.bind_eq_bind, Option.bind_some] at hparse ⊢
    rw [hparse]
    simp only [Option.bind_some, hcall.no_help]
    rw [if_neg Bool.false_ne_true, if_neg (Nat.not_lt.mpr hcall.positional_length_le), dispatch]
    simp only [hcall.severity_eq, hcall.format_eq, Option.bind_eq_bind, Option.bind_some,
      hseverity]
    rfl
  rw [run_cons (by decide), hrun, Option.getD_some]

/-- The message that nothing was found is shown. -/
theorem exists_success (severity : Severity) : ∃ shown,
    Terminal.success s!"No breaking changes detected at severity >= {severity.name}" =
      .ok shown := by
  have hshown : (Terminal.success
      s!"No breaking changes detected at severity >= {severity.name}").toOption.isSome = true := by
    cases severity <;> decide +kernel
  obtain ⟨shown, hshown⟩ := Option.isSome_iff_exists.mp hshown
  exact ⟨shown, eq_ok_of_toOption hshown⟩

/-- Where a path leads to something, a command goes on with the repository there. -/
theorem Workspace.inRepository_of_located {path : String} {entry : Entry}
    {next : Git.Repository → Except Breakdown Outcome}
    (hroot : (w.root path).locate w.tree [] = .ok entry) :
    w.inRepository path next = next (w.repository (w.root path)) := by
  unfold inRepository
  extract_lets root
  rw [hroot]

/-- The command for the breaking changes ends with the status 1 if one of them is of the severity
or worse, else with 0. -/
theorem exitStatus_breaking {base head : Option String}
    (hfound : findBreaking (w.repository (w.root ((parsed.value? "--repo").getD "."))) base head =
      .ok changes) :
    exitStatus (w.breaking parsed severity format base head) =
      if ∃ change ∈ changes, severity.rank ≤ change.severity.rank then 1 else 0 := by
  obtain ⟨input, hinput, -⟩ := bind_eq_ok_iff.mp hfound
  obtain ⟨folder, hroot⟩ := Analysis.exists_folder_of_input hinput
  unfold Workspace.breaking
  rw [Workspace.inRepository_of_located hroot, hfound, Workspace.report]
  extract_lets found
  by_cases hworse : ∃ change ∈ changes, severity.rank ≤ change.severity.rank
  · have hsome : found.isEmpty = false := by
      simpa [found, Workspace.atLeast] using hworse
    rw [if_pos hworse, hsome, if_neg Bool.false_ne_true]
    split_ifs
    · cases listReport found <;> rfl
    · rfl
    · unfold Workspace.shows
      cases Terminal.breaking found <;> rfl
  · have hnone : found.isEmpty = true := by
      simpa [found, Workspace.atLeast] using hworse
    obtain ⟨shown, hshown⟩ := exists_success severity
    rw [if_neg hworse, hnone, if_pos rfl, Workspace.shows, hshown]
    rfl

/-- A workspace at the top of a file system with the repository whose head drops an export. -/
def narrowedWorkspace : Workspace :=
  ⟨"/", Analysis.narrowedRepository.tree, Analysis.narrowedRepository.git⟩

end Command

end ChangeImpact
