import ChangeImpact.Proofs.Scanning
import ChangeImpact.Risk.Factor

/-!
# Configuration that the score overlooks

Two tables tell configuration apart: the classification goes by the name of a file, and the
tell-tale names of build configuration may stand anywhere in a path. The configuration score asks
the second only about files that the first has found, so a file with a tell-tale name that is
classified otherwise counts for nothing. This is so for every file with one of four beginnings of
names.
-/

namespace ChangeImpact

open Text ChangeImpact.Path

/-! ### Texts in paths -/

namespace Text

/-- Lower case goes letter by letter, but for the two capitals that do not. -/
theorem lowerFrom_append {lead : List Char} (hlead : ∀ c ∈ lead, c ≠ 'Σ' ∧ c ≠ 'İ')
    (before rest : List Char) :
    lowerFrom before (lead ++ rest) =
      lead.map lowerChar ++ lowerFrom (lead.reverse ++ before) rest := by
  induction lead generalizing before with
  | nil => rfl
  | cons c lead ih =>
    rw [List.forall_mem_cons] at hlead
    obtain ⟨⟨hsigma, hdotted⟩, hlead⟩ := hlead
    rw [List.cons_append, lowerFrom, ih hlead]
    simp [hsigma, hdotted]

end Text

/-- The last of some texts ends what they make up together. -/
theorem getLastD_suffix_intercalate (mark : List Char) (parts : List (List Char)) :
    parts.getLastD [] <:+ mark.intercalate parts := by
  induction parts with
  | nil => exact List.suffix_rfl
  | cons part parts ih =>
    cases parts with
    | nil => simp
    | cons next parts =>
      rw [List.intercalate_cons_cons, List.getLastD_cons, List.append_assoc]
      rw [List.getLastD_cons] at ih ⊢
      exact ih.trans ((List.suffix_append _ _).trans (List.suffix_append _ _))

/-- A file name ends its path. -/
theorem fileName_suffix (path : String) : (fileName path).toList <:+ path.toList := by
  have hname : (fileName path).toList = (path.toList.splitOn '/').getLastD [] := by
    rw [fileName, segments]
    cases hparts : path.toList.splitOn '/' using List.reverseRecOn with
    | nil => rfl
    | append_singleton parts last => simp
  have hjoin : ['/'].intercalate (path.toList.splitOn '/') = path.toList :=
    List.intercalate_splitOn '/'
  rw [hname]
  conv_rhs => rw [← hjoin]
  exact getLastD_suffix_intercalate ['/'] _

/-- What a file name starts with also stands in the path as it is written, where folders may be
separated by backslashes. -/
theorem infix_of_startsWith {lead path : String} (hslash : '/' ∉ lead.toList)
    (hlead : startsWith lead (fileName (forwardSlashes path)) = true) :
    lead.toList <:+: path.toList := by
  have hname : lead.toList <+: (fileName (forwardSlashes path)).toList :=
    List.isPrefixOf_iff_prefix.mp hlead
  have hturned := hname.isInfix.trans (fileName_suffix (forwardSlashes path)).isInfix
  rw [forwardSlashes, String.toList_ofList, replaceChar, List.infix_map_iff] at hturned
  obtain ⟨written, hwritten, heq⟩ := hturned
  -- no slash stands in the beginning, so no backslash was turned into one
  have hsame : written.map (fun c => if c = '\\' then '/' else c) = written := by
    refine (List.map_congr_left fun c hc => if_neg ?_).trans written.map_id
    rintro rfl
    exact hslash (heq ▸ List.mem_map_of_mem hc)
  rwa [heq, hsame]

/-! ### Names that are classified otherwise -/

/-- Beginnings of the names of files of build configuration that are not classified as such. -/
def unclassedLeads : List String := ["Jenkinsfile", ".gitlab-ci", "rollup.config", "esbuild.config"]

/-- No name of a configuration file goes on from a beginning in lower case. -/
def IsUnclassed (lead : List Char) : Prop :=
  (∀ known ∈ configFileNames, ¬ lead <+: known.toList) ∧
    ∀ known ∈ configNameLeads, ¬ lead <+: known.toList ∧ ¬ known.toList <+: lead

instance (lead : List Char) : Decidable (IsUnclassed lead) := inferInstanceAs (Decidable (_ ∧ _))

/-- These beginnings hold no slash, are put into lower case letter by letter, and belong to no name
of a configuration file. -/
theorem isUnclassed_of_mem : ∀ lead ∈ unclassedLeads,
    '/' ∉ lead.toList ∧ (∀ c ∈ lead.toList, c ≠ 'Σ' ∧ c ≠ 'İ') ∧
      IsUnclassed (lead.toList.map lowerChar) := by
  decide +kernel

/-- A file name with such a beginning is not classified as configuration by its name. -/
theorem isConfigPath_eq_false {lead path : String}
    (hplain : ∀ c ∈ lead.toList, c ≠ 'Σ' ∧ c ≠ 'İ')
    (hunclassed : IsUnclassed (lead.toList.map lowerChar))
    (hlead : startsWith lead (fileName path) = true)
    (hfolder : startsWith ".github/" path = false) : isConfigPath path = false := by
  obtain ⟨hnames, hleads⟩ := hunclassed
  have hlower : lead.toList.map lowerChar <+: (lowercase (fileName path)).toList := by
    obtain ⟨more, hmore⟩ := List.isPrefixOf_iff_prefix.mp hlead
    rw [lowercase, String.toList_ofList, ← hmore, lower, lowerFrom_append hplain]
    exact List.prefix_append _ _
  have hname : configFileNames.contains (lowercase (fileName path)) = false := by
    rw [List.contains_eq_mem, decide_eq_false_iff_not]
    exact fun hknown => hnames _ hknown hlower
  have hstart : (configNameLeads.any fun known => startsWith known (lowercase (fileName path))) =
      false := by
    rw [List.any_eq_false]
    intro known hknown hstarts
    obtain ⟨hlonger, hshorter⟩ := hleads known hknown
    have hknownPrefix := List.isPrefixOf_iff_prefix.mp hstarts
    exact (List.prefix_or_prefix_of_prefix hlower hknownPrefix).elim hlonger hshorter
  simp only [isConfigPath, hfolder, hname, hstart, Bool.or_false]

/-- Each beginning is a tell-tale name, wherever it stands. -/
theorem isBuildConfig_of_infix {lead path : String} (hmem : lead ∈ unclassedLeads)
    (hstands : lead.toList <:+: path.toList) : isBuildConfig path = true := by
  have hmentions : mentions lead path = true := contains_iff_infix.mpr hstands
  have hfolded : contains (lead.toList.map foldCase) (path.toList.map foldCase) = true :=
    contains_iff_infix.mpr (hstands.map foldCase)
  rw [unclassedLeads, List.mem_cons, List.mem_cons, List.mem_cons, List.mem_singleton] at hmem
  obtain rfl | rfl | rfl | rfl := hmem
  · have hjenkins : mentionsFolded "jenkinsfile" path = true := hfolded
    simp only [isBuildConfig, hjenkins, Bool.or_true, Bool.true_or]
  all_goals simp only [isBuildConfig, hmentions, Bool.or_true, Bool.true_or]

/-! ### The score -/

/-- A path with a tell-tale name of build configuration, of neither a test nor a document. -/
def IsWatched (path : String) : Prop :=
  isBuildConfig path = true ∧ categorize path ≠ .test ∧ categorize path ≠ .doc

instance : DecidablePred IsWatched := fun _ => inferInstanceAs (Decidable (_ ∧ _))

/-- Such a path that is not classified as configuration. -/
def IsOverlooked (path : String) : Prop := IsWatched path ∧ categorize path ≠ .config

/-- The score that changes of some paths call for. -/
def dueConfigScore (paths : List String) : ℕ :=
  if ∃ path ∈ paths, IsWatched path then 100
  else if ∃ path ∈ paths, categorize path = .config then 50
  else 0

/-- A path is overlooked if its file name has one of the four beginnings. -/
theorem isOverlooked_of_lead {lead path : String} (hmem : lead ∈ unclassedLeads)
    (hlead : startsWith lead (fileName (forwardSlashes path)) = true)
    (hfolder : startsWith ".github/" (forwardSlashes path) = false)
    (htest : categorize path ≠ .test) (hdoc : categorize path ≠ .doc) : IsOverlooked path := by
  obtain ⟨hslash, hplain, hunclassed⟩ := isUnclassed_of_mem lead hmem
  have hbuild := isBuildConfig_of_infix hmem (infix_of_startsWith hslash hlead)
  have hconfig := isConfigPath_eq_false hplain hunclassed hlead hfolder
  refine ⟨⟨hbuild, htest, hdoc⟩, ?_⟩
  simp only [categorize, hconfig, Bool.false_eq_true, if_false]
  split_ifs <;> decide

/-- The paths that are classified as configuration. -/
def configAmong (paths : List String) : List String :=
  paths.filter fun path => categorize path = .config

namespace RiskFactor

variable {paths : List String} {changed : List ChangedFile}

/-- The configuration files are those that the classification finds. -/
theorem configPaths_eq (hclass : ∀ file ∈ changed, file.category = categorize file.path) :
    configPaths changed = configAmong (changed.map (·.path)) := by
  have hfilter : changed.filter (·.category = .config) =
      changed.filter fun file => categorize file.path = .config :=
    List.filter_congr fun file hfile => by rw [hclass file hfile]
  rw [configPaths, configAmong, List.filter_map, hfilter]
  exact congrArg _ (List.filter_congr fun file _ => by rw [Function.comp_apply])

/-- The files of configuration are those that are classified as such. -/
theorem mem_configAmong {path : String} :
    path ∈ configAmong paths ↔ path ∈ paths ∧ categorize path = .config := by
  rw [configAmong, List.mem_filter, decide_eq_true_iff]

/-- A tell-tale name counts if it is that of a file classified as configuration. -/
theorem configScore_of_found
    (hfound : ∃ path ∈ paths, isBuildConfig path = true ∧ categorize path = .config) :
    configScore (configAmong paths) = 100 := by
  obtain ⟨path, hmem, hbuild, hconfig⟩ := hfound
  have hpath : path ∈ configAmong paths := mem_configAmong.mpr ⟨hmem, hconfig⟩
  have hempty : ¬ (configAmong paths).isEmpty = true := fun hempty => by
    rw [List.isEmpty_iff.mp hempty] at hpath
    cases hpath
  rw [configScore, if_neg hempty, if_pos (List.any_eq_true.mpr ⟨path, hpath, hbuild⟩)]

/-- Without such a file the score is that of any configuration. -/
theorem configScore_of_not_found
    (hfound : ¬ ∃ path ∈ paths, isBuildConfig path = true ∧ categorize path = .config) :
    configScore (configAmong paths) =
      if ∃ path ∈ paths, categorize path = .config then 50 else 0 := by
  have hany : ¬ (configAmong paths).any isBuildConfig = true := fun hany => by
    obtain ⟨path, hpath, hbuild⟩ := List.any_eq_true.mp hany
    obtain ⟨hmem, hconfig⟩ := mem_configAmong.mp hpath
    exact hfound ⟨path, hmem, hbuild, hconfig⟩
  have hempty : (configAmong paths).isEmpty = true ↔
      ¬ ∃ path ∈ paths, categorize path = .config := by
    rw [List.isEmpty_iff, List.eq_nil_iff_forall_not_mem]
    simp only [mem_configAmong, not_exists]
  rw [configScore, if_neg hany]
  simp only [hempty, ite_not]

/-- The score of configuration is the one that is due exactly if overlooked paths are made up for by
one that is not. -/
theorem configScore_eq_due_iff :
    configScore (configAmong paths) = dueConfigScore paths ↔
      ((∃ path ∈ paths, IsOverlooked path) →
        ∃ path ∈ paths, isBuildConfig path = true ∧ categorize path = .config) := by
  by_cases hfound : ∃ path ∈ paths, isBuildConfig path = true ∧ categorize path = .config
  · obtain ⟨path, hmem, hbuild, hconfig⟩ := id hfound
    have hwatched : IsWatched path := by simp [IsWatched, hbuild, hconfig]
    rw [configScore_of_found hfound, dueConfigScore, if_pos ⟨path, hmem, hwatched⟩]
    exact iff_of_true rfl fun _ => hfound
  rw [configScore_of_not_found hfound, dueConfigScore]
  by_cases hwatched : ∃ path ∈ paths, IsWatched path
  · obtain ⟨path, hmem, hpath⟩ := id hwatched
    have hoverlooked : IsOverlooked path :=
      ⟨hpath, fun hconfig => hfound ⟨path, hmem, hpath.1, hconfig⟩⟩
    rw [if_pos hwatched]
    refine iff_of_false ?_ fun hmade => hfound (hmade ⟨path, hmem, hoverlooked⟩)
    split_ifs <;> decide
  · rw [if_neg hwatched]
    refine iff_of_true rfl ?_
    rintro ⟨path, hmem, hoverlooked⟩
    exact absurd ⟨path, hmem, hoverlooked.1⟩ hwatched

/-- The three scores differ as numbers too. -/
theorem ofRat_inj_of_mem : ∀ a ∈ [0, 50, 100], ∀ b ∈ [0, 50, 100],
    (Binary64.ofRat (a : ℕ) = Binary64.ofRat (b : ℕ) ↔ a = b) := by
  decide +kernel

/-- The score for configuration takes three values. -/
theorem configScore_mem : configScore paths ∈ [0, 50, 100] := by
  rw [configScore]
  split_ifs <;> decide

/-- So does the score that is due. -/
theorem dueConfigScore_mem : dueConfigScore paths ∈ [0, 50, 100] := by
  rw [dueConfigScore]
  split_ifs <;> decide

/-- The factor of classified changes has the score that is due exactly if overlooked paths are made
up for by one that is not, and a file outside the tests, the documents and the folder of the hosting
service is overlooked if its name has one of the four beginnings. -/
theorem configChanges_score_eq_due_iff
    (hclass : ∀ file ∈ changed, file.category = categorize file.path) :
    ((configChanges changed).score = Binary64.ofRat (dueConfigScore (changed.map (·.path))) ↔
      ((∃ file ∈ changed, IsOverlooked file.path) →
        ∃ file ∈ changed, isBuildConfig file.path = true ∧ file.category = .config)) ∧
    ∀ file ∈ changed, file.category ≠ .test → file.category ≠ .doc →
      startsWith ".github/" (forwardSlashes file.path) = false →
      (∃ lead ∈ unclassedLeads, startsWith lead (fileName (forwardSlashes file.path)) = true) →
      IsOverlooked file.path := by
  constructor
  · rw [configChanges, ofRat_inj_of_mem _ configScore_mem _ dueConfigScore_mem,
      configPaths_eq hclass, configScore_eq_due_iff]
    simp only [List.mem_map, exists_exists_and_eq_and]
    refine imp_congr_right fun _ => exists_congr fun file => and_congr_right fun hfile => ?_
    rw [hclass file hfile]
  · intro file hfile htest hdoc hfolder hlead
    obtain ⟨lead, hmem, hstarts⟩ := hlead
    rw [hclass file hfile] at htest hdoc
    exact isOverlooked_of_lead hmem hstarts hfolder htest hdoc

/-- A build pipeline and a container recipe. -/
def pipelineAndRecipe : List ChangedFile :=
  [{ path := "Jenkinsfile", status := .added, category := .other },
    { path := "deploy/Dockerfile", status := .added, category := .config }]

/-- The recipe makes up for the overlooked pipeline. -/
theorem configChanges_score_pipelineAndRecipe :
    (configChanges pipelineAndRecipe).score = Binary64.ofRat (100 : ℕ) ∧
      IsOverlooked "Jenkinsfile" := by
  have hclass : ∀ file ∈ pipelineAndRecipe, file.category = categorize file.path := by
    decide +kernel
  obtain ⟨hscore, hoverlooked⟩ := configChanges_score_eq_due_iff hclass
  constructor
  · have hdue : dueConfigScore (pipelineAndRecipe.map (·.path)) = 100 := by decide +kernel
    have hrecipe : isBuildConfig "deploy/Dockerfile" = true := by decide +kernel
    rw [hdue] at hscore
    exact hscore.mpr fun _ => ⟨_, List.mem_cons_of_mem _ List.mem_cons_self, hrecipe, rfl⟩
  · have hlead : startsWith "Jenkinsfile" (fileName (forwardSlashes "Jenkinsfile")) = true := by
      decide +kernel
    exact hoverlooked _ List.mem_cons_self (by decide) (by decide) (by decide)
      ⟨_, List.mem_cons_self, hlead⟩

/-- A pipeline alone counts for nothing. -/
theorem configChanges_score_pipeline :
    let changed := pipelineAndRecipe.take 1
    (∀ file ∈ changed, file.category = categorize file.path) ∧
      (∃ file ∈ changed, isBuildConfig file.path = true ∧ file.category ≠ .test ∧
        file.category ≠ .doc) ∧
      (configChanges changed).score = 0 ∧ (configChanges changed).score ≠ 100 := by
  decide +kernel

end RiskFactor

end ChangeImpact
