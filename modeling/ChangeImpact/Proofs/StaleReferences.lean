import ChangeImpact.Proofs.CollectedFiles
import ChangeImpact.Staleness.Report

/-!
# Repeated stale references

The stale references of a report tell by their document, line and reason where they come from: a
deleted file, a renamed file, or a removed name of one file. So none is repeated unless one file
takes a name along twice. The exports of a file are named once each, but a deleted file may have an
export with the name of its stem. A report repeats a reference exactly if it mentions such a name.
-/

namespace ChangeImpact

open Text

namespace RemovedName

variable {repo : Git.Repository} {base head : String} {file : ChangedFile}
  {changed : List ChangedFile}

/-- A name that a deleted file takes along twice, as its stem and as an export. -/
def IsDoubled (repo : Git.Repository) (base : String) (file : ChangedFile) (name : String) : Prop :=
  (file.category = .source ∧ file.status = .deleted) ∧ name ∈ stemOf file.path ∧
    name ∈ exportNames ((shown repo base file.path).getD "")

/-- A path has one stem to look for, or none. -/
theorem nodup_stemOf (path : String) : (stemOf path).Nodup := by
  rw [stemOf]
  split_ifs
  · exact List.nodup_nil
  · exact List.nodup_singleton _

/-- The names of the exports of a text are listed once. -/
theorem nodup_exportNames (text : String) : (exportNames text).Nodup := nodup_eraseDups _

/-- Of the names of a deleted file some are repeated exactly if its stem is one of its exports. -/
theorem nodup_filter_ofDeleted_iff (p : String → Bool) (path : String) :
    ((ofDeleted repo base path).filter p).Nodup ↔ ∀ name ∈ stemOf path,
      name ∈ exportNames ((shown repo base path).getD "") → p name = false := by
  have hstem := (nodup_stemOf path).filter p
  have hexports := (nodup_exportNames ((shown repo base path).getD "")).filter p
  rw [ofDeleted, List.filter_append, List.nodup_append']
  simp only [hstem, hexports, true_and, List.disjoint_left, List.mem_filter, not_and,
    Bool.not_eq_true, and_imp]
  refine forall_congr' fun name => forall_congr' fun hname => ?_
  constructor
  · intro hapart hexport
    by_contra hp
    rw [Bool.not_eq_false] at hp
    exact absurd hp (by simp [hapart hp hexport])
  · intro hapart hp hexport
    exact hapart hexport

/-- Of the names of a file some are repeated exactly if one of them is doubled. -/
theorem nodup_filter_ofFile_iff (p : RemovedName → Bool) :
    ((ofFile repo base head file).filter p).Nodup ↔
      ∀ name, IsDoubled repo base file name → p ⟨name, file.path⟩ = false := by
  have hinj : Function.Injective fun name : String => (⟨name, file.path⟩ : RemovedName) :=
    fun first second heq => congrArg RemovedName.name heq
  rw [ofFile, List.filter_map, List.nodup_map_iff hinj]
  by_cases hsource : file.category = .source
  · rw [if_pos hsource]
    cases hstatus : file.status with
    | deleted => simp [nodup_filter_ofDeleted_iff, IsDoubled, hsource, hstatus]
    | modified =>
      have hnames : (ofModified repo base head file.path).Nodup := (nodup_exportNames _).filter _
      simp [IsDoubled, hstatus, hnames.filter]
    | added => simp [IsDoubled, hstatus]
    | renamed => simp [IsDoubled, hstatus]
    | copied => simp [IsDoubled, hstatus]
  · simp [IsDoubled, hsource]

/-- A removed name tells the file that takes it along. -/
theorem sourceFile_of_mem_ofFile {removed : RemovedName}
    (hremoved : removed ∈ ofFile repo base head file) : removed.sourceFile = file.path := by
  obtain ⟨name, -, rfl⟩ := List.mem_map.mp hremoved
  rfl

/-- Of the names of a change set some are repeated exactly if a file has a doubled one. -/
theorem nodup_filter_ofChanges_iff (hpaths : (changed.map (·.path)).Nodup)
    (p : RemovedName → Bool) :
    ((ofChanges repo changed base head).filter p).Nodup ↔
      ∀ file ∈ changed, ∀ name, IsDoubled repo base file name → p ⟨name, file.path⟩ = false := by
  have hapart : changed.Pairwise (Function.onFun List.Disjoint fun file =>
      (ofFile repo base head file).filter p) := by
    refine (List.pairwise_map.mp hpaths).imp fun {first second} hne removed hfirst hsecond => hne ?_
    rw [← sourceFile_of_mem_ofFile (List.mem_of_mem_filter hfirst),
      sourceFile_of_mem_ofFile (List.mem_of_mem_filter hsecond)]
  rw [ofChanges, List.filter_flatMap, List.nodup_flatMap, and_iff_left hapart]
  simp only [nodup_filter_ofFile_iff]

end RemovedName

namespace StalenessReport

variable {repo : Git.Repository} {changed : List ChangedFile} {base head doc : String}
  {config : ScanConfig} {stale : Stale} {reference : StaleReference}

/-- Texts that start differently are different. -/
theorem append_ne_append {first second : String} (hfirst : ¬ first.toList <+: second.toList)
    (hsecond : ¬ second.toList <+: first.toList) (rest more : String) :
    first ++ rest ≠ second ++ more := by
  intro heq
  have htext := congrArg String.toList heq
  rw [String.toList_append, String.toList_append] at htext
  have hlead : first.toList <+: second.toList ++ more.toList := ⟨rest.toList, htext⟩
  exact (List.prefix_or_prefix_of_prefix hlead (List.prefix_append _ _)).elim hfirst hsecond

/-- References of different kinds differ in the first words of their reasons. -/
theorem reasons_ne (new path : String) :
    "referenced file was deleted" ≠ s!"referenced file was renamed to {new}" ∧
      "referenced file was deleted" ≠ s!"referenced symbol was removed from {path}" ∧
      s!"referenced file was renamed to {new}" ≠
        s!"referenced symbol was removed from {path}" := by
  have hgone (lead rest : String) (hlead : ¬ "referenced file was deleted".toList <+: lead.toList)
      (hgone : ¬ lead.toList <+: "referenced file was deleted".toList) :
      "referenced file was deleted" ≠ lead ++ rest := by
    have hne := append_ne_append hlead hgone "" rest
    rwa [String.append_empty] at hne
  exact ⟨hgone _ new (by decide) (by decide), hgone _ path (by decide) (by decide),
    append_ne_append (by decide) (by decide) new path⟩

/-- Different removed names are different references on a line. -/
theorem nameReference_injective (doc : String) (number : ℕ) :
    Function.Injective fun removed : RemovedName => (⟨doc, number, removed.name,
      s!"referenced symbol was removed from {removed.sourceFile}"⟩ : StaleReference) := by
  rintro ⟨name, sourceFile⟩ ⟨name', sourceFile'⟩ heq
  have hname : name = name' := congrArg StaleReference.reference heq
  have hfile : sourceFile = sourceFile' :=
    (String.append_right_inj "referenced symbol was removed from ").mp
      (congrArg StaleReference.reason heq)
  rw [hname, hfile]

/-- Files that were renamed to different paths are different references on a line: the reason has
the new path in it. -/
theorem nodup_map_renamed {renamed : List (String × String)} (hrenamed : (renamed.map (·.2)).Nodup)
    (doc : String) (number : ℕ) :
    (renamed.map fun paths => (⟨doc, number, paths.1,
      s!"referenced file was renamed to {paths.2}"⟩ : StaleReference)).Nodup := by
  have hreasons := hrenamed.map fun first second heq =>
    (String.append_right_inj "referenced file was renamed to ").mp heq
  refine List.Nodup.of_map StaleReference.reason ?_
  rwa [List.map_map] at hreasons ⊢

/-- The references on a line are different exactly if the mentioned names are, where no path was
deleted twice and no two files were renamed to one path. -/
theorem nodup_onLine_iff (hdeleted : stale.deleted.Nodup)
    (hrenamed : (stale.renamed.map (·.2)).Nodup) (number : ℕ) (line : List Char) :
    (onLine stale doc number line).Nodup ↔
      (stale.names.filter (·.isMentioned line)).Nodup := by
  have hgone : ((stale.deleted.filter fun path => contains path.toList line).map fun path =>
      (⟨doc, number, path, "referenced file was deleted"⟩ : StaleReference)).Nodup :=
    (hdeleted.filter _).map fun first second heq => congrArg StaleReference.reference heq
  have hmoved := nodup_map_renamed (hrenamed.sublist
    (List.filter_sublist (p := fun paths => contains paths.1.toList line).map _)) doc number
  rw [onLine, List.nodup_append', List.nodup_append',
    List.nodup_map_iff (nameReference_injective doc number)]
  refine ⟨fun hline => hline.2.1, fun hline => ⟨⟨hgone, hmoved, ?_⟩, hline, ?_⟩⟩
  · intro reference hmem hmem'
    obtain ⟨path, -, rfl⟩ := List.mem_map.mp hmem
    obtain ⟨⟨old, new⟩, -, heq⟩ := List.mem_map.mp hmem'
    exact (reasons_ne new path).1 (congrArg StaleReference.reason heq).symm
  · intro reference hmem hmem'
    obtain ⟨removed, -, rfl⟩ := List.mem_map.mp hmem'
    obtain hmem | hmem := List.mem_append.mp hmem
    · obtain ⟨path, -, heq⟩ := List.mem_map.mp hmem
      exact (reasons_ne path removed.sourceFile).2.1 (congrArg StaleReference.reason heq)
    · obtain ⟨⟨old, new⟩, -, heq⟩ := List.mem_map.mp hmem
      exact (reasons_ne new removed.sourceFile).2.2 (congrArg StaleReference.reason heq)

/-- A reference on a line tells the document and the number of the line. -/
theorem place_of_mem_onLine {number : ℕ} {line : List Char}
    (hmem : reference ∈ onLine stale doc number line) :
    reference.docFile = doc ∧ reference.line = number := by
  simp only [onLine, List.mem_append, List.mem_map] at hmem
  obtain (⟨_, -, rfl⟩ | ⟨_, -, rfl⟩) | ⟨_, -, rfl⟩ := hmem
  all_goals exact ⟨rfl, rfl⟩

/-- A reference in a document stands on a line of it, counted from one. -/
theorem place_of_mem_inText {text : String} (hmem : reference ∈ inText stale doc text) :
    reference.docFile = doc ∧ 1 ≤ reference.line := by
  obtain ⟨⟨line, number⟩, hline, hmem⟩ := List.mem_flatMap.mp hmem
  obtain ⟨hdoc, hnumber⟩ := place_of_mem_onLine hmem
  exact ⟨hdoc, hnumber ▸ List.le_snd_of_mem_zipIdx hline⟩

/-- So does one in a document that can be read. -/
theorem place_of_mem_inDocument (hmem : reference ∈ inDocument repo head stale doc) :
    reference.docFile = doc ∧ 1 ≤ reference.line := by
  rw [inDocument] at hmem
  split at hmem
  · exact place_of_mem_inText hmem
  · cases hmem

/-- The references in a text are different exactly if the names that each line mentions are. -/
theorem nodup_inText_iff (hdeleted : stale.deleted.Nodup)
    (hrenamed : (stale.renamed.map (·.2)).Nodup) (text : String) :
    (inText stale doc text).Nodup ↔ ∀ line ∈ newlineParts text.toList,
      (stale.names.filter (·.isMentioned line)).Nodup := by
  have hnumbers : (((newlineParts text.toList).zipIdx 1).map Prod.snd).Nodup := by
    rw [List.zipIdx_map_snd]
    exact List.nodup_range'
  have hapart : ((newlineParts text.toList).zipIdx 1).Pairwise
      (Function.onFun List.Disjoint fun item => onLine stale doc item.2 item.1) := by
    refine (List.pairwise_map.mp hnumbers).imp fun {first second} hne reference hmem hmem' => hne ?_
    rw [← (place_of_mem_onLine hmem).2, ← (place_of_mem_onLine hmem').2]
  rw [inText, List.nodup_flatMap, and_iff_left hapart]
  simp only [nodup_onLine_iff hdeleted hrenamed]
  conv_rhs => rw [← List.zipIdx_map_fst 1 (newlineParts text.toList)]
  rw [List.forall_mem_map]

/-- The references in a document are different exactly if those in its text are. -/
theorem nodup_inDocument_iff (hdeleted : stale.deleted.Nodup)
    (hrenamed : (stale.renamed.map (·.2)).Nodup) :
    (inDocument repo head stale doc).Nodup ↔ ∀ text ∈ docText repo head doc,
      ∀ line ∈ newlineParts text.toList, (stale.names.filter (·.isMentioned line)).Nodup := by
  rw [inDocument]
  cases docText repo head doc with
  | none => simp
  | some text => simp [nodup_inText_iff hdeleted hrenamed]

/-- Where nothing is stale, no line has a reference. -/
theorem inDocument_of_isEmpty (hstale : stale.isEmpty = true) :
    inDocument repo head stale doc = [] := by
  simp only [Stale.isEmpty, Bool.and_eq_true, List.isEmpty_iff] at hstale
  obtain ⟨⟨hdeleted, hrenamed⟩, hnames⟩ := hstale
  rw [inDocument]
  split
  · simp [inText, onLine, hdeleted, hrenamed, hnames]
  · rfl

/-- The documents of a repository. -/
def documents (repo : Git.Repository) (config : ScanConfig) : List String :=
  collectFiles (repo.root.resolved.directory repo.tree) docPatterns config

/-- A report holds the references of all documents, one document after the other. -/
theorem ofChanges_eq (repo : Git.Repository) (changed : List ChangedFile) (base head : String)
    (config : ScanConfig) :
    ofChanges repo changed base head config =
      { references := (documents repo config).flatMap
          (inDocument repo head (Stale.ofChanges repo changed base head))
        checkedFiles := documents repo config } := by
  rw [ofChanges, ← documents]
  split_ifs with hdocs hstale
  · rw [List.isEmpty_iff.mp hdocs]
    rfl
  · simp [inDocument_of_isEmpty hstale]
  · rfl

/-- All references stand on lines that are counted from one. -/
theorem one_le_line (hmem : reference ∈ (ofChanges repo changed base head config).references) :
    1 ≤ reference.line := by
  rw [ofChanges_eq] at hmem
  obtain ⟨doc, -, hmem⟩ := List.mem_flatMap.mp hmem
  exact (place_of_mem_inDocument hmem).2

/-- Of different files different paths are deleted. -/
theorem nodup_deletedPaths (hpaths : (changed.map (·.path)).Nodup) : (deletedPaths changed).Nodup :=
  hpaths.sublist (List.filter_sublist.map _)

/-- Different files are renamed to different paths. -/
theorem nodup_renamedPaths (hpaths : (changed.map (·.path)).Nodup) :
    ((renamedPaths changed).map (·.2)).Nodup := by
  refine hpaths.sublist ?_
  induction changed with
  | nil => exact List.Sublist.slnil
  | cons file changed ih =>
    rw [List.map_cons, List.nodup_cons] at hpaths
    have hrest := ih hpaths.2
    rw [renamedPaths, List.filterMap_cons]
    split
    · exact hrest.cons _
    · next pair hpair =>
      have hpath : pair.2 = file.path := by
        split at hpair
        · split_ifs at hpair
          cases hpair
          rfl
        · cases hpair
      rw [List.map_cons, List.map_cons, hpath]
      exact hrest.cons_cons _

/-- A report repeats no reference exactly if no line of a checked document mentions a name that a
deleted file takes along twice, where the changed files have different paths. -/
theorem nodup_references_iff (hpaths : (changed.map (·.path)).Nodup) (htree : repo.tree.IsTree) :
    let report := ofChanges repo changed base head config
    report.references.Nodup ↔
      ∀ file ∈ changed, ∀ name, RemovedName.IsDoubled repo base file name →
        ∀ doc ∈ report.checkedFiles, ∀ text ∈ docText repo head doc,
          ∀ line ∈ newlineParts text.toList,
            (⟨name, file.path⟩ : RemovedName).isMentioned line = false := by
  have hdocs : (documents repo config).Nodup :=
    (htree.of_root repo.root.resolved).nodup_collectFiles docPatterns config
  have hapart : (documents repo config).Pairwise (Function.onFun List.Disjoint
      (inDocument repo head (Stale.ofChanges repo changed base head))) := by
    refine hdocs.imp fun {first second} hne reference hmem hmem' => hne ?_
    rw [← (place_of_mem_inDocument hmem).1, ← (place_of_mem_inDocument hmem').1]
  have hdeleted : (Stale.ofChanges repo changed base head).deleted.Nodup :=
    nodup_deletedPaths hpaths
  have hrenamed : ((Stale.ofChanges repo changed base head).renamed.map (·.2)).Nodup :=
    nodup_renamedPaths hpaths
  have hlines (line : List Char) :
      ((Stale.ofChanges repo changed base head).names.filter (·.isMentioned line)).Nodup ↔
        ∀ file ∈ changed, ∀ name, RemovedName.IsDoubled repo base file name →
          (⟨name, file.path⟩ : RemovedName).isMentioned line = false :=
    RemovedName.nodup_filter_ofChanges_iff hpaths _
  rw [ofChanges_eq]
  dsimp only
  rw [List.nodup_flatMap, and_iff_left hapart]
  simp only [nodup_inDocument_iff hdeleted hrenamed, hlines]
  constructor
  · intro hreport file hfile name hdoubled doc hdoc text htext line hline
    exact hreport doc hdoc text htext line hline file hfile name hdoubled
  · intro hreport doc hdoc text htext line hline file hfile name hdoubled
    exact hreport file hfile name hdoubled doc hdoc text htext line hline

/-- A repository with one document, where a file that exports its own stem is only left at the
base. -/
def withoutParser (document : String) : Git.Repository where
  root := ⟨".", []⟩
  tree := .file "README.md" (Utf8.encode document.toList) .empty
  git arguments :=
    if arguments = Git.Question.arguments (.content "main" "parser.ts") then
      .ok { out := Utf8.encode "export function parse() {}\nexport const parser = 1;\n".toList }
    else .ok { status := 128 }

/-- That file, as a deleted one. -/
def deletedParser : ChangedFile := { path := "parser.ts", status := .deleted, category := .source }

/-- The files of that repository are a tree. -/
theorem isTree_withoutParser (document : String) : (withoutParser document).tree.IsTree :=
  .file ⟨by decide, by decide⟩ (by decide) .empty

/-- The doubled name is not mentioned, and the other export is a reference once. -/
theorem nodup_references_iff_otherExport :
    let repo := withoutParser "Call parse() first.\n"
    RemovedName.IsDoubled repo "main" deletedParser "parser" ∧
      (ofChanges repo [deletedParser] "main" "HEAD" {}).references =
        [⟨"README.md", 1, "parse", "referenced symbol was removed from parser.ts"⟩] ∧
      (ofChanges repo [deletedParser] "main" "HEAD" {}).references.Nodup := by
  intro repo
  have hstem : RemovedName.stemOf deletedParser.path = ["parser"] := by decide +kernel
  have hdoubled : RemovedName.IsDoubled repo "main" deletedParser "parser" :=
    ⟨⟨rfl, rfl⟩, by decide +kernel, by decide +kernel⟩
  have hdocs : (ofChanges repo [deletedParser] "main" "HEAD" {}).checkedFiles = ["README.md"] := by
    decide +kernel
  have htext : docText repo "HEAD" "README.md" = some "Call parse() first.\n" := by decide +kernel
  refine ⟨hdoubled, by decide +kernel, ?_⟩
  refine (nodup_references_iff (by decide) (isTree_withoutParser _)).mpr ?_
  rw [hdocs]
  intro file hfile name hname doc hdoc text hread line hline
  rw [List.mem_singleton] at hfile hdoc
  subst hfile hdoc
  have hparser : name = "parser" := by simpa [hstem] using hname.2.1
  rw [htext] at hread
  cases hread
  subst hparser
  revert line
  decide +kernel

/-- The stem of the deleted file is also its export: a line that mentions it is two equal
references. -/
theorem references_of_exported_stem :
    let repo := withoutParser "The parser is here.\n"
    let reference : StaleReference :=
      ⟨"README.md", 1, "parser", "referenced symbol was removed from parser.ts"⟩
    ([deletedParser].map (·.path)).Nodup ∧ repo.tree.IsTree ∧
      (ofChanges repo [deletedParser] "main" "HEAD" {}).references = [reference, reference] ∧
      ¬ (ofChanges repo [deletedParser] "main" "HEAD" {}).references.Nodup := by
  intro repo reference
  have hreferences : (ofChanges repo [deletedParser] "main" "HEAD" {}).references =
      [reference, reference] := by decide +kernel
  refine ⟨by decide, isTree_withoutParser _, hreferences, ?_⟩
  rw [hreferences]
  simp

end StalenessReport

end ChangeImpact
