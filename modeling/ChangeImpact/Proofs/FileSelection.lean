import ChangeImpact.Proofs.CollectedFiles

/-!
# Which files are collected

The walk through a directory leaves out an excluded folder together with everything in it, and each
excluded file by itself. It finds the files that a look-up by names finds, but for those that are
excluded themselves or lie below an excluded folder. In which order a directory lists its entries
makes no difference once the paths are sorted.
-/

namespace ChangeImpact.Directory

open Text
open ChangeImpact.Path (IsPlace ofSegments)

variable {directory inside rest other : Directory} {wanted excluded : String → Bool}
  {lead place : List String} {name path : String} {content : Bytes}

/-! ### Files at places -/

/-- Whether a file stands at a place below a directory, where names lead down from folder to
folder. -/
def holdsFile : Directory → List String → Bool
  | _, [] => false
  | directory, name :: rest =>
    match directory.entry? name with
    | none => false
    | some (.file _) => rest.isEmpty
    | some (.folder found) => found.holdsFile rest

/-- No entry is found by a name that none has. -/
theorem entry?_eq_none (hfresh : name ∉ directory.names) : directory.entry? name = none := by
  induction directory with
  | empty => rfl
  | file first content rest ih =>
    rw [names, List.mem_cons, not_or] at hfresh
    unfold entry?
    rw [if_neg (Ne.symm hfresh.1), ih hfresh.2]
  | folder first inside rest _ ih =>
    rw [names, List.mem_cons, not_or] at hfresh
    unfold entry?
    rw [if_neg (Ne.symm hfresh.1), ih hfresh.2]

/-- A directory with one more file in front holds that file and those that it held before. -/
theorem holdsFile_file (hfresh : name ∉ rest.names) :
    (file name content rest).holdsFile place = true ↔
      place = [name] ∨ rest.holdsFile place = true := by
  cases place with
  | nil => simp [holdsFile]
  | cons first below =>
    by_cases hfirst : name = first
    · subst hfirst
      simp [holdsFile, entry?, entry?_eq_none hfresh]
    · simp [holdsFile, entry?, hfirst, Ne.symm hfirst]

/-- A directory with one more folder in front holds the files in that folder and those that it held
before. -/
theorem holdsFile_folder (hfresh : name ∉ rest.names) :
    (folder name inside rest).holdsFile place = true ↔
      (∃ below, place = name :: below ∧ inside.holdsFile below = true) ∨
        rest.holdsFile place = true := by
  cases place with
  | nil => simp [holdsFile]
  | cons first below =>
    by_cases hfirst : name = first
    · subst hfirst
      simp [holdsFile, entry?, entry?_eq_none hfresh]
    · simp [holdsFile, entry?, hfirst, Ne.symm hfirst]

/-! ### The walk as a choice among all files -/

/-- Neither a place below the place `lead` nor a folder on the way to it is excluded. -/
def IsKept (excluded : String → Bool) (lead place : List String) : Prop :=
  ∀ front ∈ place.inits, front ≠ [] → excluded (ofSegments (lead ++ front)) = false

/-- The place where a walk starts is kept. -/
theorem isKept_nil : IsKept excluded lead [] := by simp [IsKept]

/-- A place is kept if the first folder on the way is, and the place is kept below that folder. -/
theorem isKept_cons {below : List String} :
    IsKept excluded lead (name :: below) ↔
      excluded (ofSegments (lead ++ [name])) = false ∧
        IsKept excluded (lead ++ [name]) below := by
  simp only [IsKept, List.inits_cons, List.mem_cons, List.mem_map, forall_eq_or_imp,
    forall_exists_index, and_imp, forall_apply_eq_imp_iff₂]
  constructor
  · rintro ⟨-, hkept⟩
    refine ⟨hkept [] ((List.mem_inits _ _).mpr List.nil_prefix) (List.cons_ne_nil _ _),
      fun front hfront _ => ?_⟩
    rw [List.append_assoc]
    exact hkept front hfront (List.cons_ne_nil _ _)
  · rintro ⟨hfirst, hbelow⟩
    refine ⟨fun hne => absurd rfl hne, fun front hfront _ => ?_⟩
    cases front with
    | nil => exact hfirst
    | cons next more =>
      have hlater := hbelow (next :: more) hfront (List.cons_ne_nil _ _)
      rwa [List.append_assoc] at hlater

/-- A file below a directory at the place `lead` is selected if its name is wanted, and neither the
file nor a folder on the way to it is excluded. -/
structure IsSelected (directory : Directory) (wanted excluded : String → Bool)
    (lead place : List String) : Prop where
  holdsFile : directory.holdsFile place = true
  wanted : wanted (place.getLastD "") = true
  kept : IsKept excluded lead place

/-- Nothing is selected in an empty directory. -/
theorem not_isSelected_empty : ¬ empty.IsSelected wanted excluded lead place := by
  rintro ⟨hfile, -, -⟩
  cases place <;> cases hfile

/-- One more file is selected by its own name and path. -/
theorem isSelected_file (hfresh : name ∉ rest.names) :
    (file name content rest).IsSelected wanted excluded lead place ↔
      (wanted name = true ∧ excluded (ofSegments (lead ++ [name])) = false ∧ place = [name]) ∨
        rest.IsSelected wanted excluded lead place := by
  constructor
  · rintro ⟨hfile, hwanted, hkept⟩
    obtain rfl | hfile := (holdsFile_file hfresh).mp hfile
    · exact .inl ⟨hwanted, (isKept_cons.mp hkept).1, rfl⟩
    · exact .inr ⟨hfile, hwanted, hkept⟩
  · rintro (⟨hwanted, hkept, rfl⟩ | ⟨hfile, hwanted, hkept⟩)
    · exact ⟨(holdsFile_file hfresh).mpr (.inl rfl), hwanted, isKept_cons.mpr ⟨hkept, isKept_nil⟩⟩
    · exact ⟨(holdsFile_file hfresh).mpr (.inr hfile), hwanted, hkept⟩

/-- The files in one more folder are selected from there, if the folder is not excluded. -/
theorem isSelected_folder (hfresh : name ∉ rest.names) :
    (folder name inside rest).IsSelected wanted excluded lead place ↔
      (excluded (ofSegments (lead ++ [name])) = false ∧ ∃ below,
        inside.IsSelected wanted excluded (lead ++ [name]) below ∧ place = name :: below) ∨
      rest.IsSelected wanted excluded lead place := by
  -- the last name is that of the file, as a folder by itself is none
  have hlast {below : List String} (hfile : inside.holdsFile below = true) :
      (name :: below).getLastD "" = below.getLastD "" := by
    cases below with
    | nil => cases hfile
    | cons next below => rfl
  constructor
  · rintro ⟨hfile, hwanted, hkept⟩
    obtain ⟨below, rfl, hbelow⟩ | hrest := (holdsFile_folder hfresh).mp hfile
    · obtain ⟨hfirst, hlater⟩ := isKept_cons.mp hkept
      exact .inl ⟨hfirst, below, ⟨hbelow, hlast hbelow ▸ hwanted, hlater⟩, rfl⟩
    · exact .inr ⟨hrest, hwanted, hkept⟩
  · rintro (⟨hfirst, below, ⟨hfile, hwanted, hbelow⟩, rfl⟩ | ⟨hfile, hwanted, hkept⟩)
    · exact ⟨(holdsFile_folder hfresh).mpr (.inl ⟨below, rfl, hfile⟩),
        (hlast hfile).symm ▸ hwanted, isKept_cons.mpr ⟨hfirst, hbelow⟩⟩
    · exact ⟨(holdsFile_folder hfresh).mpr (.inr hfile), hwanted, hkept⟩

/-- A walk finds one more file if its name is wanted and its path is not excluded. -/
theorem mem_search_file (hlead : IsPlace lead) :
    path ∈ (file name content rest).search wanted excluded (ofSegments lead) ↔
      (wanted name = true ∧ excluded (ofSegments (lead ++ [name])) = false ∧
        path = ofSegments (lead ++ [name])) ∨
      path ∈ rest.search wanted excluded (ofSegments lead) := by
  rw [search, childPath_ofSegments hlead]
  cases wanted name <;> cases excluded (ofSegments (lead ++ [name])) <;> simp

/-- A walk goes into one more folder if its path is not excluded. -/
theorem mem_search_folder (hlead : IsPlace lead) :
    path ∈ (folder name inside rest).search wanted excluded (ofSegments lead) ↔
      (excluded (ofSegments (lead ++ [name])) = false ∧
        path ∈ inside.search wanted excluded (ofSegments (lead ++ [name]))) ∨
      path ∈ rest.search wanted excluded (ofSegments lead) := by
  rw [search, childPath_ofSegments hlead]
  cases excluded (ofSegments (lead ++ [name])) <;> simp

/-- A walk that leaves out excluded folders finds the paths of the selected files. -/
theorem IsTree.mem_search_iff (htree : directory.IsTree) (hlead : IsPlace lead) :
    path ∈ directory.search wanted excluded (ofSegments lead) ↔
      ∃ place, directory.IsSelected wanted excluded lead place ∧
        path = ofSegments (lead ++ place) := by
  induction htree generalizing lead with
  | empty =>
    simp only [search, List.not_mem_nil, false_iff, not_exists, not_and]
    exact fun place hselected => absurd hselected not_isSelected_empty
  | file hname hfresh hrest ih =>
    simp only [mem_search_file hlead, isSelected_file hfresh, ih hlead, or_and_right, exists_or,
      and_assoc, exists_and_left, exists_eq_left]
  | @folder name inside rest hname hfresh hinside hrest ih ih' =>
    have hbelow (below : List String) : lead ++ [name] ++ below = lead ++ name :: below :=
      List.append_assoc lead [name] below
    rw [mem_search_folder hlead, ih (hlead.append hname), ih' hlead]
    simp only [isSelected_folder hfresh, or_and_right, exists_or, and_assoc, exists_and_left,
      hbelow]
    refine or_congr_left (and_congr_right fun _ => ?_)
    constructor
    · rintro ⟨below, hselected, hpath⟩
      exact ⟨_, ⟨below, hselected, rfl⟩, hpath⟩
    · rintro ⟨_, ⟨below, hselected, rfl⟩, hpath⟩
      exact ⟨below, hselected, hpath⟩

/-! ### The order of the entries -/

/-- A directory with one more entry in front. -/
def cons (name : String) : Entry → Directory → Directory
  | .file content, rest => file name content rest
  | .folder inside, rest => folder name inside rest

/-- The same entries in another order, in the directory itself and in the folders below it. -/
inductive Reordered : Directory → Directory → Prop
  | refl (directory : Directory) : Reordered directory directory
  | swap (first second : String) (one two : Entry) (rest : Directory) :
    Reordered (cons first one (cons second two rest)) (cons second two (cons first one rest))
  | behind (name : String) (entry : Entry) {rest rest' : Directory} (h : Reordered rest rest') :
    Reordered (cons name entry rest) (cons name entry rest')
  | inside (name : String) (rest : Directory) {found found' : Directory}
      (h : Reordered found found') :
    Reordered (folder name found rest) (folder name found' rest)
  | trans {first second third : Directory} (h : Reordered first second)
      (h' : Reordered second third) : Reordered first third

/-- What is found below an entry comes before what is found behind it. -/
theorem search_cons (name : String) (entry : Entry) (rest : Directory) (path : String) :
    (cons name entry rest).search wanted excluded path =
      (single name entry).search wanted excluded path ++ rest.search wanted excluded path := by
  cases entry with
  | file content =>
    simp only [cons, single, search]
    split <;> rfl
  | folder found => simp only [cons, single, search, List.append_nil]

/-- Walks through the same entries in another order find the same paths in another order. -/
theorem Reordered.perm_search (h : directory.Reordered other) (path : String) :
    (directory.search wanted excluded path).Perm (other.search wanted excluded path) := by
  induction h generalizing path with
  | refl => exact .refl _
  | swap first second one two rest =>
    simp only [search_cons]
    exact List.perm_append_comm_assoc _ _ _
  | behind name entry _ ih =>
    rw [search_cons, search_cons]
    exact (ih path).append_left _
  | inside name rest _ ih =>
    simp only [search]
    refine List.Perm.append_right _ ?_
    split
    · exact .refl _
    · exact ih _
  | trans _ _ ih ih' => exact (ih path).trans (ih' path)

/-- The collected files do not depend on the order of the entries. -/
theorem Reordered.collectFiles_eq (h : directory.Reordered other) (patterns : List String)
    (config : ScanConfig) :
    collectFiles other patterns config = collectFiles directory patterns config := by
  have hperm : (collectFiles other patterns config).Perm (collectFiles directory patterns config) :=
    (List.mergeSort_perm _ _).trans ((h.perm_search "").symm.trans (List.mergeSort_perm _ _).symm)
  exact hperm.eq_of_pairwise (fun _ _ _ _ => le_antisymm)
    (pairwise_collectFiles other patterns config) (pairwise_collectFiles directory patterns config)

/-- From a file tree the paths of exactly those files are collected whose name matches one of the
patterns, and of which neither the path nor that of a folder on the way is excluded. They are in
ascending order of code points without repetition, whatever the order of the entries. -/
theorem IsTree.collectFiles_selects (htree : directory.IsTree) (patterns : List String)
    (config : ScanConfig) :
    (collectFiles directory patterns config).Pairwise (· < ·) ∧
      (∀ path, path ∈ collectFiles directory patterns config ↔
        ∃ place, directory.holdsFile place = true ∧
          (∃ pattern ∈ patterns, globMatches pattern (place.getLastD "") = true) ∧
          (∀ front ∈ place.inits, front ≠ [] →
            isExcluded config.excludePatterns (ofSegments front) = false) ∧
          path = ofSegments place) ∧
      ∀ other, directory.Reordered other →
        collectFiles other patterns config = collectFiles directory patterns config := by
  refine ⟨?_, fun path => ?_, fun other h => h.collectFiles_eq patterns config⟩
  · exact (pairwise_collectFiles directory patterns config).imp₂
      (fun _ _ hle hne => lt_of_le_of_ne hle hne) (htree.nodup_collectFiles patterns config)
  · rw [collectFiles, (List.mergeSort_perm _ _).mem_iff]
    refine (htree.mem_search_iff Path.isPlace_nil).trans (exists_congr fun place => ?_)
    simp only [List.nil_append]
    constructor
    · rintro ⟨⟨hfile, hwanted, hkept⟩, hpath⟩
      exact ⟨hfile, List.any_eq_true.mp hwanted, hkept, hpath⟩
    · rintro ⟨hfile, hmatched, hkept, hpath⟩
      exact ⟨⟨hfile, List.any_eq_true.mpr hmatched, hkept⟩, hpath⟩

/-- Sources below a folder with generated ones. -/
def sourceTree : Directory :=
  .folder "src"
    (.folder "gen" (.file "c.ts" [] .empty) (.file "b.ts" [] (.file "b.d.ts" [] .empty)))
    (.file "a.ts" [] .empty)

/-- A star also stands for slashes, so that one pattern leaves out declarations in any folder. -/
theorem collectFiles_sourceTree :
    let config : ScanConfig := { excludePatterns := ["gen", "src*.d.ts"] }
    let reordered : Directory := .file "a.ts" [] (.folder "src"
      (.folder "gen" (.file "c.ts" [] .empty) (.file "b.ts" [] (.file "b.d.ts" [] .empty))) .empty)
    sourceTree.IsTree ∧ "src/b.ts" ∈ collectFiles sourceTree ["*.ts"] config ∧
      "src/b.d.ts" ∉ collectFiles sourceTree ["*.ts"] config ∧
      collectFiles reordered ["*.ts"] config = collectFiles sourceTree ["*.ts"] config := by
  intro config reordered
  have hgenerated : (file "c.ts" [] empty).IsTree :=
    .file ⟨by decide, by decide⟩ (by decide) .empty
  have hwritten : (file "b.ts" [] (file "b.d.ts" [] empty)).IsTree :=
    .file ⟨by decide, by decide⟩ (by decide) (.file ⟨by decide, by decide⟩ (by decide) .empty)
  have htree : sourceTree.IsTree :=
    .folder ⟨by decide, by decide⟩ (by decide)
      (.folder ⟨by decide, by decide⟩ (by decide) hgenerated hwritten)
      (.file ⟨by decide, by decide⟩ (by decide) .empty)
  obtain ⟨-, hmem, horder⟩ := htree.collectFiles_selects ["*.ts"] config
  refine ⟨htree, (hmem _).mpr ⟨["src", "b.ts"], rfl, ⟨"*.ts", by decide, by decide +kernel⟩,
    by decide +kernel, by decide +kernel⟩, fun hpath => ?_,
    horder reordered (.swap "src" "a.ts" (.folder _) (.file []) empty)⟩
  obtain ⟨place, hfile, -, hkept, hpath⟩ := (hmem _).mp hpath
  have hplace : place ≠ [] := by
    rintro rfl
    cases hfile
  have hallowed := hkept place ((List.mem_inits _ _).mpr List.prefix_rfl) hplace
  rw [← hpath] at hallowed
  revert hallowed
  decide +kernel

end ChangeImpact.Directory
