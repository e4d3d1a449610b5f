import ChangeImpact.Coverage.Report
import ChangeImpact.Proofs.Outcome
import ChangeImpact.Proofs.PathLength

/-!
# Expected tests that can be looked up

There is a report on the coverage if every expected test can be looked up. An expected test is named
after its source file with up to nine more bytes, in a folder that is named in the path of the
source file or is a folder of tests. So it can be looked up if the names in that path are not too
long, and that of the file leaves room for nine bytes in place of its extension.
-/

namespace ChangeImpact

/-! ### Places that are looked up -/

/-- A place with no name that is too long is found or is not there, but never refused. -/
theorem Directory.locateFrom_ne_nameTooLong {place : List String}
    (hplace : ∀ name ∈ place, isLongName name = false) (above : List Directory)
    (here : Directory) : here.locateFrom above place ≠ .error .nameTooLong := by
  induction place generalizing above here with
  | nil => simp [locateFrom]
  | cons name place ih =>
    rw [List.forall_mem_cons] at hplace
    unfold locateFrom
    split
    case isTrue =>
      cases above with
      | nil => exact ih hplace.2 [] here
      | cons up more => exact ih hplace.2 more up
    case isFalse =>
      rw [hplace.1, if_neg Bool.false_ne_true]
      cases here.entry? name with
      | none => simp
      | some found =>
        cases found with
        | folder inside => exact ih hplace.2 _ inside
        | file content => cases place <;> simp

/-- Neither is a place below a root, if the path to it is not too long either. -/
theorem Root.locate_ne_nameTooLong {root : Root} {tree : Directory} {place : List String}
    (hroot : ∀ name ∈ root.place, isLongName name = false)
    (hplace : ∀ name ∈ place, isLongName name = false)
    (hpath : byteLength (root.pathOf place) ≤ maxPathBytes) :
    root.locate tree place ≠ .error .nameTooLong := by
  rw [locate, if_neg (not_lt.mpr hpath), lookUp, Directory.locate]
  exact Directory.locateFrom_ne_nameTooLong (List.forall_mem_append.mpr ⟨hroot, hplace⟩) [] tree

/-- A path below a root is longer than the name of the root by a slash and the names at most. -/
theorem Root.byteLength_pathOf_le (root : Root) (place : List String) :
    byteLength (root.pathOf place) ≤ byteLength root.label + 1 + slashedLength place := by
  have hplace := byteLength_ofSegments_le place
  rw [pathOf]
  split_ifs
  · omega
  · omega
  · have hjoin := Path.byteLength_join_le root.label (Path.ofSegments place)
    omega

namespace Coverage

open ChangeImpact.Path

variable {root : Root} {names bytes : ℕ} {source path : String}

/-- The names in a path that fits are not too long. -/
theorem not_isLongName_of_fits {name : String} (hpath : Fits maxNameBytes bytes path)
    (hname : name ∈ segments path) : isLongName name = false :=
  decide_eq_false (not_lt.mpr ((namesUpTo_iff path).mp hpath.names name hname))

/-- A path that fits can be looked up below a root. -/
theorem isFile_ne_nameTooLong (tree : Directory)
    (hroot : ∀ name ∈ root.place, isLongName name = false)
    (hpath : Fits maxNameBytes bytes path)
    (hbytes : byteLength root.label + bytes + 4 ≤ maxPathBytes) :
    isFile root tree path ≠ .error .nameTooLong := by
  have hinner : ∀ name ∈ (segments path).filter fun s => s != "" && s != ".",
      isLongName name = false := fun name hname =>
    not_isLongName_of_fits hpath (List.mem_of_mem_filter hname)
  have hfound : (if isAbsolute path then (Root.ofPath "/" path).locate tree []
      else root.locate tree (parts path)) ≠ .error .nameTooLong := by
    split
    case isTrue habsolute =>
      have hplace : (Root.ofPath "/" path).place =
          (segments path).filter fun s => s != "" && s != "." := by
        rw [Root.ofPath, join, if_pos habsolute]
      refine Root.locate_ne_nameTooLong (hplace ▸ hinner) (List.forall_mem_nil _) ?_
      have hlabel : byteLength ((Root.ofPath "/" path).pathOf []) ≤ bytes + 3 :=
        (hpath.tidy (by decide)).bytes
      omega
    case isFalse hrelative =>
      rw [parts, if_neg hrelative]
      refine Root.locate_ne_nameTooLong hroot hinner ?_
      have hlength := root.byteLength_pathOf_le
        ((segments path).filter fun s => s != "" && s != ".")
      have hparts := slashedLength_le_of_sublist
        (List.filter_sublist (l := segments path) (p := fun s => s != "" && s != "."))
      rw [slashedLength_segments] at hparts
      have hpath := hpath.bytes
      omega
  unfold isFile
  dsimp only
  split
  · simp
  case h_2 hfault => exact absurd hfault hfound
  · simp

/-- What is behind the last folder of a name is an end of the list. -/
theorem behindLast_suffix {name : String} {above rest : List String}
    (hrest : behindLast name above = some rest) : rest <:+ above := by
  induction above with
  | nil => cases hrest
  | cons folder above ih =>
    rw [behindLast] at hrest
    split at hrest
    case h_1 found hfound =>
      exact (ih (hfound.trans hrest)).trans (List.suffix_cons folder above)
    case h_2 =>
      split at hrest
      · obtain rfl := Option.some.inj hrest
        exact List.suffix_cons folder above
      · cases hrest

/-- The path below the source root is made of the last folders and the file name. -/
theorem exists_belowSourceRoot_eq (source : String) :
    ∃ below, below <:+ folders source ∧
      belowSourceRoot source = ofSegments (below ++ [fileName source]) := by
  unfold belowSourceRoot
  dsimp only
  split
  case h_1 below hbelow =>
    refine ⟨below, ?_, rfl⟩
    rw [Option.orElse_eq_orElse, Option.orElse_eq_or, Option.or_eq_some_iff] at hbelow
    obtain hbelow | ⟨-, hbelow⟩ := hbelow
    · exact behindLast_suffix hbelow
    · exact behindLast_suffix hbelow
  case h_2 =>
    refine ⟨folders source, List.suffix_rfl, ?_⟩
    rw [folders_append_fileName, ofSegments_segments]

/-- Below the source root a path fits with one byte more. -/
theorem fits_belowSourceRoot (hsource : Fits names bytes source) :
    Fits names (bytes + 1) (belowSourceRoot source) := by
  obtain ⟨below, hsuffix, hbelow⟩ := exists_belowSourceRoot_eq source
  rw [hbelow]
  refine hsource.ofSegments ?_
  rw [← folders_append_fileName]
  exact hsuffix.sublist.append (List.Sublist.refl _)

/-- The name of an expected test has at most nine bytes more than that of its source file without
the extension. -/
theorem fits_testName {base mark extension : String} (hbase : byteLength base + 9 ≤ names)
    (hmark : byteLength mark ≤ 5) (hextension : extension ∈ testExtensions) :
    Fits names names (base ++ mark ++ extension) := by
  have hextensions : ∀ extension ∈ testExtensions, byteLength extension ≤ 4 := by decide
  have hlength := hextensions extension hextension
  refine fits_of_byteLength ?_
  rw [byteLength_append, byteLength_append]
  omega

/-- An expected test fits where its source file does, with a folder of tests and its own name. -/
theorem fits_of_mem_candidates (hsource : Fits names bytes source)
    (hbase : byteLength (withoutExtension (fileName (forwardSlashes source))) + 9 ≤ names)
    (hpath : path ∈ candidates source) : Fits names (bytes + names + 15) path := by
  have hsource := hsource.forwardSlashes
  have hmarks : ∀ mark ∈ testMarks, byteLength mark ≤ 5 := by decide
  have hfolder {name : String} (hname : byteLength name ≤ 9) : Fits names 9 name :=
    ⟨namesUpTo_of_length (hname.trans (by omega)), hname⟩
  rw [candidates, List.mem_eraseDups, List.mem_map] at hpath
  obtain ⟨path, hpath, rfl⟩ := hpath
  obtain ⟨extension, hextension, hpath⟩ := List.mem_flatMap.mp hpath
  suffices hjoined : Fits names (bytes + names + 12) path from
    (hjoined.normalize (by omega)).mono (by omega)
  rw [candidatesWith, List.mem_append, List.mem_append] at hpath
  have hbeside := hsource.of_part (directory_isPrefix (forwardSlashes source)).isInfix
  obtain (hpath | hpath) | hpath := hpath
  · have htest (mark : String) (hmark : byteLength mark ≤ 5) :
        Fits names (bytes + names + 12) (join (directory (forwardSlashes source))
          (withoutExtension (fileName (forwardSlashes source)) ++ mark ++ extension)) :=
      (hbeside.join (fits_testName hbase hmark hextension)).mono (by omega)
    simp only [List.mem_cons, List.not_mem_nil, or_false] at hpath
    obtain hpath | hpath := hpath
    · rw [hpath]
      exact htest ".test" (by decide)
    · rw [hpath]
      exact htest ".spec" (by decide)
  · obtain ⟨mark, hmark, rfl⟩ := List.mem_map.mp hpath
    exact ((hbeside.join (hfolder (by decide))).join
      (fits_testName hbase (hmarks mark hmark) hextension)).mono (by omega)
  · obtain ⟨top, htop, hpath⟩ := List.mem_flatMap.mp hpath
    obtain ⟨mark, hmark, rfl⟩ := List.mem_map.mp hpath
    have htops : ∀ top ∈ topTestFolders, byteLength top ≤ 9 := by decide
    have hbelow := (fits_belowSourceRoot hsource).of_part (directory_isPrefix _).isInfix
    exact (((hfolder (htops top htop)).join hbelow).join
      (fits_testName hbase (hmarks mark hmark) hextension)).mono (by omega)

/-- A source path, below a root, that leaves room for the names of its expected tests: none of its
names is too long, that of the file has nine bytes left in place of its extension, and there is room
for a folder of tests. -/
structure LeavesRoom (root : Root) (source : String) : Prop where
  names : ∀ name ∈ segments source, byteLength name ≤ maxNameBytes
  base : byteLength (withoutExtension (fileName (forwardSlashes source))) + 9 ≤ maxNameBytes
  bytes : byteLength root.label + byteLength source ≤ 3800

instance (root : Root) (source : String) : Decidable (LeavesRoom root source) :=
  decidable_of_iff
    ((∀ name ∈ segments source, byteLength name ≤ maxNameBytes) ∧
      byteLength (withoutExtension (fileName (forwardSlashes source))) + 9 ≤ maxNameBytes ∧
      byteLength root.label + byteLength source ≤ 3800)
    ⟨fun ⟨hnames, hbase, hbytes⟩ => ⟨hnames, hbase, hbytes⟩,
      fun ⟨hnames, hbase, hbytes⟩ => ⟨hnames, hbase, hbytes⟩⟩

/-- The expected tests of such a source file can be looked up. -/
theorem isFile_candidate_ne_nameTooLong (tree : Directory)
    (hroot : ∀ name ∈ root.place, byteLength name ≤ maxNameBytes)
    (hroom : LeavesRoom root source) (hpath : path ∈ candidates source) :
    isFile root tree path ≠ .error .nameTooLong := by
  have hsource : Fits maxNameBytes (byteLength source) source :=
    ⟨(namesUpTo_iff source).mpr hroom.names, le_refl _⟩
  refine isFile_ne_nameTooLong tree
    (fun name hname => decide_eq_false (not_lt.mpr (hroot name hname)))
    (fits_of_mem_candidates hsource hroom.base hpath) ?_
  have hlimits : maxNameBytes = 255 ∧ maxPathBytes = 4095 := ⟨rfl, rfl⟩
  have hbytes := hroom.bytes
  omega

/-- A name that is too long is none of the special ones. -/
theorem ne_of_long {name : String} (hlong : maxNameBytes < byteLength name) :
    name ≠ "" ∧ name ≠ "." ∧ name ≠ ".." := by
  have hspecial : ∀ special ∈ ["", ".", ".."], byteLength special ≤ maxNameBytes := by decide
  have hne : ∀ special ∈ ["", ".", ".."], name ≠ special := fun special hmem hname =>
    not_lt.mpr (hspecial special hmem) (hname ▸ hlong)
  exact ⟨hne _ (by decide), hne _ (by decide), hne _ (by decide)⟩

/-- A name that is too long is not looked up. -/
theorem isFile_eq_nameTooLong {root : Root} (tree : Directory) {name : String}
    (hroot : root.place = []) (hslash : '/' ∉ name.toList)
    (hlong : maxNameBytes < byteLength name) :
    isFile root tree name = .error .nameTooLong := by
  obtain ⟨hempty, hdot, hdots⟩ := ne_of_long hlong
  have hparts : parts name = [name] := by
    simp [parts, isAbsolute_eq_false hslash, segments_eq_singleton hslash, hempty, hdot]
  have hrefused : isLongName name = true := decide_eq_true hlong
  have hlookUp : root.lookUp tree [name] = .error .nameTooLong := by
    rw [Root.lookUp, hroot]
    simp [Directory.locate, Directory.locateFrom, hdots, hrefused]
  have hlocate : root.locate tree (parts name) = .error .nameTooLong := by
    rw [hparts, Root.locate]
    split
    · rfl
    · exact hlookUp
  rw [isFile, if_neg (by simp [isAbsolute_eq_false hslash]), hlocate]

/-- If a file at the top leaves no room for nine bytes, an expected test of it cannot be looked
up. -/
theorem exists_candidate_nameTooLong {root : Root} (tree : Directory) {name : String}
    (hroot : root.place = []) (hslash : '/' ∉ name.toList) (hbackslash : '\\' ∉ name.toList)
    (hlong : maxNameBytes < byteLength (withoutExtension name) + 9) :
    ∃ path ∈ candidates name, isFile root tree path = .error .nameTooLong := by
  have hbase : '/' ∉ (withoutExtension name).toList := fun hmem =>
    hslash ((withoutExtension_isPrefix name).subset hmem)
  generalize hpath : withoutExtension name ++ ".test" ++ ".tsx" = path
  have htest : '/' ∉ path.toList := by
    rw [← hpath, String.toList_append, String.toList_append]
    simp [hbase]
  have hpathLong : maxNameBytes < byteLength path := by
    have hmark : byteLength ".test" = 5 := by decide
    have hextension : byteLength ".tsx" = 4 := by decide
    rw [← hpath, byteLength_append, byteLength_append]
    omega
  obtain ⟨hempty, hdot, hdots⟩ := ne_of_long hpathLong
  have hjoined : join (directory name) path = path := by
    rw [directory_eq_empty hslash, join, isAbsolute_eq_false htest]
    exact String.empty_append
  refine ⟨path, ?_, isFile_eq_nameTooLong tree hroot htest hpathLong⟩
  have hname : fileName name = name := by
    rw [fileName, segments_eq_singleton hslash]
    rfl
  rw [candidates, forwardSlashes_eq_self hbackslash, hname, List.mem_eraseDups, List.mem_map]
  refine ⟨path, List.mem_flatMap.mpr ⟨".tsx", by decide, ?_⟩,
    normalize_eq_self htest hempty hdot hdots⟩
  rw [candidatesWith, hpath, hjoined]
  exact List.mem_append_left _ (List.mem_append_left _ List.mem_cons_self)

/-- A look-up answers, unless something is too long for it. -/
theorem exists_isFile_iff {tree : Directory} :
    (∃ found, isFile root tree path = .ok found) ↔
      isFile root tree path ≠ .error .nameTooLong := by
  unfold isFile
  dsimp only
  split <;> simp

/-- A source file is covered or leaves a gap, if all its expected tests can be looked up. -/
theorem exists_gap?_iff {tree : Directory} (tests : List String) :
    (∃ gap, gap? root tree tests source = .ok gap) ↔
      ∀ path ∈ candidates source, isFile root tree path ≠ .error .nameTooLong := by
  have hexisting : (∃ found, existingTests root tree source = .ok found) ↔
      ∀ path ∈ candidates source, ∃ found, isFile root tree path = .ok found :=
    exists_filterM_iff
  simp only [exists_isFile_iff] at hexisting
  rw [gap?, exists_bind_iff, ← hexisting]
  simp [pure, Except.pure]

end Coverage

/-- There is a report if the expected tests of all changed source files can be looked up. -/
theorem CoverageReport.exists_ofChanges_iff {root : Root} {tree : Directory}
    {changed : List ChangedFile} :
    (∃ report, ofChanges root tree changed = .ok report) ↔
      ∀ source ∈ sourcePaths changed, ∀ path ∈ Coverage.candidates source,
        Coverage.isFile root tree path ≠ .error .nameTooLong := by
  have houtcomes : (∃ outcomes, (sourcePaths changed).mapM
        (Coverage.gap? root tree (testPaths changed)) = .ok outcomes) ↔
      ∀ source ∈ sourcePaths changed, ∃ gap,
        Coverage.gap? root tree (testPaths changed) source = .ok gap :=
    exists_mapM_iff
  simp only [Coverage.exists_gap?_iff] at houtcomes
  rw [ofChanges, exists_bind_iff, ← houtcomes]
  refine exists_congr fun outcomes => and_iff_left ?_
  dsimp only
  split <;> exact ⟨_, rfl⟩

/-- There is one if the changed source files leave room for the names of their expected tests. -/
theorem CoverageReport.exists_ofChanges_of_leavesRoom {root : Root} (tree : Directory)
    {changed : List ChangedFile} (hroot : ∀ name ∈ root.place, byteLength name ≤ maxNameBytes)
    (hroom : ∀ source ∈ sourcePaths changed, Coverage.LeavesRoom root source) :
    ∃ report, ofChanges root tree changed = .ok report :=
  exists_ofChanges_iff.mpr fun source hsource _ hpath =>
    Coverage.isFile_candidate_ne_nameTooLong tree hroot (hroom source hsource) hpath

end ChangeImpact
