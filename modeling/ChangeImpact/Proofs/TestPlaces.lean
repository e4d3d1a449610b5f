import ChangeImpact.Change.Classify
import ChangeImpact.Proofs.CollectedFiles
import ChangeImpact.Proofs.Distinct
import ChangeImpact.Proofs.ExpectedTests

/-!
# Where tests are expected

The tests of a source file are expected at places that are again normalised paths below the root.
Each of these lies in a folder of tests or has a name that says that it is a test, so that the
classification takes it for one, and never for the source file itself.
-/

namespace ChangeImpact

open Text ChangeImpact.Path

namespace Path

variable {place lead below : List String} {path name top : String}

/-- A normalised path below the root: it has no backslash, and no segment that is empty, `.` or
`..`. -/
structure IsNormalized (path : String) : Prop where
  isNormal : ∀ segment ∈ segments path, IsNormal segment
  backslash_not_mem : '\\' ∉ path.toList

instance (path : String) : Decidable (IsNormalized path) :=
  decidable_of_iff ((∀ segment ∈ segments path, IsNormal segment) ∧ '\\' ∉ path.toList)
    ⟨fun ⟨hnormal, hbackslash⟩ => ⟨hnormal, hbackslash⟩,
      fun ⟨hnormal, hbackslash⟩ => ⟨hnormal, hbackslash⟩⟩

/-- A segment of a normalised path: it leads down, and has no slashes of either kind. -/
structure IsName (name : String) : Prop where
  isNormal : IsNormal name
  slash_not_mem : '/' ∉ name.toList
  backslash_not_mem : '\\' ∉ name.toList

/-- Names lead down to a place. -/
theorem isPlace_of_isName (hnames : ∀ segment ∈ place, IsName segment) : IsPlace place :=
  ⟨fun segment hsegment => (hnames segment hsegment).isNormal,
    fun segment hsegment => (hnames segment hsegment).slash_not_mem⟩

/-- Names with one more name behind them are names. -/
theorem isName_of_mem_append (hlead : ∀ segment ∈ lead, IsName segment) (hname : IsName name) :
    ∀ segment ∈ lead ++ [name], IsName segment :=
  List.forall_mem_append.mpr ⟨hlead, List.forall_mem_singleton.mpr hname⟩

/-- What is in a segment is in the path. -/
theorem mem_of_mem_segment {segment : String} (hsegment : segment ∈ segments path) {c : Char}
    (hc : c ∈ segment.toList) : c ∈ path.toList := by
  have hpath : ['/'].intercalate (path.toList.splitOn '/') = path.toList :=
    List.intercalate_splitOn '/'
  obtain ⟨part, hpart, rfl⟩ := List.mem_map.mp hsegment
  rw [String.toList_ofList] at hc
  rw [← hpath]
  exact (part_intercalate hpart).subset hc

/-- The segments of a normalised path are names. -/
theorem IsNormalized.isName (hpath : IsNormalized path) :
    ∀ segment ∈ segments path, IsName segment := fun segment hsegment =>
  ⟨hpath.isNormal segment hsegment, slash_not_mem_of_mem_segments hsegment,
    fun hc => hpath.backslash_not_mem (mem_of_mem_segment hsegment hc)⟩

/-- So are its folders. -/
theorem IsNormalized.isName_folders (hpath : IsNormalized path) :
    ∀ folder ∈ folders path, IsName folder :=
  fun folder hfolder => hpath.isName folder (List.mem_of_mem_dropLast hfolder)

/-- A path is followed to the place that it was made of. -/
theorem IsPlace.reach_ofSegments (hplace : IsPlace place) (hne : place ≠ []) :
    Path.reach [] (ofSegments place) = place := by
  rw [Path.reach, segments_ofSegments hne hplace.slash_not_mem, hplace.foldl_eq_append,
    List.nil_append]

/-- The path to a place is normalised already. -/
theorem IsPlace.normalize_ofSegments (hplace : IsPlace place) (hne : place ≠ []) :
    normalize (ofSegments place) = ofSegments place := by
  have hbelow : StaysBelow (segments (ofSegments place)) := by
    rw [segments_ofSegments hne hplace.slash_not_mem]
    intro front hfront
    have hdots : ".." ∉ front := fun hmem =>
      (hplace.isNormal ".." (((List.mem_inits _ _).mp hfront).subset hmem)).2.2 rfl
    rw [List.count_eq_zero_of_not_mem hdots]
    exact Nat.zero_le _
  rw [normalize_of_staysBelow (isAbsolute_eq_false_iff.mpr hplace.stops_ofSegments) hbelow,
    hplace.reach_ofSegments hne, if_neg hne]

/-- What is in the path to a place is a slash or is in one of its names. -/
theorem mem_ofSegments {c : Char} (hc : c ∈ (ofSegments place).toList) :
    c = '/' ∨ ∃ segment ∈ place, c ∈ segment.toList := by
  induction place with
  | nil => simp [ofSegments] at hc
  | cons first place ih =>
    cases place with
    | nil => exact .inr ⟨first, List.mem_cons_self, by simpa [ofSegments] using hc⟩
    | cons next place =>
      rw [ofSegments_cons, String.toList_append, String.toList_append, List.mem_append,
        List.mem_append] at hc
      obtain (hfirst | hslash) | hrest := hc
      · exact .inr ⟨first, List.mem_cons_self, hfirst⟩
      · exact .inl (by simpa using hslash)
      · obtain hslash | ⟨segment, hsegment, hc⟩ := ih hrest
        · exact .inl hslash
        · exact .inr ⟨segment, List.mem_cons_of_mem _ hsegment, hc⟩

/-- Names make up a normalised path. -/
theorem isNormalized_ofSegments (hne : place ≠ []) (hnames : ∀ segment ∈ place, IsName segment) :
    IsNormalized (ofSegments place) := by
  refine ⟨?_, fun hmem => ?_⟩
  · rw [segments_ofSegments hne (isPlace_of_isName hnames).slash_not_mem]
    exact (isPlace_of_isName hnames).isNormal
  · obtain hslash | ⟨segment, hsegment, hc⟩ := mem_ofSegments hmem
    · exact absurd hslash (by decide)
    · exact (hnames segment hsegment).backslash_not_mem hc

/-- The path to a place below the root can be continued by a slash. -/
theorem IsPlace.join_of_relative (hplace : IsPlace place) (hne : place ≠ [])
    (hrelative : isAbsolute path = false) :
    join (ofSegments place) path = ofSegments place ++ "/" ++ path := by
  have hend : (ofSegments place).toList.getLast? ≠ some '/' := by
    rw [← List.head?_reverse]
    exact fun hlast => absurd (hplace.stops_reverse_ofSegments '/' hlast) (by decide)
  have hempty : ofSegments place ≠ "" := mt hplace.ofSegments_eq_empty_iff.mp hne
  rw [join, hrelative, if_neg Bool.false_ne_true, if_neg (by simp [hend, hempty])]

/-- A name is read from a place as the path with that name behind it. -/
theorem IsPlace.join_name (hplace : IsPlace place) (hname : '/' ∉ name.toList) :
    join (ofSegments place) name = ofSegments (place ++ [name]) := by
  by_cases hnone : place = []
  · subst hnone
    simp [join, isAbsolute_eq_false hname, ofSegments]
  · rw [hplace.join_of_relative hnone (isAbsolute_eq_false hname),
      ofSegments_append_singleton hnone]

/-- A folder at the top, a place below it and a name in that place make up one path. -/
theorem IsPlace.join_join (htop : IsPlace [top]) (hbelow : IsPlace below)
    (hname : '/' ∉ name.toList) :
    join (join top (ofSegments below)) name = ofSegments (top :: below ++ [name]) := by
  have hsingle : ofSegments [top] = top := by simp [ofSegments]
  have hfirst := htop.join_of_relative (List.cons_ne_nil _ _)
    (isAbsolute_eq_false_iff.mpr hbelow.stops_ofSegments)
  rw [hsingle] at hfirst
  rw [hfirst]
  cases below with
  | nil =>
    have hfolder : join (top ++ "/" ++ ofSegments []) name = top ++ "/" ++ name := by
      simp [join, isAbsolute_eq_false hname, ofSegments, String.toList_append]
    rw [hfolder, List.singleton_append, ofSegments_cons]
    simp [ofSegments]
  | cons next below =>
    have hplace : IsPlace (top :: next :: below) := htop.append hbelow
    rw [← ofSegments_cons, hplace.join_name hname]

/-- The file name of the path to a place is the last segment, and the others are its folders. -/
theorem IsPlace.folders_append (hplace : IsPlace (lead ++ [name])) :
    folders (ofSegments (lead ++ [name])) = lead ∧
      fileName (ofSegments (lead ++ [name])) = name := by
  have hne : lead ++ [name] ≠ [] := by simp
  rw [folders, fileName, segments_ofSegments hne hplace.slash_not_mem]
  simp

end Path

namespace Coverage

variable {place lead below above : List String}
  {path source base mark extension name folder top : String}

/-- A place of a test: it is made of names, and its path says that a test stands there. -/
structure IsTestPlace (place : List String) : Prop where
  ne_nil : place ≠ []
  isName : ∀ segment ∈ place, IsName segment
  isTest : isTestPath (ofSegments place) = true

/-- A path to such a place is classified as that of a test. -/
theorem IsTestPlace.categorize_eq (hplace : IsTestPlace place) :
    categorize (ofSegments place) = .test := by
  have hnormal := isNormalized_ofSegments hplace.ne_nil hplace.isName
  rw [categorize, forwardSlashes_eq_self hnormal.backslash_not_mem, if_pos hplace.isTest]

/-- What stands in a folder of tests is a test. -/
theorem isTestPlace_of_folder (hnames : ∀ segment ∈ lead ++ [name], IsName segment)
    (hmem : folder ∈ lead) (hfolder : folder ∈ testFolders) : IsTestPlace (lead ++ [name]) := by
  have hany : lead.any testFolders.contains = true :=
    List.any_eq_true.mpr ⟨folder, hmem, List.elem_eq_true_of_mem hfolder⟩
  refine ⟨by simp, hnames, ?_⟩
  rw [isTestPath, (isPlace_of_isName hnames).folders_append.1, hany]
  rfl

/-- A file is a test if its name has one of two marks in it. -/
theorem isTestPlace_of_mark (hnames : ∀ segment ∈ lead ++ [name], IsName segment)
    (hmark : ".test.".toList <:+: name.toList ∨ ".spec.".toList <:+: name.toList) :
    IsTestPlace (lead ++ [name]) := by
  have hmentions : mentions ".test." name = true ∨ mentions ".spec." name = true :=
    hmark.imp contains_iff_infix.mpr contains_iff_infix.mpr
  refine ⟨by simp, hnames, ?_⟩
  rw [isTestPath, (isPlace_of_isName hnames).folders_append.2]
  simp only [Bool.or_eq_true]
  exact .inl (hmentions.elim (fun h => .inl (.inr h)) .inr)

/-- What every extension of a test, and every mark before it, has in common. -/
theorem of_mem_testExtensions : ∀ extension ∈ testExtensions,
    (∃ rest, extension.toList = '.' :: rest) ∧ 3 ≤ extension.toList.length ∧
      '/' ∉ extension.toList ∧ '\\' ∉ extension.toList := by
  simp only [testExtensions, List.forall_mem_cons]
  exact ⟨⟨⟨_, rfl⟩, by decide⟩, ⟨⟨_, rfl⟩, by decide⟩, ⟨⟨_, rfl⟩, by decide⟩,
    ⟨⟨_, rfl⟩, by decide⟩, List.forall_mem_nil _⟩

/-- The marks of tests have neither slashes nor backslashes. -/
theorem of_mem_testMarks : ∀ mark ∈ testMarks, '/' ∉ mark.toList ∧ '\\' ∉ mark.toList := by
  decide

/-- A base with a mark and an extension is a name. -/
theorem isName_test (hslash : '/' ∉ base.toList) (hbackslash : '\\' ∉ base.toList)
    (hmark : mark ∈ testMarks) (hextension : extension ∈ testExtensions) :
    IsName (base ++ mark ++ extension) := by
  obtain ⟨-, hlength, hslash', hbackslash'⟩ := of_mem_testExtensions extension hextension
  obtain ⟨hslash'', hbackslash''⟩ := of_mem_testMarks mark hmark
  -- the extension alone is longer than the segments that lead nowhere or up
  have hlong (other : String) (hother : other.toList.length < 3) :
      base ++ mark ++ extension ≠ other := by
    rintro rfl
    simp only [String.toList_append, List.length_append] at hother
    omega
  refine ⟨⟨hlong "" (by decide), hlong "." (by decide), hlong ".." (by decide)⟩, ?_, ?_⟩
  · simp [String.toList_append, hslash, hslash', hslash'']
  · simp [String.toList_append, hbackslash, hbackslash', hbackslash'']

/-- The dot of the extension closes a mark. -/
theorem mark_stands (base : String) (hextension : extension ∈ testExtensions) (mark : String) :
    (mark ++ ".").toList <:+: (base ++ mark ++ extension).toList := by
  obtain ⟨⟨rest, hrest⟩, -⟩ := of_mem_testExtensions extension hextension
  exact ⟨base.toList, rest, by simp [String.toList_append, hrest]⟩

/-- A name with one of the marks is that of a test beside the source file. -/
theorem exists_place_beside (habove : ∀ segment ∈ above, IsName segment) (hname : IsName name)
    (hmark : ".test.".toList <:+: name.toList ∨ ".spec.".toList <:+: name.toList) :
    ∃ place, IsTestPlace place ∧ join (ofSegments above) name = ofSegments place :=
  ⟨_, isTestPlace_of_mark (isName_of_mem_append habove hname) hmark,
    (isPlace_of_isName habove).join_name hname.slash_not_mem⟩

/-- Any name is that of a test in a folder of tests beside the source file. -/
theorem exists_place_inFolder (habove : ∀ segment ∈ above, IsName segment) (hname : IsName name) :
    ∃ place, IsTestPlace place ∧
      join (join (ofSegments above) "__tests__") name = ofSegments place := by
  have hfolder : IsName "__tests__" := ⟨by decide, by decide, by decide⟩
  have hlead := isName_of_mem_append habove hfolder
  refine ⟨_, isTestPlace_of_folder (isName_of_mem_append hlead hname)
    (List.mem_append_right _ List.mem_cons_self) (by decide), ?_⟩
  rw [(isPlace_of_isName habove).join_name hfolder.slash_not_mem,
    (isPlace_of_isName hlead).join_name hname.slash_not_mem]

/-- Any name is that of a test in a folder of tests at the top. -/
theorem exists_place_atTop (htop : top ∈ topTestFolders)
    (hbelow : ∀ segment ∈ below, IsName segment) (hname : IsName name) :
    ∃ place, IsTestPlace place ∧ join (join top (ofSegments below)) name = ofSegments place := by
  have htops : ∀ top ∈ topTestFolders, top ∈ testFolders ∧ IsNormal top ∧
      '/' ∉ top.toList ∧ '\\' ∉ top.toList := by decide
  obtain ⟨hfolder, hnormal, hslash, hbackslash⟩ := htops top htop
  have hsingle : ∀ segment ∈ [top], IsName segment :=
    List.forall_mem_singleton.mpr ⟨hnormal, hslash, hbackslash⟩
  have hlead : ∀ segment ∈ top :: below, IsName segment :=
    List.forall_mem_append.mpr ⟨hsingle, hbelow⟩
  exact ⟨_, isTestPlace_of_folder (isName_of_mem_append hlead hname) List.mem_cons_self hfolder,
    (isPlace_of_isName hsingle).join_join (isPlace_of_isName hbelow) hname.slash_not_mem⟩

/-- Each expected test of one extension stands at a place of a test. -/
theorem exists_place_of_mem_candidatesWith (habove : ∀ segment ∈ above, IsName segment)
    (hbelow : ∀ segment ∈ below, IsName segment) (hslash : '/' ∉ base.toList)
    (hbackslash : '\\' ∉ base.toList) (hextension : extension ∈ testExtensions)
    (hpath : path ∈ candidatesWith (ofSegments above) (ofSegments below) base extension) :
    ∃ place, IsTestPlace place ∧ path = ofSegments place := by
  have hname {mark : String} (hmark : mark ∈ testMarks) : IsName (base ++ mark ++ extension) :=
    isName_test hslash hbackslash hmark hextension
  rw [candidatesWith, List.mem_append, List.mem_append] at hpath
  obtain (hpath | hpath) | hpath := hpath
  · simp only [List.mem_cons, List.not_mem_nil, or_false] at hpath
    obtain rfl | rfl := hpath
    · exact exists_place_beside habove (hname (by decide))
        (.inl (mark_stands base hextension ".test"))
    · exact exists_place_beside habove (hname (by decide))
        (.inr (mark_stands base hextension ".spec"))
  · obtain ⟨mark, hmark, rfl⟩ := List.mem_map.mp hpath
    exact exists_place_inFolder habove (hname hmark)
  · obtain ⟨top, htop, hpath⟩ := List.mem_flatMap.mp hpath
    obtain ⟨mark, hmark, rfl⟩ := List.mem_map.mp hpath
    exact exists_place_atTop htop hbelow (hname hmark)

/-- What is left of a file name without the extension has no slash of either kind. -/
theorem slash_not_mem_base (hsource : IsNormalized source) :
    '/' ∉ (withoutExtension (fileName source)).toList ∧
      '\\' ∉ (withoutExtension (fileName source)).toList := by
  have hmem : fileName source ∈ segments source := by simp [← folders_append_fileName]
  have hname := hsource.isName _ hmem
  have hbase := (withoutExtension_isPrefix (fileName source)).subset
  exact ⟨fun hc => hname.slash_not_mem (hbase hc), fun hc => hname.backslash_not_mem (hbase hc)⟩

/-- The folders below the source root are the last folders of the path. -/
theorem exists_below (hsource : IsNormalized source) :
    ∃ below, below <:+ folders source ∧ directory (belowSourceRoot source) = ofSegments below := by
  obtain ⟨below, hsuffix, hbelow⟩ := exists_belowSourceRoot_eq source
  have hnames : ∀ segment ∈ below ++ [fileName source], IsName segment := fun segment hsegment =>
    hsource.isName segment (by
      rw [← folders_append_fileName]
      exact (hsuffix.sublist.append (List.Sublist.refl _)).subset hsegment)
  have hfolders := (isPlace_of_isName hnames).folders_append.1
  refine ⟨below, hsuffix, ?_⟩
  rw [hbelow, directory_eq_ofSegments, hfolders]
  rw [hfolders]
  exact fun folder hfolder => (hnames folder (List.mem_append_left _ hfolder)).isNormal

/-- The expected tests of a normalised path are those of its folders and of the last of them. -/
theorem mem_candidates_iff (hsource : IsNormalized source) :
    path ∈ candidates source ↔ ∃ extension ∈ testExtensions,
      ∃ test ∈ candidatesWith (ofSegments (folders source)) (directory (belowSourceRoot source))
        (withoutExtension (fileName source)) extension, normalize test = path := by
  have hdirectory : directory source = ofSegments (folders source) :=
    directory_eq_ofSegments fun folder hfolder => (hsource.isName_folders folder hfolder).isNormal
  rw [candidates, forwardSlashes_eq_self hsource.backslash_not_mem, List.mem_eraseDups,
    List.mem_map, hdirectory]
  constructor
  · rintro ⟨test, htest, hpath⟩
    obtain ⟨extension, hextension, htest⟩ := List.mem_flatMap.mp htest
    exact ⟨extension, hextension, test, htest, hpath⟩
  · rintro ⟨extension, hextension, test, htest, hpath⟩
    exact ⟨test, List.mem_flatMap.mpr ⟨extension, hextension, htest⟩, hpath⟩

/-- The same for the extensions and the base of a normalised path. -/
theorem exists_place_of_isNormalized {test : String} (hsource : IsNormalized source)
    (hextension : extension ∈ testExtensions)
    (htest : test ∈ candidatesWith (ofSegments (folders source))
      (directory (belowSourceRoot source)) (withoutExtension (fileName source)) extension) :
    ∃ place, IsTestPlace place ∧ test = ofSegments place := by
  obtain ⟨hslash, hbackslash⟩ := slash_not_mem_base hsource
  obtain ⟨below, hsuffix, hbelow⟩ := exists_below hsource
  have hfolders := hsource.isName_folders
  rw [hbelow] at htest
  exact exists_place_of_mem_candidatesWith hfolders
    (fun folder hfolder => hfolders folder (hsuffix.subset hfolder)) hslash hbackslash hextension
    htest

/-- The expected tests of a normalised path are normalised as they are put together. -/
theorem mem_candidates_iff_exists_mem (hsource : IsNormalized source) :
    path ∈ candidates source ↔ ∃ extension ∈ testExtensions,
      path ∈ candidatesWith (ofSegments (folders source)) (directory (belowSourceRoot source))
        (withoutExtension (fileName source)) extension := by
  rw [mem_candidates_iff hsource]
  refine exists_congr fun extension => and_congr_right fun hextension => ?_
  have hnormal : ∀ test ∈ candidatesWith (ofSegments (folders source))
      (directory (belowSourceRoot source)) (withoutExtension (fileName source)) extension,
      normalize test = test := by
    intro test htest
    obtain ⟨place, hplace, rfl⟩ := exists_place_of_isNormalized hsource hextension htest
    exact (isPlace_of_isName hplace.isName).normalize_ofSegments hplace.ne_nil
  constructor
  · rintro ⟨test, htest, rfl⟩
    rwa [hnormal test htest]
  · exact fun htest => ⟨path, htest, hnormal path htest⟩

/-- Every expected test stands at a place of a test. -/
theorem exists_place_of_mem_candidates (hsource : IsNormalized source)
    (hpath : path ∈ candidates source) : ∃ place, IsTestPlace place ∧ path = ofSegments place := by
  obtain ⟨extension, hextension, htest⟩ := (mem_candidates_iff_exists_mem hsource).mp hpath
  exact exists_place_of_isNormalized hsource hextension htest

/-- The tests of a source file with a normalised path are expected at different normalised paths
below the root, which are classified as tests and are not that of the source file; a changed file at
one of them is among the changed tests. There is one with each extension beside the source file. -/
theorem candidates_of_isNormalized (hsource : IsNormalized source) :
    (candidates source).Nodup ∧
      (∀ test ∈ candidates source, IsNormalized test ∧ normalize test = test ∧
        isAbsolute test = false ∧ categorize test = .test ∧
        (categorize source = .source → test ≠ source)) ∧
      (∀ extension ∈ testExtensions,
        ofSegments (folders source ++
          [withoutExtension (fileName source) ++ ".test" ++ extension]) ∈ candidates source) ∧
      ∀ changed : List ChangedFile, (∀ file ∈ changed, file.category = categorize file.path) →
        ∀ file ∈ changed, file.path ∈ candidates source → file.path ∈ testPaths changed := by
  have htest {test : String} (hmem : test ∈ candidates source) : categorize test = .test := by
    obtain ⟨place, hplace, rfl⟩ := exists_place_of_mem_candidates hsource hmem
    exact hplace.categorize_eq
  refine ⟨nodup_eraseDups _, fun test hmem => ?_, fun extension hextension => ?_,
    fun changed hclass file hfile hmem => ?_⟩
  · obtain ⟨place, hplace, rfl⟩ := exists_place_of_mem_candidates hsource hmem
    have hnames := isPlace_of_isName hplace.isName
    refine ⟨isNormalized_ofSegments hplace.ne_nil hplace.isName,
      hnames.normalize_ofSegments hplace.ne_nil,
      isAbsolute_eq_false_iff.mpr hnames.stops_ofSegments, hplace.categorize_eq,
      fun hcategory hsame => ?_⟩
    rw [← hsame, hplace.categorize_eq] at hcategory
    cases hcategory
  · obtain ⟨hslash, hbackslash⟩ := slash_not_mem_base hsource
    have hfolders := hsource.isName_folders
    have hname : IsName (withoutExtension (fileName source) ++ ".test" ++ extension) :=
      isName_test hslash hbackslash (by decide) hextension
    have hnames := isName_of_mem_append hfolders hname
    refine (mem_candidates_iff hsource).mpr ⟨extension, hextension, _,
      List.mem_append_left _ (List.mem_append_left _ List.mem_cons_self), ?_⟩
    rw [(isPlace_of_isName hfolders).join_name hname.slash_not_mem,
      (isPlace_of_isName hnames).normalize_ofSegments (by simp)]
  · exact List.mem_map.mpr ⟨file, List.mem_filter.mpr
      ⟨hfile, decide_eq_true ((hclass file hfile).trans (htest hmem))⟩, rfl⟩

/-- A source file below two source roots, with a dot in its name, is tested below the last `src`. -/
theorem candidates_nestedView :
    IsNormalized "lib/src/ui/view.model.ts" ∧
      "tests/ui/view.model.spec.tsx" ∈ candidates "lib/src/ui/view.model.ts" ∧
      categorize "tests/ui/view.model.spec.tsx" = .test ∧
      "tests/ui/view.model.spec.tsx" ≠ "lib/src/ui/view.model.ts" := by
  have hsource : IsNormalized "lib/src/ui/view.model.ts" := by decide
  have hmem : "tests/ui/view.model.spec.tsx" ∈ candidates "lib/src/ui/view.model.ts" :=
    (mem_candidates_iff hsource).mpr ⟨".tsx", by decide, "tests/ui/view.model.spec.tsx",
      by decide +kernel, by decide +kernel⟩
  obtain ⟨-, htests, -⟩ := candidates_of_isNormalized hsource
  obtain ⟨-, -, -, hcategory, hother⟩ := htests _ hmem
  exact ⟨hsource, hmem, hcategory, hother (by decide +kernel)⟩

end Coverage

end ChangeImpact
