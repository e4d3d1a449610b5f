import ChangeImpact.Proofs.ConfigText
import ChangeImpact.Proofs.FolderPlaces

/-!
# Saved configurations

A configuration that is saved below a root is loaded from there, whatever was there before. It is
saved exactly if neither a file nor a long name is in the way of its folder, no folder in the way of
its file, its path not too long and its numbers not too large to be written. The root may be named
by any path, from the top or from the working directory, and inside of it or not.
-/

namespace ChangeImpact

open Text ChangeImpact.Path Directory

/-! ### Routes to the configuration file -/

/-- The root that the path to a place names, where the working directory is the top. -/
theorem Root.ofPath_ofSegments {place : List String} (hplace : IsPlace place) (hne : place ≠ []) :
    Root.ofPath "/" (ofSegments place) = ⟨ofSegments place, place⟩ := by
  have hrelative : isAbsolute (ofSegments place) = false :=
    isAbsolute_eq_false_iff.mpr hplace.stops_ofSegments
  have hsegments : segments (ofSegments place) = place :=
    segments_ofSegments hne hplace.slash_not_mem
  have hfilter : (place.filter fun part => part != "" && part != ".") = place := by
    refine List.filter_eq_self.mpr fun part hpart => ?_
    obtain ⟨hempty, hdot, -⟩ := hplace.isNormal part hpart
    simp [hempty, hdot]
  have htidy : tidy (ofSegments place) = ofSegments place := by
    have hnot : (ofSegments place).isEmpty = false := by
      simpa [hplace.ofSegments_eq_empty_iff] using hne
    rw [tidy, hsegments, hfilter, rootMark_of_relative hrelative, String.empty_append]
    simp [hnot]
  have hjoin : join "/" (ofSegments place) = "/" ++ ofSegments place := by
    simp [join, hrelative]
  rw [Root.ofPath, htidy, hjoin, segments_slash, hsegments, List.filter_cons_of_neg (by decide),
    hfilter]

namespace ProjectConfig

variable {root : Root} {tree folders saved : Directory} {config : ProjectConfig}

/-- The folder of the configuration file has an ordinary name. -/
theorem isNormal_folderName : IsNormal folderName := by decide

/-- The configuration file has an ordinary name. -/
theorem isNormal_fileName : IsNormal fileName := by decide

/-- A route to a root goes on to the folder of its configuration file. -/
theorem isRoute_folder (hroute : IsRoute root.place) : IsRoute (root.place ++ [folderName]) :=
  hroute.concat isNormal_folderName (by decide)

/-- It goes on to the file. -/
theorem isRoute_file (hroute : IsRoute root.place) :
    IsRoute (root.place ++ [folderName] ++ [fileName]) :=
  (isRoute_folder hroute).concat isNormal_fileName (by decide)

/-- The path of the folder is shorter than that of the file in it. -/
theorem byteLength_folder_le (root : Root) :
    byteLength (root.pathOf [folderName]) ≤ byteLength (root.pathOf [folderName, fileName]) := by
  have hfolder : isAbsolute folderName = false := by decide
  have hfile : isAbsolute (folderName ++ "/" ++ fileName) = false := by decide
  have hpath : root.pathOf [folderName, fileName] =
      root.pathOf [folderName] ++ "/" ++ fileName := by
    have hsingle : ofSegments [folderName] = folderName := rfl
    have hpair : ofSegments [folderName, fileName] = folderName ++ "/" ++ fileName := rfl
    simp only [Root.pathOf, List.isEmpty_cons, Bool.false_eq_true, if_false, hsingle, hpair, join,
      hfolder, hfile]
    split_ifs <;> simp [String.append_assoc]
  rw [hpath, byteLength_append, byteLength_append]
  omega

/-- The place of the configuration file of a root. -/
def filePlace (root : Root) : List String := target (root.place ++ [folderName, fileName])

/-- The file stands in its folder. -/
theorem filePlace_eq (root : Root) :
    filePlace root = target (root.place ++ [folderName]) ++ [fileName] := by
  rw [filePlace, ← List.singleton_append, ← List.append_assoc, target_concat,
    follow_name isNormal_fileName]

/-! ### Saving and loading -/

/-- What is looked up at the place of the configuration file once its folder is there. -/
theorem map_locate (hroute : IsRoute root.place)
    (hfolder : folders.find (root.place ++ [folderName]) = .ok .folder) :
    (root.locate folders [folderName, fileName]).map Entry.kind =
      if maxPathBytes < byteLength (root.pathOf [folderName, fileName]) then .error .nameTooLong
      else match folders.kind? (filePlace root) with
        | none => .error .notFound
        | some kind => .ok kind := by
  have hplace : root.place ++ [folderName] ++ [fileName] =
      root.place ++ [folderName, fileName] := by simp
  have hstep := find_concat folders (isRoute_file hroute)
  have hshort : isLongName fileName = false := by decide
  rw [hfolder, hshort, hplace] at hstep
  rw [Root.locate, Root.lookUp]
  by_cases hlong : maxPathBytes < byteLength (root.pathOf [folderName, fileName])
  · rw [if_pos hlong, if_pos hlong]
    rfl
  · rw [if_neg hlong, if_neg hlong]
    exact hstep

/-- Whether the file can be written depends only on the kind of what is found in its place. -/
theorem write_eq_of_kind (located : Except FileFault Entry) (written : Directory) :
    (match located with
      | .error .nameTooLong => .error (.file .nameTooLong)
      | .ok (.folder _) => .error (.file .isDirectory)
      | _ => .ok written : Except Failure Directory) =
      match located.map Entry.kind with
      | .error .nameTooLong => .error (.file .nameTooLong)
      | .ok .folder => .error (.file .isDirectory)
      | _ => .ok written := by
  cases located with
  | error fault => cases fault <;> rfl
  | ok entry => cases entry <;> rfl

/-- The folders of a configuration file are made first, then the file is written if neither its path
is too long nor a folder stands in its place. -/
theorem save_eq (hroute : IsRoute root.place) (tree : Directory) (config : ProjectConfig) :
    save root tree config =
      if maxPathBytes < byteLength (root.pathOf [folderName]) then .error (.file .nameTooLong)
      else (ofFiles (tree.keepFolders (root.place ++ [folderName]).reverse)).bind fun folders =>
        match config.fileText? with
        | none => .error .badNumber
        | some text =>
          if maxPathBytes < byteLength (root.pathOf [folderName, fileName]) then
            .error (.file .nameTooLong)
          else if folders.kind? (filePlace root) = some .folder then .error (.file .isDirectory)
          else .ok (folders.insert (.file (Utf8.encode text.toList)) (filePlace root)) := by
  have hmade := keepFolders_reverse tree (isRoute_folder hroute)
  unfold save
  simp only [bind, throw, throwThe, MonadExceptOf.throw, pure, Except.pure]
  by_cases hlong : maxPathBytes < byteLength (root.pathOf [folderName])
  · rw [if_pos hlong, if_pos hlong]
    rfl
  rw [if_neg hlong, if_neg hlong]
  cases hfolders : tree.keepFolders (root.place ++ [folderName]).reverse with
  | error fault => rfl
  | ok folders =>
    rw [hfolders] at hmade
    have hlocate := map_locate hroute hmade.find_eq
    simp only [ofFiles, Except.mapError, Except.bind]
    cases config.fileText? with
    | none => rfl
    | some text =>
      simp only [(isRoute_folder hroute).walk_eq, ← filePlace_eq]
      refine (write_eq_of_kind _ _).trans ?_
      rw [hlocate]
      split_ifs with hpath hkind
      · rfl
      · rw [hkind]
      · cases hfound : folders.kind? (filePlace root) with
        | none => rfl
        | some kind =>
          cases kind with
          | file content => rfl
          | folder => exact absurd hfound hkind

/-- When a configuration is saved, and as what. -/
theorem save_eq_ok_iff (hroute : IsRoute root.place) :
    save root tree config = .ok saved ↔
      byteLength (root.pathOf [folderName, fileName]) ≤ maxPathBytes ∧
      ∃ text, config.fileText? = some text ∧
        ∃ folders, tree.keepFolders (root.place ++ [folderName]).reverse = .ok folders ∧
          folders.kind? (filePlace root) ≠ some .folder ∧
          folders.insert (.file (Utf8.encode text.toList)) (filePlace root) = saved := by
  have hshorter := byteLength_folder_le root
  rw [save_eq hroute]
  cases hfolders : tree.keepFolders (root.place ++ [folderName]).reverse with
  | error fault =>
    simp only [ofFiles, Except.mapError, Except.bind]
    split_ifs <;> simp
  | ok folders =>
    cases htext : config.fileText? with
    | none =>
      simp only [ofFiles, Except.mapError, Except.bind]
      split_ifs <;> simp
    | some text =>
      simp only [ofFiles, Except.mapError, Except.bind, Except.ok.injEq, exists_eq_left',
        Option.some.injEq]
      split_ifs with hlong hpath hfolder
      · simp
        omega
      · simp
        omega
      · simp [hfolder]
      · simp [hfolder]
        omega

/-- A tree in which the configuration file of a root can be written: nothing bars the way to its
folder, which does not lead through the place of the file, no folder stands at that place, and its
path is not too long. -/
structure CanHold (tree : Directory) (root : Root) : Prop where
  free : tree.IsFree (root.place ++ [folderName])
  apart : ∀ front, front <+: root.place ++ [folderName] → target front ≠ filePlace root
  noFolder : tree.kind? (filePlace root) ≠ some .folder
  short : byteLength (root.pathOf [folderName, fileName]) ≤ maxPathBytes

instance (tree : Directory) (root : Root) : Decidable (CanHold tree root) :=
  decidable_of_iff (tree.IsFree (root.place ++ [folderName]) ∧
      (∀ front ∈ (root.place ++ [folderName]).inits, target front ≠ filePlace root) ∧
      tree.kind? (filePlace root) ≠ some .folder ∧
      byteLength (root.pathOf [folderName, fileName]) ≤ maxPathBytes)
    ⟨fun h => ⟨h.1, fun front hfront => h.2.1 front ((List.mem_inits _ _).mpr hfront), h.2.2.1,
        h.2.2.2⟩,
      fun h => ⟨h.free, fun front hfront => h.apart front ((List.mem_inits _ _).mp hfront),
        h.noFolder, h.short⟩⟩

/-- Folders along the way leave room for the file exactly if the tree could hold it. -/
theorem kind?_filePlace_ne_iff (hroute : IsRoute root.place)
    (hmade : Made tree (root.place ++ [folderName]) folders) :
    folders.kind? (filePlace root) ≠ some .folder ↔
      (∀ front, front <+: root.place ++ [folderName] → target front ≠ filePlace root) ∧
        tree.kind? (filePlace root) ≠ some .folder := by
  constructor
  · intro hkind
    have hapart (front : List String) (hfront : front <+: root.place ++ [folderName]) :
        target front ≠ filePlace root := by
      intro htarget
      exact hkind (htarget ▸ hmade.kind?_target (isRoute_folder hroute) hfront)
    exact ⟨hapart, hmade.kind?_eq _ hapart ▸ hkind⟩
  · rintro ⟨hapart, hkind⟩
    rwa [hmade.kind?_eq _ hapart]

/-- A configuration is saved exactly in a tree that can hold it, if its numbers can be written. -/
theorem exists_save_iff (hroute : IsRoute root.place) :
    (∃ saved, save root tree config = .ok saved) ↔
      CanHold tree root ∧ config.scan.batchSize < countLimit ∧ config.maxDepth < countLimit := by
  have hmade := keepFolders_reverse tree (isRoute_folder hroute)
  simp only [save_eq_ok_iff hroute]
  constructor
  · rintro ⟨saved, hshort, text, htext, folders, hfolders, hkind, -⟩
    rw [hfolders] at hmade
    obtain ⟨hapart, hnoFolder⟩ := (kind?_filePlace_ne_iff hroute hmade).mp hkind
    exact ⟨⟨hmade.free, hapart, hnoFolder, hshort⟩, exists_fileText?_iff.mp ⟨text, htext⟩⟩
  · rintro ⟨hhold, hnumbers⟩
    obtain ⟨text, htext⟩ := exists_fileText?_iff.mpr hnumbers
    cases hfolders : tree.keepFolders (root.place ++ [folderName]).reverse with
    | error fault =>
      rw [hfolders] at hmade
      exact absurd hhold.free hmade
    | ok folders =>
      rw [hfolders] at hmade
      exact ⟨_, hhold.short, text, htext, folders, rfl,
        (kind?_filePlace_ne_iff hroute hmade).mpr ⟨hhold.apart, hhold.noFolder⟩, rfl⟩

/-- The written file is found in the tree. -/
theorem locate_insert (hroute : IsRoute root.place)
    (hmade : Made tree (root.place ++ [folderName]) folders)
    (hshort : byteLength (root.pathOf [folderName, fileName]) ≤ maxPathBytes)
    (hkind : folders.kind? (filePlace root) ≠ some .folder) (content : Bytes) :
    root.locate (folders.insert (.file content) (filePlace root)) [folderName, fileName] =
      .ok (.file content) := by
  have hfolders := (find_eq_folder_iff (isRoute_folder hroute)).mp hmade.find_eq
  have hnew (place : List String) :
      (folders.insert (.file content) (filePlace root)).kind? place =
        if place = filePlace root then some (.file content) else folders.kind? place := by
    have hbare : (Entry.file content).IsBare := trivial
    rw [filePlace_eq] at hkind ⊢
    exact kind?_insert (hfolders.2 _ List.prefix_rfl) hkind hbare place
  have hfind : (folders.insert (.file content) (filePlace root)).find
      (root.place ++ [folderName]) = .ok .folder := by
    refine (find_eq_folder_iff (isRoute_folder hroute)).mpr
      ⟨hfolders.1, fun front hfront => ?_⟩
    rw [hnew, if_neg, hfolders.2 front hfront]
    rintro htarget
    exact hkind (htarget ▸ hfolders.2 front hfront)
  have hlocate := map_locate hroute hfind
  rw [if_neg (by omega), hnew, if_pos rfl] at hlocate
  cases hfound : root.locate (folders.insert (.file content) (filePlace root))
      [folderName, fileName] with
  | error fault => simp [hfound, Except.map] at hlocate
  | ok entry => cases entry <;> simp_all [Except.map, Entry.kind]

/-- A saved configuration is loaded. -/
theorem load_of_save (hroute : IsRoute root.place) (hbatch : 1 ≤ config.scan.batchSize)
    (hsave : save root tree config = .ok saved) : load root saved = .ok config := by
  obtain ⟨hshort, text, htext, folders, hfolders, hkind, rfl⟩ := (save_eq_ok_iff hroute).mp hsave
  have hmade := keepFolders_reverse tree (isRoute_folder hroute)
  rw [hfolders] at hmade
  rw [load, locate_insert hroute hmade hshort hkind]
  exact congrArg (Except.mapError _) (ofContent_fileText? hbatch htext)

/-! ### Configurations that are kept -/

/-- A configuration is saved below the root that a path names in the working directory `here`, and
comes back when it is loaded. -/
def IsKept (tree : Directory) (here path : String) (config : ProjectConfig) : Prop :=
  ∃ saved, save (Root.ofPath here path) tree config = .ok saved ∧
    load (Root.ofPath here path) saved = .ok config

variable {here path : String}

/-- A tree with a file that is no text in the place of a configuration file. -/
def brokenTree : Directory :=
  .folder "work" .empty (.folder "srv" (.folder "repo"
    (.folder ".primpact" (.file "config.json" [255] .empty) .empty) .empty) .empty)

/-- No file stands in the place of the folder and no folder in that of the configuration file. -/
def IsClear (tree : Directory) (root : Root) : Prop :=
  (tree.kind? (target (root.place ++ [folderName])) = some .folder ∨
    tree.kind? (target (root.place ++ [folderName])) = none) ∧
  tree.kind? (filePlace root) ≠ some .folder

instance (tree : Directory) (root : Root) : Decidable (IsClear tree root) :=
  inferInstanceAs (Decidable (_ ∧ _))

/-- Nothing is kept in a tree that cannot hold it. -/
theorem not_isKept (hhold : ¬ CanHold tree (Root.ofPath here path)) :
    ¬ IsKept tree here path config := by
  rintro ⟨saved, hsave, -⟩
  exact hhold ((exists_save_iff (Root.isRoute_ofPath here path)).mp ⟨saved, hsave⟩).1

/-- Nothing is in the way in an empty tree. -/
theorem isClear_empty (root : Root) : IsClear .empty root := by
  rw [IsClear, filePlace_eq, target_concat, follow_name isNormal_folderName,
    kind?_empty (by simp), kind?_empty (by simp)]
  simp

/-- A name made of a letter. -/
def letters (count : ℕ) : String := String.ofList (List.replicate count 'a')

/-- A path made of one name again and again. -/
def nested (folders count : ℕ) : String := ofSegments (List.replicate folders (letters count))

/-- Such a name has a byte for each letter. -/
theorem byteLength_letters (count : ℕ) : byteLength (letters count) = count := by
  have hletter : (String.utf8EncodeChar 'a').length = 1 := by decide
  rw [letters, byteLength_ofList, Utf8.encode, List.length_flatMap, List.map_replicate, hletter]
  simp

/-- Such names lead down to a place. -/
theorem isPlace_letters (folders : ℕ) {count : ℕ} (hcount : 2 < count) :
    IsPlace (List.replicate folders (letters count)) := by
  have hnormal : IsNormal (letters count) := by
    have hlonger {other : String} (hother : byteLength other ≤ 2) : letters count ≠ other := by
      rintro rfl
      rw [byteLength_letters] at hother
      omega
    exact ⟨hlonger (by decide), hlonger (by decide), hlonger (by decide)⟩
  have hslash : '/' ∉ (letters count).toList := by
    simp [letters, List.mem_replicate]
  exact ⟨fun name hname => List.eq_of_mem_replicate hname ▸ hnormal,
    fun name hname => List.eq_of_mem_replicate hname ▸ hslash⟩

/-- Nothing is kept below a folder with too long a name, nor below so many folders that the path is
too long. -/
theorem not_isKept_nested {folders count : ℕ} (hfolders : 0 < folders) (hcount : 2 < count)
    (hlong : maxNameBytes < count ∨ maxPathBytes < folders * (count + 1)) :
    ¬ IsKept tree "/" (nested folders count) config := by
  have hplace := isPlace_letters folders hcount
  have hroot : Root.ofPath "/" (nested folders count) =
      ⟨nested folders count, List.replicate folders (letters count)⟩ :=
    Root.ofPath_ofSegments hplace (by simp; omega)
  refine not_isKept fun hhold => ?_
  rw [hroot] at hhold
  obtain hname | hpath := hlong
  · have hshort := hhold.free.short (letters count) (by simp [hfolders.ne'])
    rw [isLongName, byteLength_letters, decide_eq_false_iff_not] at hshort
    exact hshort hname
  · have hlength : byteLength (nested folders count) + 1 = folders * (count + 1) := by
      rw [nested, byteLength_ofSegments_add_one (by simp; omega)]
      simp [slashedLength, byteLength_letters]
    have hlabel : nested folders count ≠ "." := by
      intro hdot
      have hone : byteLength "." = 1 := by decide
      rw [hdot, hone] at hlength
      rw [← hlength] at hpath
      exact absurd hpath (by decide)
    have hshort : byteLength (join (nested folders count) (ofSegments [folderName, fileName])) ≤
        maxPathBytes := by
      simpa [Root.pathOf, hlabel] using hhold.short
    have hjoin := byteLength_le_join (nested folders count)
      (show isAbsolute (ofSegments [folderName, fileName]) = false by decide)
    have hfile : byteLength (ofSegments [folderName, fileName]) = 21 := by decide
    omega

end ProjectConfig

end ChangeImpact
