import ChangeImpact.Files.Directory
import ChangeImpact.Proofs.ConfigScore
import ChangeImpact.Proofs.Marks
import Mathlib.Algebra.Order.BigOperators.Group.List
import Mathlib.Algebra.Order.Ring.Nat

/-!
# Lengths of paths and of the names in them

The file system counts the bytes of a path and of each name in it. A path that is joined, normalised
or cut has no names but those of its parts, and hardly more bytes than these together.
-/

namespace ChangeImpact

open Text ChangeImpact.Path

/-! ### Numbers of bytes -/

/-- The bytes of a string are those of its characters. -/
theorem byteLength_ofList (text : List Char) :
    byteLength (String.ofList text) = (Utf8.encode text).length := by
  rw [byteLength, String.toList_ofList]

/-- Two texts have as many bytes together as each on its own. -/
theorem byteLength_append (first second : String) :
    byteLength (first ++ second) = byteLength first + byteLength second := by
  simp only [byteLength, String.toList_append, Utf8.encode, List.flatMap_append, List.length_append]

/-- What stands in a text has no more bytes than the text. -/
theorem length_encode_le_of_part {part text : List Char} (hpart : part <:+: text) :
    (Utf8.encode part).length ≤ (Utf8.encode text).length := by
  obtain ⟨before, after, rfl⟩ := hpart
  simp only [Utf8.encode, List.flatMap_append, List.length_append]
  omega

/-- Slashes take as many bytes as backslashes. -/
theorem byteLength_forwardSlashes (path : String) :
    byteLength (forwardSlashes path) = byteLength path := by
  rw [forwardSlashes, byteLength_ofList, byteLength, replaceChar]
  induction path.toList with
  | nil => rfl
  | cons c text ih =>
    have hsame : (String.utf8EncodeChar (if c = '\\' then '/' else c)).length =
        (String.utf8EncodeChar c).length := by
      split
      case isTrue h =>
        rw [h]
        rfl
      case isFalse => rfl
    simp only [Utf8.encode, List.map_cons, List.flatMap_cons, List.length_append] at ih ⊢
    rw [hsame, ih]

/-- The bytes of some segments, each with a slash. -/
def slashedLength (parts : List String) : ℕ := (parts.map fun part => byteLength part + 1).sum

/-- Some of the segments have no more bytes than all of them. -/
theorem slashedLength_le_of_sublist {some all : List String} (hsome : some.Sublist all) :
    slashedLength some ≤ slashedLength all :=
  (hsome.map _).sum_le_sum fun _ _ => Nat.zero_le _

/-- The first segment comes before the others, with a slash between. -/
theorem ofSegments_cons (first next : String) (rest : List String) :
    ofSegments (first :: next :: rest) = first ++ "/" ++ ofSegments (next :: rest) := by
  rw [ofSegments, String.intercalate_cons_cons]
  rfl

/-- A path of some segments has a slash less than they have with one each. -/
theorem byteLength_ofSegments_add_one {parts : List String} (hparts : parts ≠ []) :
    byteLength (ofSegments parts) + 1 = slashedLength parts := by
  induction parts with
  | nil => exact absurd rfl hparts
  | cons part parts ih =>
    cases parts with
    | nil => simp [ofSegments, slashedLength]
    | cons next parts =>
      have hslash : byteLength "/" = 1 := by decide
      rw [ofSegments_cons, byteLength_append, byteLength_append, hslash, Nat.add_assoc,
        ih (List.cons_ne_nil next parts)]
      rfl

/-- A path is not longer than its segments with a slash each. -/
theorem byteLength_ofSegments_le (parts : List String) :
    byteLength (ofSegments parts) ≤ slashedLength parts := by
  cases parts with
  | nil => decide
  | cons part parts =>
    rw [← byteLength_ofSegments_add_one (List.cons_ne_nil part parts)]
    exact Nat.le_succ _

/-- A path is made of its segments. -/
theorem ofSegments_segments (path : String) : ofSegments (segments path) = path := by
  have htexts : (segments path).map String.toList = path.toList.splitOn '/' := by
    simp [segments]
  rw [← String.toList_inj, ofSegments, String.toList_intercalate, htexts]
  exact List.intercalate_splitOn '/'

/-- The segments of a path are its folders and its file name. -/
theorem folders_append_fileName (path : String) :
    folders path ++ [fileName path] = segments path := by
  have hparts : segments path ≠ [] := by simp [segments, List.splitOn_ne_nil]
  have hname : fileName path = (segments path).getLast hparts := by
    rw [fileName, List.getLastD_eq_getLast?, List.getLast?_eq_some_getLast hparts]
    rfl
  rw [folders, hname, List.dropLast_append_getLast]

/-- The segments of a path have one slash more than the path. -/
theorem slashedLength_segments (path : String) :
    slashedLength (segments path) = byteLength path + 1 := by
  have hparts : segments path ≠ [] := by simp [segments, List.splitOn_ne_nil]
  rw [← byteLength_ofSegments_add_one hparts, ofSegments_segments]

/-! ### Names in a path -/

/-- A text between slashes of which there are no more bytes than a bound. -/
def NamesUpTo (bound : ℕ) (text : List Char) : Prop :=
  ∀ name, '/' ∉ name → name <:+: text → (Utf8.encode name).length ≤ bound

variable {bound : ℕ} {text part left right : List Char}

/-- The names in a part of a text are not longer than those in the text. -/
theorem NamesUpTo.of_part (htext : NamesUpTo bound text) (hpart : part <:+: text) :
    NamesUpTo bound part :=
  fun name hslash hname => htext name hslash (hname.trans hpart)

/-- No name in a text has more bytes than the text. -/
theorem namesUpTo_of_length (hlength : (Utf8.encode text).length ≤ bound) : NamesUpTo bound text :=
  fun _ _ hname => (length_encode_le_of_part hname).trans hlength

/-- A slash keeps names apart. -/
theorem namesUpTo_append_cons :
    NamesUpTo bound (left ++ '/' :: right) ↔ NamesUpTo bound left ∧ NamesUpTo bound right := by
  constructor
  · intro hnames
    exact ⟨hnames.of_part (List.infix_append' [] left _),
      hnames.of_part ⟨left ++ ['/'], [], by simp⟩⟩
  · rintro ⟨hleft, hright⟩ name hslash hname
    by_contra hlong
    have hapart : Without name (left ++ '/' :: right) := (without_append_cons hslash).mpr
      ⟨fun h => hlong (hleft name hslash h), fun h => hlong (hright name hslash h)⟩
    exact hapart hname

/-- Every segment stands in the path that is made of the segments. -/
theorem part_intercalate {parts : List (List Char)} (hpart : part ∈ parts) :
    part <:+: ['/'].intercalate parts := by
  induction parts with
  | nil => cases hpart
  | cons first parts ih =>
    cases parts with
    | nil =>
      obtain rfl := List.mem_singleton.mp hpart
      rw [List.intercalate_singleton]
    | cons next parts =>
      rw [List.intercalate_cons_cons]
      obtain rfl | hpart := List.mem_cons.mp hpart
      · rw [List.append_assoc]
        exact List.infix_append' [] part _
      · exact (ih hpart).trans (List.suffix_append _ _).isInfix

/-- The names in a path are bounded as those in its segments are. -/
theorem namesUpTo_intercalate {parts : List (List Char)}
    (hparts : ∀ part ∈ parts, NamesUpTo bound part) :
    NamesUpTo bound (['/'].intercalate parts) := by
  induction parts with
  | nil => exact namesUpTo_of_length (Nat.zero_le _)
  | cons part parts ih =>
    rw [List.forall_mem_cons] at hparts
    cases parts with
    | nil => simpa using hparts.1
    | cons next parts =>
      rw [List.intercalate_cons_cons, List.append_assoc, List.singleton_append]
      exact namesUpTo_append_cons.mpr ⟨hparts.1, ih hparts.2⟩

/-- No text between slashes holds a slash. -/
theorem not_mem_of_mem_splitOn (hpart : part ∈ text.splitOn '/') : '/' ∉ part := by
  induction text generalizing part with
  | nil =>
    obtain rfl : part = [] := by simpa using hpart
    exact List.not_mem_nil
  | cons c text ih =>
    rw [List.splitOn_cons_eq_if_modifyHead] at hpart
    split at hpart
    case isTrue hslash =>
      obtain rfl | hpart := List.mem_cons.mp hpart
      · exact List.not_mem_nil
      · exact ih hpart
    case isFalse hslash =>
      cases hparts : text.splitOn '/' with
      | nil => simp [hparts] at hpart
      | cons first rest =>
        rw [hparts, List.modifyHead_cons] at hpart
        obtain rfl | hpart := List.mem_cons.mp hpart
        · have hfirst := ih (hparts ▸ List.mem_cons_self)
          rw [List.mem_cons, not_or]
          exact ⟨fun h => hslash (by simp [← h]), hfirst⟩
        · exact ih (hparts ▸ List.mem_cons_of_mem first hpart)

/-- The names in a path are its segments. -/
theorem namesUpTo_iff (path : String) :
    NamesUpTo bound path.toList ↔ ∀ name ∈ segments path, byteLength name ≤ bound := by
  have hpath : ['/'].intercalate (path.toList.splitOn '/') = path.toList :=
    List.intercalate_splitOn '/'
  rw [segments, List.forall_mem_map]
  constructor
  · intro hnames part hpart
    have hstands : part <:+: ['/'].intercalate (path.toList.splitOn '/') :=
      part_intercalate hpart
    rw [hpath] at hstands
    rw [byteLength_ofList]
    exact hnames part (not_mem_of_mem_splitOn hpart) hstands
  · intro hparts
    rw [← hpath]
    refine namesUpTo_intercalate fun part hpart => namesUpTo_of_length ?_
    rw [← byteLength_ofList]
    exact hparts part hpart

/-! ### Paths that are put together -/

namespace Path

/-- A path whose names have at most so many bytes each, and that has at most so many bytes. -/
structure Fits (names bytes : ℕ) (path : String) : Prop where
  names : NamesUpTo names path.toList
  bytes : byteLength path ≤ bytes

variable {names bytes more : ℕ} {path first second : String} {parts : List String}

/-- A path that fits also fits with more room. -/
theorem Fits.mono (hpath : Fits names bytes path) (hbytes : bytes ≤ more) : Fits names more path :=
  ⟨hpath.names, hpath.bytes.trans hbytes⟩

/-- A part of a path fits as the path does. -/
theorem Fits.of_part (hpath : Fits names bytes path) (hpart : first.toList <:+: path.toList) :
    Fits names bytes first :=
  ⟨hpath.names.of_part hpart, (length_encode_le_of_part hpart).trans hpath.bytes⟩

/-- A path that is as short as a name may be fits. -/
theorem fits_of_byteLength (hname : byteLength path ≤ names) : Fits names names path :=
  ⟨namesUpTo_of_length hname, hname⟩

/-- With slashes in place of backslashes, a path fits as before. -/
theorem Fits.forwardSlashes (hpath : Fits names bytes path) :
    Fits names bytes (forwardSlashes path) := by
  refine ⟨fun name hslash hname => ?_, (byteLength_forwardSlashes path).trans_le hpath.bytes⟩
  rw [Path.forwardSlashes, String.toList_ofList, replaceChar, List.infix_map_iff] at hname
  obtain ⟨written, hwritten, rfl⟩ := hname
  -- no slash stands in the name, so no backslash was turned into one
  have hsame : written.map (fun c => if c = '\\' then '/' else c) = written := by
    refine (List.map_congr_left fun c hc => if_neg ?_).trans written.map_id
    rintro rfl
    exact hslash (List.mem_map.mpr ⟨_, hc, rfl⟩)
  rw [hsame] at hslash ⊢
  exact hpath.names written hslash hwritten

/-- The directory of a path is its beginning. -/
theorem directory_isPrefix (path : String) : (directory path).toList <+: path.toList := by
  have hback (text : List Char) (p : Char → Bool) :
      (text.reverse.dropWhile p).reverse <+: text := by
    have h := List.reverse_prefix.mpr (List.dropWhile_suffix p (l := text.reverse))
    rwa [List.reverse_reverse] at h
  unfold directory
  dsimp only
  split
  · rw [String.toList_ofList]
    exact hback path.toList _
  · rw [trimSlashesRight, String.toList_ofList, String.toList_ofList]
    exact (hback _ _).trans (hback path.toList _)

/-- A slash is all that is put between two paths. -/
theorem byteLength_join_le (first second : String) :
    byteLength (join first second) ≤ byteLength first + 1 + byteLength second := by
  have hslash : byteLength "/" = 1 := by decide
  rw [Path.join]
  split_ifs
  · omega
  · rw [byteLength_append]
    omega
  · rw [byteLength_append, byteLength_append, hslash]

/-- A path that is read from a directory is longer than both. -/
theorem byteLength_le_join (first : String) (hsecond : isAbsolute second = false) :
    byteLength first + byteLength second ≤ byteLength (join first second) := by
  rw [Path.join, hsecond, if_neg Bool.false_ne_true]
  split_ifs
  · rw [byteLength_append]
  · rw [byteLength_append, byteLength_append]
    omega

/-- A path fits that is put together from paths that fit. -/
theorem Fits.join (hfirst : Fits names bytes first) (hsecond : Fits names more second) :
    Fits names (bytes + 1 + more) (join first second) := by
  have hslash : byteLength "/" = 1 := by decide
  have hlength := Nat.add_le_add hfirst.bytes hsecond.bytes
  unfold Path.join
  split
  case isTrue => exact hsecond.mono (by omega)
  case isFalse =>
    split
    case isTrue hend =>
      refine ⟨?_, by rw [byteLength_append]; omega⟩
      rw [Bool.or_eq_true] at hend
      obtain hempty | hend := hend
      · obtain rfl := String.isEmpty_iff.mp hempty
        simpa using hsecond.names
      · obtain ⟨lead, hlead⟩ := List.getLast?_eq_some_iff.mp (eq_of_beq hend)
        have hnames := hfirst.names
        rw [hlead] at hnames
        rw [String.toList_append, hlead, List.append_assoc, List.singleton_append]
        exact namesUpTo_append_cons.mpr ⟨(namesUpTo_append_cons.mp hnames).1, hsecond.names⟩
    case isFalse =>
      refine ⟨?_, by rw [byteLength_append, byteLength_append, hslash]; omega⟩
      rw [String.toList_append, String.toList_append, List.append_assoc]
      exact namesUpTo_append_cons.mpr ⟨hfirst.names, hsecond.names⟩

/-- Segments of a path, put together, fit where the path does, but for a slash. -/
theorem Fits.ofSegments (hpath : Fits names bytes path)
    (hparts : parts.Sublist (segments path)) : Fits names (bytes + 1) (ofSegments parts) := by
  constructor
  · rw [Path.ofSegments, String.toList_intercalate]
    refine namesUpTo_intercalate fun part hpart => ?_
    obtain ⟨name, hname, rfl⟩ := List.mem_map.mp hpart
    exact namesUpTo_of_length ((namesUpTo_iff path).mp hpath.names name (hparts.subset hname))
  · refine (byteLength_ofSegments_le parts).trans ((slashedLength_le_of_sublist hparts).trans ?_)
    rw [slashedLength_segments]
    exact Nat.succ_le_succ hpath.bytes

/-- One more segment is put before the others, is left out, or takes one of them away. -/
theorem step_sublist (rooted : Bool) (before : List String) (segment : String) :
    (step rooted before segment).Sublist (segment :: before) := by
  unfold step
  split
  case isTrue => exact List.sublist_cons_self segment before
  case isFalse =>
    split
    case isTrue hup =>
      subst hup
      cases before with
      | nil => cases rooted <;> simp
      | cons last rest =>
        dsimp only
        split
        · exact List.Sublist.refl _
        · exact (List.sublist_cons_self last rest).cons ".."
    case isFalse => exact List.Sublist.refl _

/-- A walk leaves out segments and adds none. -/
theorem foldl_step_sublist (rooted : Bool) (parts before : List String) :
    (parts.foldl (step rooted) before).Sublist (parts.reverse ++ before) := by
  induction parts generalizing before with
  | nil => exact List.Sublist.refl _
  | cons part parts ih =>
    rw [List.foldl_cons, List.reverse_cons, List.append_assoc, List.singleton_append]
    exact (ih _).trans ((step_sublist rooted before part).append_left _)

/-- The segments reached by a walk are some of those walked along. -/
theorem walk_sublist (rooted : Bool) (parts : List String) :
    (walk rooted [] parts).Sublist parts := by
  have hwalk := (foldl_step_sublist rooted parts []).reverse
  rwa [List.append_nil, List.reverse_reverse] at hwalk

/-- A mark of the root, put before a path, takes two bytes at most, and no name. -/
theorem Fits.rootMark (hpath : Fits names bytes path) (rooted : String) :
    Fits names (2 + bytes) (rootMark rooted ++ path) := by
  have hmark : Path.rootMark rooted = "" ∨ Path.rootMark rooted = "/" ∨
      Path.rootMark rooted = "//" := by
    unfold Path.rootMark
    split <;> simp
  have hslash (path : String) (hpath : NamesUpTo names path.toList) :
      NamesUpTo names ("/" ++ path).toList := by
    have hempty : NamesUpTo names [] := namesUpTo_of_length (Nat.zero_le _)
    rw [String.toList_append]
    exact namesUpTo_append_cons.mpr ⟨hempty, hpath⟩
  have hbytes := hpath.bytes
  obtain hmark | hmark | hmark := hmark
  · rw [hmark, String.empty_append]
    exact hpath.mono (by omega)
  · refine ⟨hmark ▸ hslash path hpath.names, ?_⟩
    have hone : byteLength "/" = 1 := by decide
    rw [hmark, byteLength_append, hone]
    omega
  · have htwo : "//" ++ path = "/" ++ ("/" ++ path) := by
      rw [← String.append_assoc]
      rfl
    refine ⟨?_, ?_⟩
    · rw [hmark, htwo]
      exact hslash _ (hslash path hpath.names)
    · have htwo : byteLength "//" = 2 := by decide
      rw [hmark, byteLength_append, htwo]
      omega

/-- A path or a dot. -/
theorem Fits.orDot (hpath : Fits names bytes path) (hnames : 1 ≤ names) (hbytes : 1 ≤ bytes) :
    Fits names bytes (if path.isEmpty then "." else path) := by
  split
  · have hdot : byteLength "." = 1 := by decide
    exact ⟨namesUpTo_of_length (hdot.trans_le hnames), hdot.trans_le hbytes⟩
  · exact hpath

/-- A path needs at most three bytes more when it is normalised. -/
theorem Fits.normalize (hpath : Fits names bytes path) (hnames : 1 ≤ names) :
    Fits names (bytes + 3) (normalize path) := by
  have hinner := hpath.ofSegments (walk_sublist (isAbsolute path) (segments path))
  exact ((hinner.rootMark path).orDot hnames (by omega)).mono (by omega)

/-- A path needs at most three bytes more when it is made of its parts. -/
theorem Fits.tidy (hpath : Fits names bytes path) (hnames : 1 ≤ names) :
    Fits names (bytes + 3) (tidy path) :=
  (((hpath.ofSegments List.filter_sublist).rootMark path).orDot hnames (by omega)).mono (by omega)

/-! ### Names by themselves -/

variable {name : String}

/-- A name without slashes is the one segment of its path. -/
theorem segments_eq_singleton (hname : '/' ∉ name.toList) : segments name = [name] := by
  rw [segments, List.splitOn_eq_singleton hname, List.map_singleton, String.ofList_toList]

/-- A name is no path from the top. -/
theorem isAbsolute_eq_false (hname : '/' ∉ name.toList) : isAbsolute name = false := by
  rw [isAbsolute, beq_eq_false_iff_ne]
  exact fun hhead => hname (List.mem_of_head? hhead)

/-- A name has no root mark. -/
theorem rootMark_eq_empty (hname : '/' ∉ name.toList) : rootMark name = "" := by
  unfold rootMark
  split
  all_goals first | rfl | simp_all

/-- Slashes replace nothing where there is no backslash. -/
theorem forwardSlashes_eq_self (hname : '\\' ∉ name.toList) : forwardSlashes name = name := by
  have hsame : replaceChar '\\' '/' name.toList = name.toList := by
    refine (List.map_congr_left fun c hc => if_neg ?_).trans (List.map_id _)
    rintro rfl
    exact hname hc
  rw [forwardSlashes, hsame, String.ofList_toList]

/-- The directory of a name is empty. -/
theorem directory_eq_empty (hname : '/' ∉ name.toList) : directory name = "" := by
  have hlead : name.toList.reverse.dropWhile (· != '/') = [] := by
    rw [List.dropWhile_eq_nil_iff]
    intro c hc
    rw [bne_iff_ne]
    rintro rfl
    exact hname (List.mem_reverse.mp hc)
  rw [directory, hlead]
  rfl

/-- A name without its extension is a beginning of the name. -/
theorem withoutExtension_isPrefix (name : String) :
    (withoutExtension name).toList <+: name.toList := by
  unfold withoutExtension
  dsimp only
  split
  · exact List.prefix_rfl
  · rw [String.toList_ofList]
    have h := List.reverse_prefix.mpr ((List.drop_suffix 1 _).trans
      (List.dropWhile_suffix (l := name.toList.reverse) (· != '.')))
    rwa [List.reverse_reverse] at h

/-- A name is normalised, unless it is one of those for a folder itself and the one above. -/
theorem normalize_eq_self (hslash : '/' ∉ name.toList) (hname : name ≠ "") (hdot : name ≠ ".")
    (hdots : name ≠ "..") : normalize name = name := by
  have hwalk : walk false [] [name] = [name] := by simp [walk, step, hname, hdot, hdots]
  have hsame : rootMark name ++ ofSegments [name] = name := by
    rw [rootMark_eq_empty hslash, String.empty_append]
    simp [ofSegments]
  rw [normalize, segments_eq_singleton hslash, isAbsolute_eq_false hslash, hwalk, hsame]
  exact if_neg (by simp [hname])

end Path

end ChangeImpact
