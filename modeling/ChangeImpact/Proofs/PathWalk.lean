import ChangeImpact.Proofs.PathLength
import Mathlib.Data.List.Infix

/-!
# Walking along paths

A relative path is followed segment by segment from a place below the root: names lead down, `..`
leads up but not above the root, and empty and `.` segments lead nowhere. Normalising a path that
starts at the root writes down the place that it leads to. A relative path that never climbs above
the place where it starts is normalised to the same place, except that the empty place becomes a
dot.
-/

namespace ChangeImpact.Path

open Text

/-- A segment that leads down to a folder or file of that name. -/
def IsNormal (segment : String) : Prop := segment ≠ "" ∧ segment ≠ "." ∧ segment ≠ ".."

instance : DecidablePred IsNormal := fun segment =>
  inferInstanceAs (Decidable (segment ≠ "" ∧ segment ≠ "." ∧ segment ≠ ".."))

/-- The place to which one segment leads. -/
def follow (place : List String) (segment : String) : List String :=
  if segment = "" ∨ segment = "." then place
  else if segment = ".." then place.dropLast
  else place ++ [segment]

/-- The place to which a relative path leads. -/
def reach (place : List String) (path : String) : List String := (segments path).foldl follow place

/-- No beginning of some segments has more steps up than down. -/
def StaysBelow (parts : List String) : Prop :=
  ∀ front ∈ parts.inits, front.count ".." ≤ front.countP IsNormal

instance (parts : List String) : Decidable (StaysBelow parts) :=
  inferInstanceAs (Decidable (∀ front ∈ parts.inits, _))

variable {place parts : List String} {path segment : String}

section Segments

/-- No segment holds a slash. -/
theorem slash_not_mem_of_mem_segments (hsegment : segment ∈ segments path) :
    '/' ∉ segment.toList := by
  obtain ⟨part, hpart, rfl⟩ := List.mem_map.mp hsegment
  rw [String.toList_ofList]
  exact not_mem_of_mem_splitOn hpart

/-- The empty path has one segment, which is empty. -/
theorem segments_empty : segments "" = [""] := segments_eq_singleton (by decide)

/-- A slash parts the segments on its two sides. -/
theorem segments_append_slash (first second : String) :
    segments (first ++ "/" ++ second) = segments first ++ segments second := by
  have htext : (first ++ "/" ++ second).toList = first.toList ++ '/' :: second.toList := by
    simp [String.toList_append]
  rw [segments, htext, List.splitOn_append_cons_self, List.map_append, segments, segments]

/-- Before a slash at the start there is an empty segment. -/
theorem segments_slash (path : String) : segments ("/" ++ path) = "" :: segments path := by
  have hsegments := segments_append_slash "" path
  rwa [String.empty_append, segments_empty] at hsegments

/-- Segments without slashes are read back from the path that they make up. -/
theorem segments_ofSegments (hne : parts ≠ []) (hslash : ∀ part ∈ parts, '/' ∉ part.toList) :
    segments (ofSegments parts) = parts := by
  have hmark : "/".toList = ['/'] := rfl
  have hparts : ∀ text ∈ parts.map String.toList, '/' ∉ text := by
    rw [List.forall_mem_map]
    exact hslash
  rw [segments, ofSegments, String.toList_intercalate, hmark,
    List.splitOn_intercalate '/' hparts (by simpa using hne), List.map_map]
  simp

/-- A path is put together from its folders and its file name. -/
theorem ofSegments_append_singleton (hne : parts ≠ []) (name : String) :
    ofSegments (parts ++ [name]) = ofSegments parts ++ "/" ++ name := by
  induction parts with
  | nil => exact absurd rfl hne
  | cons part parts ih =>
    cases parts with
    | nil => simp [ofSegments, String.intercalate_cons_cons]
    | cons next parts =>
      have hrest := ih (List.cons_ne_nil next parts)
      simp only [ofSegments, List.cons_append, String.intercalate_cons_cons] at hrest ⊢
      rw [hrest]
      simp only [String.append_assoc]

/-- The folders of a path hold no slash. -/
theorem slash_not_mem_of_mem_folders (hsegment : segment ∈ folders path) :
    '/' ∉ segment.toList :=
  slash_not_mem_of_mem_segments (List.mem_of_mem_dropLast hsegment)

end Segments

section Place

/-- Some names without slashes, the folders down to a place. -/
structure IsPlace (place : List String) : Prop where
  isNormal : ∀ segment ∈ place, IsNormal segment
  slash_not_mem : ∀ segment ∈ place, '/' ∉ segment.toList

/-- The top is a place. -/
theorem isPlace_nil : IsPlace [] := ⟨by simp, by simp⟩

/-- No name of a place is empty. -/
theorem IsPlace.empty_not_mem (hplace : IsPlace place) : "" ∉ place :=
  fun hempty => (hplace.isNormal "" hempty).1 rfl

/-- Following a segment leads from place to place. -/
theorem IsPlace.follow (hplace : IsPlace place) (hslash : '/' ∉ segment.toList) :
    IsPlace (follow place segment) := by
  unfold Path.follow
  split_ifs with hskip hup
  · exact hplace
  · exact ⟨fun other hother => hplace.isNormal other (List.mem_of_mem_dropLast hother),
      fun other hother => hplace.slash_not_mem other (List.mem_of_mem_dropLast hother)⟩
  · rw [not_or] at hskip
    have hnormal : IsNormal segment := ⟨hskip.1, hskip.2, hup⟩
    constructor
    · rw [List.forall_mem_append, List.forall_mem_singleton]
      exact ⟨hplace.isNormal, hnormal⟩
    · rw [List.forall_mem_append, List.forall_mem_singleton]
      exact ⟨hplace.slash_not_mem, hslash⟩

/-- Following segments leads from place to place. -/
theorem IsPlace.foldl_follow (hplace : IsPlace place)
    (hslash : ∀ part ∈ parts, '/' ∉ part.toList) : IsPlace (parts.foldl Path.follow place) := by
  induction parts generalizing place with
  | nil => exact hplace
  | cons part parts ih =>
    rw [List.forall_mem_cons] at hslash
    exact ih (hplace.follow hslash.1) hslash.2

/-- A relative path leads from place to place. -/
theorem IsPlace.reach (hplace : IsPlace place) (path : String) : IsPlace (reach place path) :=
  hplace.foldl_follow fun _ => slash_not_mem_of_mem_segments

/-- Names lead down from the place where they are followed. -/
theorem IsPlace.foldl_eq_append (hplace : IsPlace parts) (start : List String) :
    parts.foldl Path.follow start = start ++ parts := by
  induction parts generalizing start with
  | nil => simp
  | cons part parts ih =>
    have hnormal := hplace.isNormal
    have hslash := hplace.slash_not_mem
    rw [List.forall_mem_cons] at hnormal hslash
    obtain ⟨hempty, hdot, hdots⟩ := hnormal.1
    have hstep : Path.follow start part = start ++ [part] := by
      simp [Path.follow, hempty, hdot, hdots]
    rw [List.foldl_cons, hstep, ih ⟨hnormal.2, hslash.2⟩]
    simp

/-- The path to a place is empty only for the root. -/
theorem IsPlace.ofSegments_eq_empty_iff (hplace : IsPlace place) :
    ofSegments place = "" ↔ place = [] := by
  constructor
  · intro hempty
    by_contra hne
    have hback := segments_ofSegments hne hplace.slash_not_mem
    rw [hempty, segments_empty] at hback
    exact hplace.empty_not_mem (by simp [← hback])
  · rintro rfl
    rfl

/-- No slash stands at an end of the path to a place. -/
theorem IsPlace.ne_empty_of_slash (hplace : IsPlace place) {first second : String}
    (hpath : ofSegments place = first ++ "/" ++ second) : first ≠ "" ∧ second ≠ "" := by
  have hne : place ≠ [] := by
    rintro rfl
    have htext := congrArg String.toList hpath
    simp [ofSegments, String.toList_append] at htext
  have hback := segments_ofSegments hne hplace.slash_not_mem
  rw [hpath, segments_append_slash] at hback
  constructor
  · rintro rfl
    exact hplace.empty_not_mem (by simp [← hback, segments_empty])
  · rintro rfl
    exact hplace.empty_not_mem (by simp [← hback, segments_empty])

/-- The path to a place does not start with a slash. -/
theorem IsPlace.stops_ofSegments (hplace : IsPlace place) :
    Stops (· == '/') (ofSegments place).toList := by
  intro c hc
  rw [beq_eq_false_iff_ne]
  rintro rfl
  obtain ⟨rest, hrest⟩ := List.head?_eq_some_iff.mp hc
  have hpath : ofSegments place = "" ++ "/" ++ String.ofList rest := by
    rw [← String.toList_inj, hrest]
    simp [String.toList_append]
  exact (hplace.ne_empty_of_slash hpath).1 rfl

/-- The path to a place does not end with a slash. -/
theorem IsPlace.stops_reverse_ofSegments (hplace : IsPlace place) :
    Stops (· == '/') (ofSegments place).toList.reverse := by
  intro c hc
  rw [beq_eq_false_iff_ne]
  rintro rfl
  obtain ⟨front, hfront⟩ := List.head?_eq_some_iff.mp hc
  have hpath : ofSegments place = String.ofList front.reverse ++ "/" ++ "" := by
    rw [← String.toList_inj, ← List.reverse_reverse (ofSegments place).toList, hfront]
    simp [String.toList_append]
  exact (hplace.ne_empty_of_slash hpath).2 rfl

/-- The path to a place below the root starts with a character that is no slash. -/
theorem IsPlace.exists_toList_eq (hplace : IsPlace place) (hne : place ≠ []) :
    ∃ c rest, (ofSegments place).toList = c :: rest ∧ (c == '/') = false := by
  obtain ⟨c, rest, htext⟩ := List.exists_cons_of_ne_nil
    (mt String.toList_eq_nil_iff.mp (mt hplace.ofSegments_eq_empty_iff.mp hne))
  exact ⟨c, rest, htext, hplace.stops_ofSegments c (by simp [htext])⟩

end Place

section Normalize

/-- A segment is walked along as it is followed, unless it leads up from the start of an unrooted
path. -/
theorem IsPlace.step_eq (hplace : IsPlace place) {rooted : Bool}
    (htop : rooted = false → segment = ".." → place ≠ []) :
    step rooted place.reverse segment = (Path.follow place segment).reverse := by
  by_cases hskip : segment = "" ∨ segment = "."
  · simp [step, Path.follow, hskip]
  by_cases hup : segment = ".."
  · subst hup
    induction place using List.reverseRecOn with
    | nil =>
      cases rooted with
      | false => exact absurd rfl (htop rfl rfl)
      | true => rfl
    | append_singleton above last =>
      have hlast : last ≠ ".." := (hplace.isNormal last (by simp)).2.2
      simp [step, Path.follow, hlast]
  · rw [not_or] at hskip
    simp [step, Path.follow, hskip, hup]

/-- A step up takes away one name at most, and a step down adds one. -/
theorem le_length_follow (place : List String) (segment : String) :
    place.length + [segment].countP IsNormal ≤
      (Path.follow place segment).length + [segment].count ".." := by
  by_cases hskip : segment = "" ∨ segment = "."
  · have hnormal : ¬ IsNormal segment := fun h => hskip.elim h.1 h.2.1
    simp [Path.follow, hskip, hnormal]
  by_cases hup : segment = ".."
  · have hnormal : ¬ IsNormal segment := fun h => h.2.2 hup
    simp [Path.follow, hup, IsNormal]
    omega
  · rw [not_or] at hskip
    simp [Path.follow, hskip, hup, IsNormal]

/-- Segments are walked along as they are followed, if they start at the root or do not climb above
the place where they start. -/
theorem IsPlace.foldl_step_eq (hplace : IsPlace place) {rooted : Bool}
    (hslash : ∀ part ∈ parts, '/' ∉ part.toList)
    (hbelow : rooted = false → ∀ front ∈ parts.inits,
      front.count ".." ≤ place.length + front.countP IsNormal) :
    parts.foldl (step rooted) place.reverse = (parts.foldl Path.follow place).reverse := by
  induction parts generalizing place with
  | nil => rfl
  | cons part parts ih =>
    rw [List.forall_mem_cons] at hslash
    have htop : rooted = false → part = ".." → place ≠ [] := by
      rintro hrooted rfl rfl
      exact absurd (hbelow hrooted [".."] (by simp)) (by decide)
    have hrest : rooted = false → ∀ front ∈ parts.inits,
        front.count ".." ≤ (Path.follow place part).length + front.countP IsNormal := by
      intro hrooted front hfront
      have hlonger := hbelow hrooted (part :: front) (by
        rw [List.mem_inits] at hfront ⊢
        exact List.cons_prefix_cons.mpr ⟨rfl, hfront⟩)
      rw [← List.singleton_append, List.count_append, List.countP_append] at hlonger
      have hstep := le_length_follow place part
      omega
    rw [List.foldl_cons, hplace.step_eq htop, List.foldl_cons,
      ih (hplace.follow hslash.1) hslash.2 hrest]

/-- A path does not start at the root if no slash is in front. -/
theorem isAbsolute_eq_false_iff : isAbsolute path = false ↔ Stops (· == '/') path.toList := by
  rw [isAbsolute, Stops]
  cases path.toList.head? <;> simp

/-- A path with a slash in front starts at the root. -/
theorem isAbsolute_slash (path : String) : isAbsolute ("/" ++ path) = true := by
  simp [isAbsolute, String.toList_append]

/-- A path with one slash in front starts at the root. -/
theorem rootMark_slash (hrelative : isAbsolute path = false) : rootMark ("/" ++ path) = "/" := by
  have htext : ("/" ++ path).toList = '/' :: path.toList := by simp [String.toList_append]
  rw [isAbsolute_eq_false_iff] at hrelative
  rw [rootMark, htext]
  cases hpath : path.toList with
  | nil => rfl
  | cons c rest =>
    rw [hpath, stops_cons, beq_eq_false_iff_ne] at hrelative
    split
    · simp_all
    · simp_all
    · rfl
    · simp_all

/-- A relative path has no root mark. -/
theorem rootMark_of_relative (hrelative : isAbsolute path = false) : rootMark path = "" := by
  rw [isAbsolute_eq_false_iff] at hrelative
  rw [rootMark]
  cases hpath : path.toList with
  | nil => rfl
  | cons c rest =>
    rw [hpath, stops_cons, beq_eq_false_iff_ne] at hrelative
    split
    · simp_all
    · simp_all
    · simp_all
    · rfl

/-- A path from the root is normalised to the place that it leads to. -/
theorem normalize_slash (hrelative : isAbsolute path = false) :
    normalize ("/" ++ path) = "/" ++ ofSegments (reach [] path) := by
  have hwalk : walk true [] (segments ("/" ++ path)) = reach [] path := by
    rw [walk, segments_slash, isPlace_nil.foldl_step_eq _ (by simp), List.reverse_reverse]
    · rfl
    · rw [← segments_slash]
      exact fun _ => slash_not_mem_of_mem_segments
  rw [normalize, isAbsolute_slash, hwalk, rootMark_slash hrelative]
  exact if_neg (by simp)

/-- A relative path that never climbs above its start is normalised to the place that it leads to,
where a dot stands for the start itself. -/
theorem normalize_of_staysBelow (hrelative : isAbsolute path = false)
    (hbelow : StaysBelow (segments path)) :
    normalize path = if reach [] path = [] then "." else ofSegments (reach [] path) := by
  have hwalk : walk false [] (segments path) = reach [] path := by
    rw [walk, isPlace_nil.foldl_step_eq (fun _ => slash_not_mem_of_mem_segments)
      (by simpa [StaysBelow] using hbelow), List.reverse_reverse]
    rfl
  rw [normalize, hrelative, hwalk, rootMark_of_relative hrelative, String.empty_append]
  simp only [String.isEmpty_iff, (isPlace_nil.reach path).ofSegments_eq_empty_iff]

/-- The path to a place has no slashes to be trimmed. -/
theorem IsPlace.trimSlashesLeft_ofSegments (hplace : IsPlace place) :
    trimSlashesLeft (ofSegments place) = ofSegments place := by
  have hdrop : (ofSegments place).toList.dropWhile (· == '/') = (ofSegments place).toList :=
    dropWhile_append_of_stops (List.forall_mem_nil _) hplace.stops_ofSegments
  rw [trimSlashesLeft, hdrop, String.ofList_toList]

/-- A slash at the start is trimmed. -/
theorem trimSlashesLeft_slash (path : String) :
    trimSlashesLeft ("/" ++ path) = trimSlashesLeft path := by
  simp [trimSlashesLeft, String.toList_append]

/-- The directory of a file in a place below the root is that place. -/
theorem IsPlace.directory_append (hplace : IsPlace place) (hne : place ≠ []) {name : String}
    (hname : '/' ∉ name.toList) :
    directory (ofSegments place ++ "/" ++ name) = ofSegments place := by
  have htext : (ofSegments place ++ "/" ++ name).toList.reverse =
      name.toList.reverse ++ '/' :: (ofSegments place).toList.reverse := by
    simp [String.toList_append]
  have hlead : (ofSegments place ++ "/" ++ name).toList.reverse.dropWhile (· != '/') =
      '/' :: (ofSegments place).toList.reverse := by
    rw [htext, dropWhile_append_of_stops _ (stops_cons.mpr (by decide))]
    exact bne_of_not_mem (by simpa using hname)
  have hslashes : ((ofSegments place).toList ++ ['/']).all (· == '/') = false := by
    obtain ⟨c, rest, hplaceText, hc⟩ := hplace.exists_toList_eq hne
    rw [hplaceText, List.cons_append, List.all_cons, hc, Bool.false_and]
  have htrim : (['/'] ++ (ofSegments place).toList.reverse).dropWhile (· == '/') =
      (ofSegments place).toList.reverse :=
    dropWhile_append_of_stops (by simp) hplace.stops_reverse_ofSegments
  rw [directory, hlead, List.reverse_cons, List.reverse_reverse, hslashes, trimSlashesRight,
    String.toList_ofList, List.reverse_append, List.reverse_singleton, htrim,
    List.reverse_reverse, String.ofList_toList]
  rfl

/-- The directory of a file is made of its folders. -/
theorem directory_eq_ofSegments (hfolders : ∀ folder ∈ folders path, IsNormal folder) :
    directory path = ofSegments (folders path) := by
  have hplace : IsPlace (folders path) := ⟨hfolders, fun _ => slash_not_mem_of_mem_folders⟩
  have hname := folders_append_fileName path
  have hmem : fileName path ∈ segments path := by simp [← hname]
  have hslash : '/' ∉ (fileName path).toList := slash_not_mem_of_mem_segments hmem
  by_cases hnone : folders path = []
  · rw [hnone, List.nil_append] at hname
    have hpath : path = fileName path := by
      conv_lhs => rw [← ofSegments_segments path, ← hname]
      simp [ofSegments]
    rw [hnone, directory_eq_empty (hpath ▸ hslash)]
    rfl
  · have hpath : path = ofSegments (folders path) ++ "/" ++ fileName path := by
      rw [← ofSegments_append_singleton hnone, hname, ofSegments_segments]
    have hdirectory := hplace.directory_append hnone hslash
    rwa [← hpath] at hdirectory

/-- Following a path from a place is following it behind the path to that place. -/
theorem IsPlace.reach_append (hplace : IsPlace place) (hne : place ≠ []) (path : String) :
    Path.reach [] (ofSegments place ++ "/" ++ path) = Path.reach place path := by
  rw [Path.reach, segments_append_slash, List.foldl_append,
    segments_ofSegments hne hplace.slash_not_mem, hplace.foldl_eq_append, List.nil_append,
    Path.reach]

/-- A relative path that is joined to a place below the root is followed from there. -/
theorem IsPlace.normalize_join (hplace : IsPlace place) (hrelative : isAbsolute path = false) :
    normalize (join (join "/" (ofSegments place)) path) =
      "/" ++ ofSegments (Path.reach place path) := by
  have hdirectory : isAbsolute (ofSegments place) = false :=
    isAbsolute_eq_false_iff.mpr hplace.stops_ofSegments
  have hroot : join "/" (ofSegments place) = "/" ++ ofSegments place := by
    rw [join, hdirectory]
    simp
  by_cases hnone : place = []
  · have hjoin : join "/" path = "/" ++ path := by
      rw [join, hrelative]
      simp
    subst hnone
    rw [hroot, ofSegments, String.intercalate_nil, String.append_empty, hjoin,
      normalize_slash hrelative]
  · obtain ⟨c, rest, htext, hc⟩ := hplace.exists_toList_eq hnone
    have hlonger : isAbsolute (ofSegments place ++ "/" ++ path) = false := by
      rw [isAbsolute_eq_false_iff, String.toList_append, String.toList_append, htext]
      exact stops_cons.mpr hc
    have hend : ('/' :: (ofSegments place).toList).getLast? ≠ some '/' := by
      rw [htext, List.getLast?_cons_cons, ← htext, ← List.head?_reverse]
      exact fun hlast => absurd (hplace.stops_reverse_ofSegments '/' hlast) (by decide)
    have hjoin : join ("/" ++ ofSegments place) path =
        "/" ++ (ofSegments place ++ "/" ++ path) := by
      rw [join, hrelative]
      simp [hend, String.append_assoc, String.toList_append]
    rw [hroot, hjoin, normalize_slash hlonger, hplace.reach_append hnone]

end Normalize

end ChangeImpact.Path
