import ChangeImpact.Files.Directory
import ChangeImpact.Proofs.PathWalk

/-!
# Places in a tree

What the file system says of a route through a tree depends on what stands at the places along it: a
route is followed to its end if there are folders all the way. Folders can be made along a route
exactly if no file stands on it and no name is too long, and nothing but these folders is new then.
-/

namespace ChangeImpact

open Text

/-! ### Routes -/

namespace Path

variable {front rest parts place : List String} {name : String}

/-- The parts of a path through folders: names, and steps to the folder above. -/
structure IsRoute (parts : List String) : Prop where
  plain : ∀ part ∈ parts, part ≠ "" ∧ part ≠ "."
  slash_not_mem : ∀ part ∈ parts, '/' ∉ part.toList

/-- The place to which a route leads. -/
def target (parts : List String) : List String := parts.foldl follow []

/-- A longer route leads on from where the shorter one leads. -/
theorem target_concat (parts : List String) (name : String) :
    target (parts ++ [name]) = follow (target parts) name := by
  rw [target, List.foldl_append]
  rfl

/-- A step up takes the last name away. -/
theorem follow_up (place : List String) : follow place ".." = place.dropLast := by
  simp [follow]

/-- A name leads one folder down. -/
theorem follow_name (hname : IsNormal name) (place : List String) :
    follow place name = place ++ [name] := by
  obtain ⟨hempty, hdot, hup⟩ := hname
  simp [follow, hempty, hdot, hup]

/-- The beginning of a route is a route. -/
theorem IsRoute.of_append (hroute : IsRoute (front ++ rest)) : IsRoute front where
  plain := (List.forall_mem_append.mp hroute.plain).1
  slash_not_mem := (List.forall_mem_append.mp hroute.slash_not_mem).1

/-- The last part of a route is a name if it does not lead up. -/
theorem IsRoute.isNormal (hroute : IsRoute (parts ++ [name])) (hup : name ≠ "..") :
    IsNormal name := by
  obtain ⟨hempty, hdot⟩ := hroute.plain name (by simp)
  exact ⟨hempty, hdot, hup⟩

/-- A route goes on with a name. -/
theorem IsRoute.concat (hroute : IsRoute parts) (hname : IsNormal name)
    (hslash : '/' ∉ name.toList) : IsRoute (parts ++ [name]) where
  plain := by
    rw [List.forall_mem_append, List.forall_mem_singleton]
    exact ⟨hroute.plain, hname.1, hname.2.1⟩
  slash_not_mem := by
    rw [List.forall_mem_append, List.forall_mem_singleton]
    exact ⟨hroute.slash_not_mem, hslash⟩

/-- A route from the top is walked along as it is followed. -/
theorem IsRoute.walk_eq (hroute : IsRoute parts) : walk true [] parts = target parts := by
  have hfold : parts.foldl (step true) [].reverse = (parts.foldl follow []).reverse :=
    isPlace_nil.foldl_step_eq hroute.slash_not_mem (by simp)
  rw [walk, hfold, List.reverse_reverse]
  rfl

/-- Empty segments and dots lead nowhere. -/
theorem foldl_follow_filter (parts place : List String) :
    (parts.filter fun part => part != "" && part != ".").foldl follow place =
      parts.foldl follow place := by
  have hskip : (fun place part => if part != "" && part != "." then follow place part else place) =
      follow := by
    funext place part
    by_cases hdull : part = "" ∨ part = "."
    · simp only [follow, hdull]
      obtain rfl | rfl := hdull <;> rfl
    · rw [not_or] at hdull
      simp [hdull]
  rw [List.foldl_filter, hskip]

end Path

namespace Root

open ChangeImpact.Path

/-- The place that a path names is reached by a route from the top. -/
theorem isRoute_ofPath (here path : String) : IsRoute (ofPath here path).place where
  plain := fun part hpart => by simpa using (List.mem_filter.mp hpart).2
  slash_not_mem := fun part hpart => slash_not_mem_of_mem_segments (List.mem_filter.mp hpart).1

/-- A path names the place to which it leads from the top, when it is read from the working
directory. -/
theorem resolved_ofPath (here path : String) :
    (ofPath here path).resolved.place = reach [] (join here path) :=
  (isRoute_ofPath here path).walk_eq.trans (foldl_follow_filter _ [])

end Root

/-! ### What stands in a tree -/

/-- What stands at a place, whatever is inside of it. -/
inductive Kind
  | file (content : Bytes)
  | folder
  deriving DecidableEq

namespace Entry

/-- The kind of an entry. -/
def kind : Entry → Kind
  | file content => .file content
  | folder _ => .folder

/-- An entry with nothing inside of it. -/
def IsBare : Entry → Prop
  | file _ => True
  | folder inside => inside = .empty

end Entry

namespace Directory

open ChangeImpact.Path

variable {tree here found : Directory} {above : List Directory} {place rest parts : List String}
  {name : String} {entry : Entry} {content : Bytes}

/-- What stands at a place in a tree. -/
def kind? : Directory → List String → Option Kind
  | _, [] => some .folder
  | tree, name :: rest =>
    match tree.entry? name with
    | some (.folder inside) => inside.kind? rest
    | some (.file content) => if rest = [] then some (.file content) else none
    | none => none

/-- At its own place a tree is a folder. -/
@[simp]
theorem kind?_nil (tree : Directory) : tree.kind? [] = some .folder := by rw [kind?]

/-- Nothing stands in an empty tree. -/
theorem kind?_empty (hplace : place ≠ []) : empty.kind? place = none := by
  obtain ⟨name, rest, rfl⟩ := List.exists_cons_of_ne_nil hplace
  rfl

/-- Behind the name of a folder stands what stands in that folder. -/
theorem kind?_cons_of_folder (hentry : tree.entry? name = some (.folder found))
    (rest : List String) : tree.kind? (name :: rest) = found.kind? rest := by
  rw [kind?, hentry]

/-- Behind the name of a file stands nothing but the file. -/
theorem kind?_cons_of_file (hentry : tree.entry? name = some (.file content))
    (rest : List String) :
    tree.kind? (name :: rest) = if rest = [] then some (.file content) else none := by
  rw [kind?, hentry]

/-- Behind a name without an entry stands nothing. -/
theorem kind?_cons_of_none (hentry : tree.entry? name = none) (rest : List String) :
    tree.kind? (name :: rest) = none := by
  rw [kind?, hentry]

/-- A name leads on only from a folder. -/
theorem exists_entry?_of_kind? (hfolder : tree.kind? (name :: rest) = some .folder) :
    ∃ found, tree.entry? name = some (.folder found) ∧ found.kind? rest = some .folder := by
  cases hentry : tree.entry? name with
  | none => simp [kind?_cons_of_none hentry] at hfolder
  | some entry =>
    cases entry with
    | file content => simp [kind?_cons_of_file hentry] at hfolder
    | folder found => exact ⟨found, rfl, by rwa [kind?_cons_of_folder hentry] at hfolder⟩

/-- Whatever stands somewhere stands in folders. -/
theorem kind?_of_append (hrest : rest ≠ []) (hsome : tree.kind? (place ++ rest) ≠ none) :
    tree.kind? place = some .folder := by
  induction place generalizing tree with
  | nil => exact kind?_nil tree
  | cons name place ih =>
    rw [List.cons_append] at hsome
    cases hentry : tree.entry? name with
    | none => exact absurd (kind?_cons_of_none hentry _) hsome
    | some entry =>
      cases entry with
      | file content => simp [kind?_cons_of_file hentry, hrest] at hsome
      | folder found =>
        rw [kind?_cons_of_folder hentry] at hsome ⊢
        exact ih hsome

/-- Above a folder there is a folder. -/
theorem kind?_dropLast (hfolder : tree.kind? place = some .folder) :
    tree.kind? place.dropLast = some .folder := by
  induction place using List.reverseRecOn with
  | nil => exact hfolder
  | append_singleton place last =>
    rw [List.dropLast_concat]
    exact kind?_of_append (List.cons_ne_nil last []) (by simp [hfolder])

/-- A directory with a single entry has an entry of that name only. -/
theorem entry?_single (name other : String) (entry : Entry) :
    entry? other (single name entry) = if other = name then some entry else none := by
  cases entry <;> simp [single, entry?, eq_comm]

/-- Once an entry is put, its name leads to it, and other names lead where they led. -/
theorem entry?_put (directory : Directory) (name other : String) (entry : Entry) :
    entry? other (directory.put name entry) =
      if other = name then some entry else directory.entry? other := by
  induction directory with
  | empty => exact entry?_single name other entry
  | file listed content rest ih => cases entry <;> grind [put, entry?]
  | folder listed inside rest _ ih => cases entry <;> grind [put, entry?]

/-- Behind the name of a bare entry stands nothing but the entry. -/
theorem kind?_cons_of_bare (hentry : tree.entry? name = some entry) (hbare : entry.IsBare)
    (rest : List String) :
    tree.kind? (name :: rest) = if rest = [] then some entry.kind else none := by
  cases entry with
  | file content => exact kind?_cons_of_file hentry rest
  | folder inside =>
    obtain rfl : inside = empty := hbare
    rw [kind?_cons_of_folder hentry]
    split_ifs with hrest
    · rw [hrest]
      exact kind?_nil empty
    · exact kind?_empty hrest

/-- Other names lead where they led before an entry was put. -/
theorem kind?_put_of_ne {other : String} (hother : other ≠ name) (rest : List String) :
    (tree.put name entry).kind? (other :: rest) = tree.kind? (other :: rest) := by
  have hentry := entry?_put tree name other entry
  rw [if_neg hother] at hentry
  rw [kind?, kind?, hentry]

/-- Behind a folder that is there, an entry is inserted in that folder. -/
theorem insert_cons (hentry : tree.entry? name = some (.folder found)) (hrest : rest ≠ []) :
    tree.insert entry (name :: rest) = tree.put name (.folder (found.insert entry rest)) := by
  obtain ⟨next, rest, rfl⟩ := List.exists_cons_of_ne_nil hrest
  rw [insert, inside, hentry]
  exact List.cons_ne_nil next rest

/-- Nothing but a bare entry is new when it is put into a folder that is there, in a place where no
folder stands. -/
theorem kind?_insert (hparent : tree.kind? place = some .folder)
    (hspot : tree.kind? (place ++ [name]) ≠ some .folder) (hbare : entry.IsBare)
    (other : List String) :
    (tree.insert entry (place ++ [name])).kind? other =
      if other = place ++ [name] then some entry.kind else tree.kind? other := by
  cases other with
  | nil => simp
  | cons next other =>
    induction place generalizing tree next other with
    | nil =>
      have hentry := entry?_put tree name name entry
      rw [if_pos rfl] at hentry
      rw [List.nil_append, insert]
      by_cases hnext : next = name
      · subst hnext
        rw [kind?_cons_of_bare hentry hbare]
        by_cases hlast : other = []
        · simp [hlast]
        · have hnone : tree.kind? (next :: other) = none := by
            by_contra hsome
            exact hspot (kind?_of_append hlast hsome)
          simp [hlast, hnone]
      · rw [kind?_put_of_ne hnext]
        simp [hnext]
    | cons folder place ih =>
      obtain ⟨found, hfound, hinside⟩ := exists_entry?_of_kind? hparent
      have hspot' : found.kind? (place ++ [name]) ≠ some .folder := by
        rwa [List.cons_append, kind?_cons_of_folder hfound] at hspot
      have hentry := entry?_put tree folder folder (.folder (insert entry (place ++ [name]) found))
      rw [if_pos rfl] at hentry
      rw [List.cons_append, insert_cons hfound (by simp)]
      by_cases hnext : next = folder
      · subst hnext
        rw [kind?_cons_of_folder hentry, kind?_cons_of_folder hfound]
        cases other with
        | nil => simp
        | cons after other =>
          rw [ih hinside hspot']
          simp
      · rw [kind?_put_of_ne hnext]
        simp [hnext]

/-! ### Looking up -/

/-- The folders on the way down to a place, the folder there and those above it, innermost first. -/
inductive Leads (tree : Directory) : List String → List Directory → Directory → Prop
  | top : Leads tree [] [] tree
  | down {place : List String} {above : List Directory} {here found : Directory} {name : String}
      (hleads : Leads tree place above here) (hentry : here.entry? name = some (.folder found)) :
      Leads tree (place ++ [name]) (here :: above) found

/-- What stands below a folder stands in the tree below its place. -/
theorem Leads.kind?_append (hleads : Leads tree place above here) (rest : List String) :
    tree.kind? (place ++ rest) = here.kind? rest := by
  induction hleads generalizing rest with
  | top => rfl
  | down _ hentry ih =>
    rw [List.append_assoc, List.singleton_append, ih, kind?_cons_of_folder hentry]

/-- A step up leads to the folder above, which at the top is the folder itself. -/
theorem Leads.exists_up (hleads : Leads tree place above here) :
    ∃ up more, Leads tree (follow place "..") more up ∧
      ∀ rest, locateFrom above here (".." :: rest) = locateFrom more up rest := by
  rw [follow_up]
  cases hleads with
  | top => exact ⟨tree, [], .top, fun rest => by rw [locateFrom.eq_def]; rfl⟩
  | down hleads hentry =>
    rw [List.dropLast_concat]
    exact ⟨_, _, hleads, fun rest => by rw [locateFrom.eq_def]; rfl⟩

/-- A step by a name leads into the folder of that name, or ends there. -/
theorem locateFrom_name (hup : name ≠ "..") (rest : List String) :
    locateFrom above here (name :: rest) =
      if isLongName name then .error .nameTooLong
      else match here.entry? name with
        | none => .error .notFound
        | some (.folder found) => locateFrom (here :: above) found rest
        | some (.file content) =>
          if rest.isEmpty then .ok (.file content) else .error .notDirectory := by
  rw [locateFrom.eq_def]
  exact if_neg hup

/-- Going on behind the end of a route. -/
theorem locateFrom_append (hleads : Leads tree place above here)
    (hplain : ∀ part ∈ parts, part ≠ "" ∧ part ≠ ".") (rest : List String) :
    match locateFrom above here parts with
    | .ok (.folder found) => ∃ above', Leads tree (parts.foldl follow place) above' found ∧
        locateFrom above here (parts ++ rest) = locateFrom above' found rest
    | .ok (.file _) => rest ≠ [] → locateFrom above here (parts ++ rest) = .error .notDirectory
    | .error fault => locateFrom above here (parts ++ rest) = .error fault := by
  induction parts generalizing place above here with
  | nil => exact ⟨above, hleads, rfl⟩
  | cons name parts ih =>
    rw [List.forall_mem_cons] at hplain
    rw [List.foldl_cons, List.cons_append]
    by_cases hup : name = ".."
    · subst hup
      obtain ⟨up, more, hmore, hstep⟩ := hleads.exists_up
      rw [hstep, hstep]
      exact ih hmore hplain.2
    · have hnormal : IsNormal name := ⟨hplain.1.1, hplain.1.2, hup⟩
      rw [locateFrom_name hup, locateFrom_name hup]
      by_cases hlong : isLongName name
      · simp [hlong]
      · rw [if_neg hlong, if_neg hlong]
        cases hentry : here.entry? name with
        | none => rfl
        | some entry =>
          cases entry with
          | file content => cases parts <;> simp
          | folder found =>
            rw [follow_name hnormal]
            exact ih (hleads.down hentry) hplain.2

/-- Going on behind the end of a route from the top of the tree. -/
theorem locate_append (tree : Directory) (hroute : IsRoute parts) (rest : List String) :
    match tree.locate parts with
    | .ok (.folder found) => ∃ above, Leads tree (target parts) above found ∧
        tree.locate (parts ++ rest) = locateFrom above found rest
    | .ok (.file _) => rest ≠ [] → tree.locate (parts ++ rest) = .error .notDirectory
    | .error fault => tree.locate (parts ++ rest) = .error fault :=
  locateFrom_append .top hroute.plain rest

/-- A folder that is found stands in the tree where the route leads. -/
theorem kind?_of_locate (hroute : IsRoute parts) (hfound : tree.locate parts = .ok (.folder found))
    (rest : List String) : tree.kind? (target parts ++ rest) = found.kind? rest := by
  have happend := locate_append tree hroute []
  rw [hfound] at happend
  obtain ⟨above, hleads, -⟩ := happend
  exact hleads.kind?_append rest

/-- What is found at a place, whatever is inside of it. -/
def find (tree : Directory) (place : List String) : Except FileFault Kind :=
  (tree.locate place).map Entry.kind

/-- The route without parts finds the top of the tree. -/
theorem find_nil (tree : Directory) : tree.find [] = .ok .folder := rfl

/-- A step to the folder above finds it. -/
theorem Leads.map_locateFrom_up (hleads : Leads tree place above found) :
    (locateFrom above found [".."]).map Entry.kind = .ok .folder ∧
      tree.kind? (follow place "..") = some .folder := by
  obtain ⟨up, more, hmore, hstep⟩ := hleads.exists_up
  have hkind := hmore.kind?_append []
  rw [List.append_nil, kind?_nil] at hkind
  exact ⟨by rw [hstep]; rfl, hkind⟩

/-- A step by a name finds the entry of this name, unless the name is too long. -/
theorem map_locateFrom_name (hname : name ≠ "..") (above : List Directory) :
    (locateFrom above found [name]).map Entry.kind =
      if isLongName name then .error .nameTooLong
      else match found.kind? [name] with
        | none => .error .notFound
        | some kind => .ok kind := by
  rw [locateFrom_name hname]
  by_cases hlong : isLongName name
  · simp [hlong, Except.map]
  · cases hentry : found.entry? name with
    | none => simp [hlong, Except.map, kind?_cons_of_none hentry]
    | some entry =>
      cases entry with
      | file content => simp [hlong, Except.map, Entry.kind, kind?_cons_of_file hentry]
      | folder inside =>
        simp [hlong, Except.map, Entry.kind, kind?_cons_of_folder hentry, locateFrom]

/-- One more step of a route that led to a folder finds what stands at the next place. -/
theorem find_concat (tree : Directory) (hroute : IsRoute (parts ++ [name])) :
    tree.find (parts ++ [name]) =
      match tree.find parts with
      | .error fault => .error fault
      | .ok (.file _) => .error .notDirectory
      | .ok .folder =>
        if isLongName name then .error .nameTooLong
        else match tree.kind? (target (parts ++ [name])) with
          | none => .error .notFound
          | some kind => .ok kind := by
  have happend := locate_append tree hroute.of_append [name]
  rw [find, find]
  cases hparts : tree.locate parts with
  | error fault =>
    rw [hparts] at happend
    rw [happend]
    rfl
  | ok entry =>
    rw [hparts] at happend
    cases entry with
    | file content =>
      rw [happend (List.cons_ne_nil _ _)]
      rfl
    | folder found =>
      obtain ⟨above, hleads, hlast⟩ := happend
      rw [hlast, target_concat]
      by_cases hup : name = ".."
      · subst hup
        obtain ⟨hfound, hkind⟩ := hleads.map_locateFrom_up
        have hshort : isLongName ".." = false := by decide
        rw [hfound, hkind, hshort]
        rfl
      · rw [map_locateFrom_name hup, follow_name (hroute.isNormal hup), hleads.kind?_append]
        rfl

/-- A folder is found at the end of a route exactly if there are folders all the way and no name is
too long. -/
theorem find_eq_folder_iff (hroute : IsRoute parts) :
    tree.find parts = .ok .folder ↔ (∀ name ∈ parts, isLongName name = false) ∧
      ∀ front, front <+: parts → tree.kind? (target front) = some .folder := by
  induction parts using List.reverseRecOn with
  | nil =>
    refine iff_of_true (find_nil tree) ⟨List.forall_mem_nil _, fun front hfront => ?_⟩
    obtain rfl := List.prefix_nil.mp hfront
    exact kind?_nil tree
  | append_singleton parts name ih =>
    have hstep : tree.find (parts ++ [name]) = .ok .folder ↔ tree.find parts = .ok .folder ∧
        isLongName name = false ∧ tree.kind? (target (parts ++ [name])) = some .folder := by
      rw [find_concat tree hroute]
      split
      case h_1 hparts => simp [hparts]
      case h_2 hparts => simp [hparts]
      case h_3 hparts =>
        cases isLongName name <;> cases tree.kind? (target (parts ++ [name])) <;> simp [hparts]
    rw [hstep, ih hroute.of_append, List.forall_mem_append, List.forall_mem_singleton]
    simp only [List.prefix_concat_iff, or_imp, forall_and, forall_eq]
    constructor
    · rintro ⟨⟨hnames, hfolders⟩, hname, hlast⟩
      exact ⟨⟨hnames, hname⟩, hlast, hfolders⟩
    · rintro ⟨⟨hnames, hname⟩, hlast, hfolders⟩
      exact ⟨⟨hnames, hfolders⟩, hname, hlast⟩

/-! ### Making folders -/

/-- A route along which folders stand or nothing at all, and with no name that is too long. -/
structure IsFree (tree : Directory) (parts : List String) : Prop where
  short : ∀ name ∈ parts, isLongName name = false
  noFile : ∀ front, front <+: parts →
    tree.kind? (target front) = some .folder ∨ tree.kind? (target front) = none

instance (tree : Directory) (parts : List String) : Decidable (tree.IsFree parts) :=
  decidable_of_iff ((∀ name ∈ parts, isLongName name = false) ∧ ∀ front ∈ parts.inits,
      tree.kind? (target front) = some .folder ∨ tree.kind? (target front) = none)
    ⟨fun h => ⟨h.1, fun front hfront => h.2 front ((List.mem_inits _ _).mpr hfront)⟩,
      fun h => ⟨h.short, fun front hfront => h.noFile front ((List.mem_inits _ _).mp hfront)⟩⟩

/-- A route with one more name is free if the route is, the name is not too long and no file bears
it. -/
theorem isFree_concat_iff : tree.IsFree (parts ++ [name]) ↔ tree.IsFree parts ∧
    isLongName name = false ∧ (tree.kind? (target (parts ++ [name])) = some .folder ∨
      tree.kind? (target (parts ++ [name])) = none) := by
  constructor
  · rintro ⟨hshort, hfile⟩
    rw [List.forall_mem_append, List.forall_mem_singleton] at hshort
    exact ⟨⟨hshort.1, fun front hfront => hfile front (hfront.trans (List.prefix_append _ _))⟩,
      hshort.2, hfile _ List.prefix_rfl⟩
  · rintro ⟨⟨hshort, hfile⟩, hname, hlast⟩
    refine ⟨?_, fun front hfront => ?_⟩
    · rw [List.forall_mem_append, List.forall_mem_singleton]
      exact ⟨hshort, hname⟩
    · obtain rfl | hfront := List.prefix_concat_iff.mp hfront
      · exact hlast
      · exact hfile front hfront

/-- A route along folders is free. -/
theorem IsFree.of_find (hroute : IsRoute parts) (hfind : tree.find parts = .ok .folder) :
    tree.IsFree parts := by
  obtain ⟨hshort, hfolders⟩ := (find_eq_folder_iff hroute).mp hfind
  exact ⟨hshort, fun front hfront => .inl (hfolders front hfront)⟩

/-- A free route leads to a folder or breaks off. -/
theorem IsFree.find (hfree : tree.IsFree parts) (hroute : IsRoute parts) :
    tree.find parts = .ok .folder ∨ tree.find parts = .error .notFound := by
  induction parts using List.reverseRecOn with
  | nil => exact .inl (find_nil tree)
  | append_singleton parts name ih =>
    obtain ⟨hparts, hshort, hkind⟩ := isFree_concat_iff.mp hfree
    rw [find_concat tree hroute, hshort]
    obtain hfind | hfind := ih hparts hroute.of_append
    · rw [hfind]
      obtain hkind | hkind := hkind
      · rw [hkind]
        exact .inl rfl
      · rw [hkind]
        exact .inr rfl
    · rw [hfind]
      exact .inr rfl

/-- A tree with all the folders along a route, which are all that is new in it. -/
structure Made (tree : Directory) (parts : List String) (folders : Directory) : Prop where
  free : tree.IsFree parts
  find_eq : folders.find parts = .ok .folder
  kind?_eq : ∀ place, (∀ front, front <+: parts → target front ≠ place) →
    folders.kind? place = tree.kind? place

/-- Once a route is made, there are folders all along it. -/
theorem Made.kind?_target {folders : Directory} (hmade : Made tree parts folders)
    (hroute : IsRoute parts) {front : List String} (hfront : front <+: parts) :
    folders.kind? (target front) = some .folder :=
  ((find_eq_folder_iff hroute).mp hmade.find_eq).2 front hfront

/-- Folders along a route bar no way that the route was free for. -/
theorem Made.isFree_concat_iff {folders : Directory} (hmade : Made tree parts folders)
    (hroute : IsRoute parts) :
    folders.IsFree (parts ++ [name]) ↔ tree.IsFree (parts ++ [name]) := by
  rw [Directory.isFree_concat_iff, Directory.isFree_concat_iff]
  refine and_congr (iff_of_true (.of_find hroute hmade.find_eq) hmade.free)
    (and_congr_right fun _ => ?_)
  by_cases hthere : ∃ front, front <+: parts ∧ target front = target (parts ++ [name])
  · obtain ⟨front, hfront, htarget⟩ := hthere
    rw [← htarget]
    exact iff_of_true (.inl (hmade.kind?_target hroute hfront)) (hmade.free.noFile front hfront)
  · push Not at hthere
    rw [hmade.kind?_eq _ hthere]

/-- Making a folder in a folder that is found. -/
theorem addFolder_of_find (hroute : IsRoute (parts ++ [name]))
    (hfind : tree.find parts = .ok .folder) :
    tree.addFolder parts name =
      if name = ".." then .error .exists
      else if isLongName name then .error .nameTooLong
      else if (tree.kind? (target (parts ++ [name]))).isSome then .error .exists
      else .ok (tree.insert (.folder empty) (target (parts ++ [name]))) := by
  cases hlocate : tree.locate parts with
  | error fault => simp [find, hlocate, Except.map] at hfind
  | ok entry =>
    cases entry with
    | file content => simp [find, hlocate, Except.map, Entry.kind] at hfind
    | folder found =>
      rw [addFolder, hlocate, hroute.walk_eq]
      by_cases hup : name = ".."
      · simp [hup]
      · have hkind := kind?_of_locate hroute.of_append hlocate [name]
        rw [target_concat, follow_name (hroute.isNormal hup), hkind]
        have hsome : (found.kind? [name]).isSome = (found.entry? name).isSome := by
          rw [kind?]
          cases found.entry? name with
          | none => rfl
          | some entry => cases entry <;> simp
        rw [hsome]

/-- No folder is made where none is found. -/
theorem addFolder_of_error {fault : FileFault} (hfind : tree.find parts = .error fault) :
    tree.addFolder parts name = .error fault := by
  cases hlocate : tree.locate parts with
  | error other =>
    rw [addFolder, hlocate]
    simpa [find, hlocate, Except.map] using hfind
  | ok entry => simp [find, hlocate, Except.map] at hfind

/-- No folder is added where a file stands. -/
theorem addFolder_of_file {content : Bytes} (hfind : tree.find parts = .ok (.file content)) :
    tree.addFolder parts name = .error .notDirectory := by
  cases hlocate : tree.locate parts with
  | error other => simp [find, hlocate, Except.map] at hfind
  | ok entry =>
    cases entry with
    | file other => rw [addFolder, hlocate]
    | folder found => simp [find, hlocate, Except.map, Entry.kind] at hfind

/-- A folder that cannot be made is kept if it is found. -/
theorem keepFolder_of_error {fault : FileFault} (hadd : tree.addFolder parts name = .error fault) :
    tree.keepFolder parts name =
      if tree.find (parts ++ [name]) = .ok .folder then .ok tree else .error fault := by
  rw [keepFolder, hadd, find]
  cases tree.locate (parts ++ [name]) with
  | error other => simp [Except.map]
  | ok entry => cases entry <;> simp [Except.map, Entry.kind]

/-- A tree is made of itself where a folder is found. -/
theorem Made.of_find (hroute : IsRoute parts) (hfind : tree.find parts = .ok .folder) :
    Made tree parts tree := ⟨.of_find hroute hfind, hfind, fun _ _ => rfl⟩

/-- A folder that is inserted where nothing stood is all that is new. -/
theorem Made.insert (hroute : IsRoute (parts ++ [name])) (hfind : tree.find parts = .ok .folder)
    (hshort : isLongName name = false) (hup : name ≠ "..")
    (hnone : tree.kind? (target (parts ++ [name])) = none) :
    Made tree (parts ++ [name]) (tree.insert (.folder empty) (target (parts ++ [name]))) := by
  have hparts := (find_eq_folder_iff hroute.of_append).mp hfind
  have htarget : target (parts ++ [name]) = target parts ++ [name] := by
    rw [target_concat, follow_name (hroute.isNormal hup)]
  have hkind (place : List String) :
      (tree.insert (.folder empty) (target (parts ++ [name]))).kind? place =
        if place = target (parts ++ [name]) then some .folder else tree.kind? place := by
    have hbare : (Entry.folder empty).IsBare := rfl
    rw [htarget] at hnone ⊢
    exact kind?_insert (hparts.2 parts List.prefix_rfl) (by simp [hnone]) hbare place
  refine ⟨Directory.isFree_concat_iff.mpr ⟨.of_find hroute.of_append hfind, hshort, .inr hnone⟩,
    (find_eq_folder_iff hroute).mpr ⟨?_, fun front hfront => ?_⟩, fun place hplace => ?_⟩
  · rw [List.forall_mem_append, List.forall_mem_singleton]
    exact ⟨hparts.1, hshort⟩
  · rw [hkind]
    split_ifs with hlast
    · rfl
    · obtain rfl | hfront := List.prefix_concat_iff.mp hfront
      · exact absurd rfl hlast
      · exact hparts.2 front hfront
  · rw [hkind, if_neg (hplace _ List.prefix_rfl).symm]

/-- A folder is made or kept in a folder that is found, unless a file or a long name is in the
way. -/
theorem keepFolder_of_find (hroute : IsRoute (parts ++ [name]))
    (hfind : tree.find parts = .ok .folder) :
    match tree.keepFolder parts name with
    | .ok folders => Made tree (parts ++ [name]) folders
    | .error _ => ¬ tree.IsFree (parts ++ [name]) := by
  have hadd := addFolder_of_find hroute hfind
  have hnext := find_concat tree hroute
  rw [hfind] at hnext
  -- whatever cannot be made is kept if it is a folder, and is in the way otherwise
  have hkept {fault : FileFault} (hfault : tree.addFolder parts name = .error fault)
      (hkind : tree.kind? (target (parts ++ [name])) ≠ none ∨ isLongName name = true) :
      match tree.keepFolder parts name with
      | .ok folders => Made tree (parts ++ [name]) folders
      | .error _ => ¬ tree.IsFree (parts ++ [name]) := by
    rw [keepFolder_of_error hfault]
    by_cases hfolder : tree.find (parts ++ [name]) = .ok .folder
    · rw [if_pos hfolder]
      exact .of_find hroute hfolder
    · rw [if_neg hfolder]
      intro hfree
      have hnone := (hfree.find hroute).resolve_left hfolder
      rw [hnext] at hnone
      have hshort := hfree.short name (by simp)
      cases htarget : tree.kind? (target (parts ++ [name])) <;> simp_all
  split_ifs at hadd with hup hlong hthere
  · subst hup
    have hparts := (find_eq_folder_iff hroute.of_append).mp hfind
    have habove := kind?_dropLast (hparts.2 parts List.prefix_rfl)
    rw [← follow_up, ← target_concat] at habove
    exact hkept hadd (.inl (by simp [habove]))
  · exact hkept hadd (.inr hlong)
  · exact hkept hadd (.inl (Option.isSome_iff_ne_none.mp hthere))
  · have hnone : tree.kind? (target (parts ++ [name])) = none := by simpa using hthere
    rw [keepFolder, hadd]
    exact .insert hroute hfind (by simpa using hlong) hup hnone

/-- Where a route breaks off otherwise than at a missing folder, nothing is made. -/
theorem keepFolder_of_error_ne {fault : FileFault} (hroute : IsRoute (parts ++ [name]))
    (hadd : tree.addFolder parts name = .error fault) (hfind : tree.find parts ≠ .ok .folder) :
    tree.keepFolder parts name = .error fault := by
  have hnext := find_concat tree hroute
  rw [keepFolder_of_error hadd, if_neg]
  rw [hnext]
  cases hparts : tree.find parts with
  | error other => simp
  | ok kind =>
    cases kind with
    | file content => simp
    | folder => exact absurd hparts hfind

/-- What one more folder adds to the folders along a route. -/
theorem Made.concat {folders more : Directory} (hmade : Made tree parts folders)
    (hroute : IsRoute (parts ++ [name])) (hmore : Made folders (parts ++ [name]) more) :
    Made tree (parts ++ [name]) more := by
  refine ⟨(hmade.isFree_concat_iff hroute.of_append).mp hmore.free, hmore.find_eq,
    fun place hplace => ?_⟩
  rw [hmore.kind?_eq place hplace]
  exact hmade.kind?_eq place fun front hfront =>
    hplace front (hfront.trans (List.prefix_append _ _))

/-- A folder is missing for want of the folder above it. -/
theorem addFolder_eq_notFound_iff :
    tree.addFolder parts name = .error .notFound ↔ tree.find parts = .error .notFound := by
  unfold addFolder find
  cases tree.locate parts with
  | error fault => simp [Except.map]
  | ok entry =>
    cases entry with
    | file content => simp [Except.map]
    | folder found =>
      dsimp only
      split_ifs <;> simp [Except.map]

/-- The folders of a route are made from the last one up, as far as the folders above are
missing. -/
theorem keepFolders_concat (tree : Directory) (parts : List String) (name : String) :
    tree.keepFolders (parts ++ [name]).reverse =
      if tree.find parts = .error .notFound then
        (tree.keepFolders parts.reverse).bind (·.keepFolder parts name)
      else tree.keepFolder parts name := by
  rw [List.reverse_append, List.reverse_singleton, List.singleton_append, keepFolders,
    List.reverse_reverse]
  split
  case h_1 hadd => rw [if_pos (addFolder_eq_notFound_iff.mp hadd)]; rfl
  case h_2 hadd => rw [if_neg (mt addFolder_eq_notFound_iff.mpr hadd)]

/-- Folders are made along a route exactly if it is free. -/
theorem keepFolders_reverse (tree : Directory) (hroute : IsRoute parts) :
    match tree.keepFolders parts.reverse with
    | .ok folders => Made tree parts folders
    | .error _ => ¬ tree.IsFree parts := by
  induction parts using List.reverseRecOn with
  | nil => exact .of_find hroute (find_nil tree)
  | append_singleton parts name ih =>
    rw [keepFolders_concat]
    by_cases hmissing : tree.find parts = .error .notFound
    · have hmade := ih hroute.of_append
      rw [if_pos hmissing]
      cases hfolders : tree.keepFolders parts.reverse with
      | error fault =>
        rw [hfolders] at hmade
        exact fun hfree => hmade (isFree_concat_iff.mp hfree).1
      | ok folders =>
        rw [hfolders] at hmade
        have hlast := keepFolder_of_find hroute hmade.find_eq
        rw [Except.bind]
        cases hkeep : folders.keepFolder parts name with
        | error fault =>
          rw [hkeep] at hlast
          exact fun hfree => hlast ((hmade.isFree_concat_iff hroute.of_append).mpr hfree)
        | ok more =>
          rw [hkeep] at hlast
          exact hmade.concat hroute hlast
    · rw [if_neg hmissing]
      by_cases hfolder : tree.find parts = .ok .folder
      · exact keepFolder_of_find hroute hfolder
      · obtain ⟨fault, hadd⟩ : ∃ fault, tree.addFolder parts name = .error fault := by
          cases hfind : tree.find parts with
          | error fault => exact ⟨fault, addFolder_of_error hfind⟩
          | ok kind =>
            cases kind with
            | file content => exact ⟨_, addFolder_of_file hfind⟩
            | folder => exact absurd hfind hfolder
        rw [keepFolder_of_error_ne hroute hadd hfolder]
        exact fun hfree =>
          ((isFree_concat_iff.mp hfree).1.find hroute.of_append).elim hfolder hmissing

end Directory

end ChangeImpact
