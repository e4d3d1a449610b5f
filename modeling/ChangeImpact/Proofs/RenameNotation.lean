import ChangeImpact.Proofs.BytewiseName
import ChangeImpact.Proofs.PathWalk
import ChangeImpact.Proofs.PrintedPath

/-!
# The rename notation of two paths

Two paths are printed with an arrow between them, each in quotes if it needs them, or with the
folders at their beginning and the segments at their end that both share written once around braces.
Where neither path has a brace or the tip of the arrow, the first arrow and braces of such a text
are the printed ones, so it is read as the two paths whatever blanks, quotes, backslashes and
control characters are in them.
-/

namespace ChangeImpact.RenamedPath

open Text

/-! ### The notation -/

/-- The forms in which the old and the new path of a file are printed together. -/
inductive IsRenameNotation (old new : List Char) : List Char → Prop
  /-- Each path in quotes if it needs them, with any characters printed byte by byte. -/
  | whole (bytewise bytewise' : ℕ → Bool) :
    IsRenameNotation old new
      (Git.quotedName bytewise old ++ (arrow ++ Git.quotedName bytewise' new))
  /-- Neither path needs quotes, and what they share is written around braces. -/
  | braces (lead trail : List Char) {oldPart newPart : List Char}
      (hold : Git.isQuoted old = false) (hnew : Git.isQuoted new = false)
      (hcut : IsCut lead trail oldPart old) (hcut' : IsCut lead trail newPart new) :
    IsRenameNotation old new
      (lead ++ '\x7b' :: (oldPart ++ (arrow ++ (newPart ++ '\x7d' :: trail))))

/-- The beginning that two texts share. -/
def sharedFront : List Char → List Char → List Char
  | c :: first, d :: second => if c = d then c :: sharedFront first second else []
  | _, _ => []

/-- The folders at the beginning that two paths share, with the slash behind them. -/
def sharedLead (old new : List Char) : List Char :=
  ((sharedFront old new).reverse.dropWhile (· != '/')).reverse

/-- The segments at the end that two paths share, with the slash before them, which may be the one
behind their shared beginning. -/
def sharedTrail (lead old new : List Char) : List Char :=
  let start := lead.length - 1
  (sharedFront (old.drop start).reverse (new.drop start).reverse).reverse.dropWhile (· != '/')

/-- What stands in a path between its beginning and its end. -/
def middle (lead trail path : List Char) : List Char :=
  (path.drop lead.length).take (path.length - lead.length - trail.length)

/-- How two paths are printed together: in braces wherever they share something and need no
quotes. -/
def renameNotation (old new : List Char) : List Char :=
  let lead := sharedLead old new
  let trail := sharedTrail lead old new
  if Git.isQuoted old || Git.isQuoted new || (lead ++ trail).isEmpty then
    Git.printedName old ++ (arrow ++ Git.printedName new)
  else
    lead ++ '\x7b' ::
      (middle lead trail old ++ (arrow ++ (middle lead trail new ++ '\x7d' :: trail)))

/-- Paths for which the notation is unambiguous: normalised ones without braces and without the tip
of an arrow. -/
structure IsRenamable (path : String) : Prop where
  isNormal : ∀ segment ∈ Path.segments path, Path.IsNormal segment
  openingBrace_not_mem : '\x7b' ∉ path.toList
  closingBrace_not_mem : '\x7d' ∉ path.toList
  tip_not_mem : '>' ∉ path.toList

/-! ### Slashes of a normalised path -/

namespace IsRenamable

variable {path : String} {before after : List Char}

/-- Around a slash of a normalised path there are normal segments on both sides. -/
theorem isNormal_around (hpath : IsRenamable path) (htext : path.toList = before ++ '/' :: after) :
    (∀ segment ∈ Path.segments (String.ofList before), Path.IsNormal segment) ∧
      ∀ segment ∈ Path.segments (String.ofList after), Path.IsNormal segment := by
  have hparts : path = String.ofList before ++ "/" ++ String.ofList after := by
    rw [← String.toList_inj, htext]
    simp [String.toList_append]
  have hnormal := hpath.isNormal
  rw [hparts, Path.segments_append_slash, List.forall_mem_append] at hnormal
  exact hnormal

/-- The empty path is not normalised. -/
theorem toList_ne_nil (hpath : IsRenamable path) : path.toList ≠ [] := by
  intro hempty
  have htext : path = "" := String.toList_inj.mp hempty
  have hnormal := hpath.isNormal
  rw [htext, Path.segments_empty, List.forall_mem_singleton] at hnormal
  exact hnormal.1 rfl

/-- Something stands on both sides of a slash of a normalised path, and no slash at its other
side. -/
theorem ne_nil_around (hpath : IsRenamable path) (htext : path.toList = before ++ '/' :: after) :
    before ≠ [] ∧ after ≠ [] ∧ ∀ rest, after ≠ '/' :: rest := by
  have hempty : ¬ ∀ segment ∈ Path.segments "", Path.IsNormal segment := by
    rw [Path.segments_empty, List.forall_mem_singleton]
    exact fun hnormal => hnormal.1 rfl
  obtain ⟨hbefore, hafter⟩ := hpath.isNormal_around htext
  refine ⟨?_, ?_, ?_⟩
  · rintro rfl
    exact hempty hbefore
  · rintro rfl
    exact hempty hafter
  · rintro rest rfl
    have hparts : String.ofList ('/' :: rest) = "" ++ "/" ++ String.ofList rest := by
      rw [← String.toList_inj]
      simp [String.toList_append]
    rw [hparts, Path.segments_append_slash, List.forall_mem_append] at hafter
    exact hempty hafter.1

/-- The slashes of a normalised path are single. -/
theorem singleSlashes (hpath : IsRenamable path) : SingleSlashes path.toList := by
  rintro ⟨before, rest, htext⟩
  rw [List.append_assoc] at htext
  exact (hpath.ne_nil_around htext.symm).2.2 rest rfl

end IsRenamable

/-! ### What two paths share -/

/-- The shared beginning is one of both texts. -/
theorem sharedFront_isPrefix (first second : List Char) :
    sharedFront first second <+: first ∧ sharedFront first second <+: second := by
  fun_induction sharedFront first second with
  | case1 c first second ih =>
    exact ⟨List.cons_prefix_cons.mpr ⟨rfl, ih.1⟩, List.cons_prefix_cons.mpr ⟨rfl, ih.2⟩⟩
  | case2 => exact ⟨List.nil_prefix, List.nil_prefix⟩
  | case3 => exact ⟨List.nil_prefix, List.nil_prefix⟩

/-- Behind what is dropped before a slash, there is a slash or nothing. -/
theorem dropWhile_bne_slash (text : List Char) :
    text.dropWhile (· != '/') = [] ∨ ∃ rest, text.dropWhile (· != '/') = '/' :: rest := by
  cases hrest : text.dropWhile (· != '/') with
  | nil => exact .inl rfl
  | cons c rest =>
    have hhead := List.head?_dropWhile_not (· != '/') text
    rw [hrest] at hhead
    have hc : c = '/' := by simpa using hhead
    exact .inr ⟨rest, by rw [hc]⟩

/-- The shared folders are the beginning of both paths and end with a slash, if there are any. -/
theorem sharedLead_spec (old new : List Char) :
    (sharedLead old new <+: old ∧ sharedLead old new <+: new) ∧
      (sharedLead old new = [] ∨ ∃ before, sharedLead old new = before ++ ['/']) := by
  have hfront : sharedLead old new <+: sharedFront old new := by
    rw [sharedLead, ← List.reverse_suffix, List.reverse_reverse]
    exact List.dropWhile_suffix _
  have hshared := sharedFront_isPrefix old new
  refine ⟨⟨hfront.trans hshared.1, hfront.trans hshared.2⟩, ?_⟩
  obtain hnone | ⟨rest, hrest⟩ := dropWhile_bne_slash (sharedFront old new).reverse
  · exact .inl (by rw [sharedLead, hnone, List.reverse_nil])
  · exact .inr ⟨rest.reverse, by rw [sharedLead, hrest, List.reverse_cons]⟩

/-- The shared segments are the end of both paths and start with a slash, if there are any. -/
theorem sharedTrail_spec (lead old new : List Char) :
    (sharedTrail lead old new <:+ old.drop (lead.length - 1) ∧
        sharedTrail lead old new <:+ new.drop (lead.length - 1)) ∧
      (sharedTrail lead old new = [] ∨ ∃ after, sharedTrail lead old new = '/' :: after) := by
  obtain ⟨hold, hnew⟩ := sharedFront_isPrefix (old.drop (lead.length - 1)).reverse
    (new.drop (lead.length - 1)).reverse
  rw [← List.reverse_suffix, List.reverse_reverse] at hold hnew
  exact ⟨⟨(List.dropWhile_suffix _).trans hold, (List.dropWhile_suffix _).trans hnew⟩,
    dropWhile_bne_slash _⟩

/-- What stands between the two ends of a path is its middle. -/
theorem middle_append (lead part trail : List Char) :
    middle lead trail (lead ++ part ++ trail) = part := by
  rw [middle, List.append_assoc, List.drop_left]
  exact List.take_left' (by simp only [List.length_append]; omega)

/-- A normalised path is cut at folders at its beginning and segments at its end. Both may have the
same slash; then nothing stands between them. -/
theorem IsRenamable.isCut {path : String} {lead trail : List Char} (hpath : IsRenamable path)
    (hlead : lead <+: path.toList) (hends : lead = [] ∨ ∃ before, lead = before ++ ['/'])
    (htrail : trail <:+ path.toList.drop (lead.length - 1))
    (hstarts : trail = [] ∨ ∃ after, trail = '/' :: after) (hsome : lead ++ trail ≠ []) :
    IsCut lead trail (middle lead trail path.toList) path.toList := by
  have hsingle := hpath.singleSlashes
  have hfilled (part : List Char) (htext : path.toList = lead ++ part ++ trail)
      (hpart : part ≠ []) : IsCut lead trail (middle lead trail path.toList) path.toList := by
    rw [htext] at hsingle ⊢
    rw [middle_append]
    exact .filled hpart hsingle
  obtain rfl | ⟨before, rfl⟩ := hends
  · obtain ⟨part, htext⟩ : trail <:+ path.toList := htrail
    refine hfilled part htext.symm ?_
    rintro rfl
    obtain rfl | ⟨after, rfl⟩ := hstarts
    · exact hsome rfl
    · exact (hpath.ne_nil_around htext.symm).1 rfl
  · obtain ⟨rest, htext⟩ := hlead
    have hslash : path.toList = before ++ '/' :: rest := by rw [← htext]; simp
    have hdrop : path.toList.drop ((before ++ ['/']).length - 1) = '/' :: rest := by
      rw [hslash, List.length_append, List.length_singleton, Nat.add_sub_cancel, List.drop_left]
    rw [hdrop, List.suffix_cons_iff] at htrail
    obtain rfl | ⟨part, rfl⟩ := htrail
    · have hmiddle : middle (before ++ ['/']) ('/' :: rest) path.toList = [] := by
        have hlength :
            path.toList.length - (before ++ ['/']).length - ('/' :: rest).length = 0 := by
          rw [hslash]
          simp only [List.length_append, List.length_cons, List.length_nil]
          omega
        rw [middle, hlength, List.take_zero]
      rw [hmiddle, hslash]
      exact .empty before rest rfl rfl (hslash ▸ hsingle)
    · refine hfilled part (by rw [hslash]; simp) ?_
      rintro rfl
      obtain ⟨-, hne, hsep⟩ := hpath.ne_nil_around hslash
      obtain rfl | ⟨after, rfl⟩ := hstarts
      · exact hne rfl
      · exact hsep after rfl

/-- Printing is a form of the notation. -/
theorem isRenameNotation_renameNotation {old new : String} (hold : IsRenamable old)
    (hnew : IsRenamable new) :
    IsRenameNotation old.toList new.toList (renameNotation old.toList new.toList) := by
  obtain ⟨⟨hlead, hlead'⟩, hends⟩ := sharedLead_spec old.toList new.toList
  obtain ⟨⟨htrail, htrail'⟩, hstarts⟩ :=
    sharedTrail_spec (sharedLead old.toList new.toList) old.toList new.toList
  rw [renameNotation]
  split_ifs with hwhole
  · rw [← Git.quotedName_of_none, ← Git.quotedName_of_none]
    exact .whole _ _
  · simp only [Bool.or_eq_true, not_or, List.isEmpty_iff, Bool.not_eq_true] at hwhole
    obtain ⟨⟨hplain, hplain'⟩, hsome⟩ := hwhole
    exact .braces _ _ hplain hplain' (hold.isCut hlead hends htrail hstarts hsome)
      (hnew.isCut hlead' hends htrail' hstarts hsome)

/-! ### Reading the notation -/

/-- A text without further tips of arrows is cut at its only arrow. -/
theorem cutAt?_arrow {left right : List Char} (hleft : '>' ∉ left) (hright : '>' ∉ right) :
    cutAt? arrow (left ++ (arrow ++ right)) = some (left, right) := by
  obtain ⟨front, back, hcut, -⟩ := exists_cutAt? arrow left right
  have htext := append_of_cutAt? hcut
  -- Both ways to split the text have its only tip in the arrow.
  have htip (first second : List Char) : first ++ (arrow ++ second) =
      (first ++ [' ', '=']) ++ '>' :: (' ' :: second) := by simp [arrow]
  have hbefore : '>' ∉ left ++ [' ', '='] := by simpa using hleft
  have hbehind : '>' ∉ ' ' :: right := by simpa using hright
  rw [htip, htip, eq_comm, List.append_cons_inj_of_notMem hbefore hbehind] at htext
  obtain ⟨hfront, -, hback⟩ := htext
  rw [hcut, List.append_cancel_right hfront, (List.cons.inj hback).2]

section Read

variable {old new : String}

/-- A character other than those of escapes does not stand in a quoted path where it does not stand
in the path. -/
theorem not_mem_quotedName_of_not_mem {path : List Char} {c : Char} (bytewise : ℕ → Bool)
    (hmark : c ∉ Git.escapeMarks) (hpath : c ∉ path) : c ∉ Git.quotedName bytewise path :=
  Git.not_mem_quotedName hmark fun hmem => absurd hmem hpath

/-- Paths that are printed whole are read back. -/
theorem ofPrinted_quotedNames (hold : IsRenamable old) (hnew : IsRenamable new)
    (bytewise bytewise' : ℕ → Bool) :
    ofPrinted (String.ofList
      (Git.quotedName bytewise old.toList ++ (arrow ++ Git.quotedName bytewise' new.toList))) =
      some ⟨new, some old⟩ := by
  have hline (choice : ℕ → Bool) (path : String) : '\n' ∉ Git.quotedName choice path.toList :=
    Git.not_mem_quotedName (by decide) fun _ => by decide
  have hbrace {path : String} (hpath : IsRenamable path) (choice : ℕ → Bool) :
      '\x7b' ∉ Git.quotedName choice path.toList :=
    not_mem_quotedName_of_not_mem choice (by decide) hpath.openingBrace_not_mem
  have htip {path : String} (hpath : IsRenamable path) (choice : ℕ → Bool) :
      '>' ∉ Git.quotedName choice path.toList :=
    not_mem_quotedName_of_not_mem choice (by decide) hpath.tip_not_mem
  have hsides : plainSides?
      (Git.quotedName bytewise old.toList ++ (arrow ++ Git.quotedName bytewise' new.toList)) =
      some (Git.quotedName bytewise old.toList, Git.quotedName bytewise' new.toList) := by
    have htip' := htip hold bytewise
    obtain ⟨c, left, hleft⟩ :=
      List.exists_cons_of_ne_nil (Git.quotedName_ne_nil bytewise hold.toList_ne_nil)
    rw [hleft, List.mem_cons, not_or] at htip'
    rw [hleft]
    exact plainSides?_cons_append (cutAt?_arrow htip'.2 (htip hnew bytewise'))
      (Git.quotedName_ne_nil bytewise' hnew.toList_ne_nil)
  have hread (choice : ℕ → Bool) (path : String) :
      Git.unquote (String.ofList (Git.quotedName choice path.toList)) = some path := by
    rw [Git.unquote_ofList_quotedName, String.ofList_toList]
  refine ofPrinted_whole ?_ ?_ hsides (hread bytewise old) (hread bytewise' new)
  · simp only [List.mem_append, not_or]
    exact ⟨hline bytewise old, by decide, hline bytewise' new⟩
  · simp only [List.mem_append, not_or]
    exact ⟨hbrace hold bytewise, by decide, hbrace hnew bytewise'⟩

/-- Paths that are printed around braces are read back. -/
theorem ofPrinted_cutPaths {lead trail oldPart newPart : List Char} (hold : IsRenamable old)
    (hnew : IsRenamable new) (hplain : Git.isQuoted old.toList = false)
    (hplain' : Git.isQuoted new.toList = false) (hcut : IsCut lead trail oldPart old.toList)
    (hcut' : IsCut lead trail newPart new.toList) :
    ofPrinted (String.ofList
      (lead ++ '\x7b' :: (oldPart ++ (arrow ++ (newPart ++ '\x7d' :: trail))))) =
      some ⟨new, some old⟩ := by
  have hline {path : String} (hpath : Git.isQuoted path.toList = false) : '\n' ∉ path.toList :=
    fun hmem => absurd (Git.isSpecial_eq_false hpath hmem) (by decide)
  -- What stands in none of the two paths stands in none of their parts.
  have hold' {c : Char} (hc : c ∉ old.toList) : c ∉ lead ∧ c ∉ oldPart ∧ c ∉ trail := by
    have hparts : c ∉ lead ++ oldPart ++ trail := fun hmem => hc (hcut.mem_path hmem)
    simpa [and_assoc] using hparts
  have hnew' {c : Char} (hc : c ∉ new.toList) : c ∉ newPart := by
    have hparts : c ∉ lead ++ newPart ++ trail := fun hmem => hc (hcut'.mem_path hmem)
    simp only [List.mem_append, not_or] at hparts
    exact hparts.1.2
  have htext : '\n' ∉ lead ++ '\x7b' :: (oldPart ++ (arrow ++ (newPart ++ '\x7d' :: trail))) := by
    obtain ⟨hlead, hpart, htrail⟩ := hold' (hline hplain)
    simp only [List.mem_append, List.mem_cons, not_or]
    exact ⟨hlead, by decide, hpart, by decide, hnew' (hline hplain'), by decide, htrail⟩
  have htip : '>' ∉ newPart ++ '\x7d' :: trail := by
    simp only [List.mem_append, List.mem_cons, not_or]
    exact ⟨hnew' hnew.tip_not_mem, by decide, (hold' hold.tip_not_mem).2.2⟩
  have hparts := braceParts?_append (hold' hold.openingBrace_not_mem).1
    (cutAt?_arrow (hold' hold.tip_not_mem).2.1 htip) (hnew' hnew.closingBrace_not_mem)
  have hread := ofPrinted_braces htext hparts hcut hcut'
  rwa [String.ofList_toList, String.ofList_toList] at hread

/-- The rename notation of two paths is read as the new and the old one, in each of its forms; one
of these is the form with the longest shared ends around braces. -/
theorem ofPrinted_renameNotation (hold : IsRenamable old) (hnew : IsRenamable new) :
    IsRenameNotation old.toList new.toList (renameNotation old.toList new.toList) ∧
      ∀ printed, IsRenameNotation old.toList new.toList printed →
        ofPrinted (String.ofList printed) = some ⟨new, some old⟩ := by
  refine ⟨isRenameNotation_renameNotation hold hnew, fun printed hprinted => ?_⟩
  cases hprinted with
  | whole bytewise bytewise' => exact ofPrinted_quotedNames hold hnew bytewise bytewise'
  | braces lead trail hplain hplain' hcut hcut' =>
    exact ofPrinted_cutPaths hold hnew hplain hplain' hcut hcut'

/-- A file that moves down into a new folder, and one whose new name needs quotes. -/
theorem ofPrinted_renameNotation_moved :
    let old := "dir/a b.ts"
    let below := "dir/sub/a b.ts"
    let quoted := "dir/\"a\tb\".ts"
    IsRenamable old ∧ IsRenamable below ∧ IsRenamable quoted ∧
      ofPrinted "dir/\x7b => sub\x7d/a b.ts" = some ⟨below, some old⟩ ∧
      ofPrinted "dir/a b.ts => \"dir/\\\"a\\tb\\\".ts\"" = some ⟨quoted, some old⟩ := by
  intro old below quoted
  have hold : IsRenamable old := ⟨by decide, by decide, by decide, by decide⟩
  have hbelow : IsRenamable below := ⟨by decide, by decide, by decide, by decide⟩
  have hquoted : IsRenamable quoted := ⟨by decide, by decide, by decide, by decide⟩
  have hprinted : String.ofList (renameNotation old.toList below.toList) =
      "dir/\x7b => sub\x7d/a b.ts" := by decide
  have hprinted' : String.ofList (renameNotation old.toList quoted.toList) =
      "dir/a b.ts => \"dir/\\\"a\\tb\\\".ts\"" := by decide
  obtain ⟨hform, hread⟩ := ofPrinted_renameNotation hold hbelow
  obtain ⟨hform', hread'⟩ := ofPrinted_renameNotation hold hquoted
  exact ⟨hold, hbelow, hquoted, hprinted ▸ hread _ hform, hprinted' ▸ hread' _ hform'⟩

end Read

end ChangeImpact.RenamedPath
