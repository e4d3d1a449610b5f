import ChangeImpact.Change.Rename
import ChangeImpact.Proofs.QuotedName

/-!
# Reading printed paths

A path without blanks, quotes, backslashes and braces is printed as it is. The old and the new path
of a file are printed with an arrow between them, either whole or with their common ends written
once around braces. Reading gives back both paths, as the first arrow, brace and closing brace of
such a text are the printed ones and a slash that an empty part doubles is single in the path.
-/

namespace ChangeImpact

open Text

/-- Characters that are printed as they are and are no brace. -/
def isPlain (c : Char) : Bool :=
  !isBlank c && c != '"' && c != '\\' && c != '\x7b' && c != '\x7d'

/-- A path of plain characters. -/
structure PlainPath where
  chars : List Char
  chars_ne_nil : chars ≠ []
  isPlain_of_mem : ∀ c ∈ chars, isPlain c = true

namespace PlainPath

variable {path : PlainPath} {c : Char}

/-- The path as a string. -/
def text (path : PlainPath) : String := String.ofList path.chars

/-- A character that is not plain does not stand in a plain path. -/
theorem not_mem (path : PlainPath) (hc : isPlain c = false) : c ∉ path.chars := by
  intro hmem
  rw [path.isPlain_of_mem c hmem] at hc
  cases hc

/-- A plain path is not quoted. -/
theorem unquote_text (path : PlainPath) : Git.unquote path.text = some path.text :=
  Git.unquote_eq_self fun hhead => path.not_mem (by decide) (List.mem_of_head? hhead)

end PlainPath

namespace RenamedPath

/-- A text that is read as two paths: on one line but for a newline at its very end, with an arrow
between texts that are not empty. -/
def HasArrow (text : List Char) : Prop :=
  '\n' ∉ withoutLastNewline text ∧
    ∃ left right, left ≠ [] ∧ right ≠ [] ∧ withoutLastNewline text = left ++ (arrow ++ right)

/-- Between the braces of the brace form there is an arrow. -/
theorem exists_arrow_of_braceParts? {text lead old new trail : List Char}
    (hparts : braceParts? text = some (lead, old, new, trail)) :
    text = (lead ++ '\x7b' :: old) ++ (arrow ++ (new ++ '\x7d' :: trail)) := by
  simp only [braceParts?, Option.bind_eq_bind, Option.bind_eq_some_iff, Option.pure_def,
    Option.some.injEq, Prod.mk.injEq] at hparts
  obtain ⟨⟨_, rest⟩, hopen, ⟨_, inner⟩, hmiddle, ⟨_, _⟩, hclose, rfl, rfl, rfl, rfl⟩ := hparts
  have htext := append_of_cutAt? hopen
  have hrest := append_of_cutAt? hmiddle
  have hinner := append_of_cutAt? hclose
  simp only at hrest hinner
  rw [← htext, ← hrest, ← hinner]
  simp

/-- The sides of the plain form stand around an arrow. -/
theorem exists_arrow_of_plainSides? {text left right : List Char}
    (hsides : plainSides? text = some (left, right)) :
    left ≠ [] ∧ right ≠ [] ∧ text = left ++ (arrow ++ right) := by
  cases text with
  | nil => cases hsides
  | cons c rest =>
    rw [plainSides?] at hsides
    split at hsides
    · next hcut =>
      split_ifs at hsides with hempty
      cases hsides
      refine ⟨List.cons_ne_nil _ _, by simpa using hempty, ?_⟩
      rw [List.cons_append, append_of_cutAt? hcut]
    · cases hsides

/-- A text with an arrow between texts that are not empty has two sides. -/
theorem plainSides?_ne_none {left right : List Char} (hleft : left ≠ []) (hright : right ≠ []) :
    plainSides? (left ++ (arrow ++ right)) ≠ none := by
  obtain ⟨c, left, rfl⟩ := List.exists_cons_of_ne_nil hleft
  obtain ⟨front, back, hcut, hback⟩ := exists_cutAt? arrow left right
  have hne : back ≠ [] := by
    rintro rfl
    exact hright (List.suffix_nil.mp hback)
  rw [List.cons_append, plainSides?, hcut]
  simp [hne]

/-- A text stands for itself alone exactly if it has no such arrow. -/
theorem ofPrinted_eq_self_iff {text : List Char} :
    ofPrinted (String.ofList text) = some ⟨String.ofList text, none⟩ ↔ ¬ HasArrow text := by
  rw [ofPrinted, String.toList_ofList, HasArrow]
  simp only [List.contains_eq_mem, decide_eq_true_eq]
  split_ifs with hnewline
  · simp [hnewline]
  · cases hbraces : braceParts? (withoutLastNewline text) with
    | some parts =>
      obtain ⟨lead, old, new, trail⟩ := parts
      have harrow := exists_arrow_of_braceParts? hbraces
      refine iff_of_false (by simp) (not_not_intro ⟨hnewline, _, _, ?_, ?_, harrow⟩) <;> simp
    | none =>
      cases hsides : plainSides? (withoutLastNewline text) with
      | some sides =>
        obtain ⟨left, right⟩ := sides
        obtain ⟨hleft, hright, harrow⟩ := exists_arrow_of_plainSides? hsides
        refine iff_of_false ?_ (not_not_intro ⟨hnewline, left, right, hleft, hright, harrow⟩)
        simp [Option.bind_eq_some_iff]
      | none =>
        refine iff_of_true rfl ?_
        rintro ⟨-, left, right, hleft, hright, harrow⟩
        rw [harrow] at hsides
        exact plainSides?_ne_none hleft hright hsides

/-- No slash of the text follows another one. -/
def SingleSlashes (text : List Char) : Prop := ¬ ['/', '/'] <:+: text

instance (text : List Char) : Decidable (SingleSlashes text) :=
  inferInstanceAs (Decidable (¬ ['/', '/'] <:+: text))

/-- A text goes on with single slashes behind its first character. -/
theorem SingleSlashes.tail {c : Char} {text : List Char} (hsingle : SingleSlashes (c :: text)) :
    SingleSlashes text := fun h => hsingle (List.infix_cons h)

/-- Where a text has single slashes, its first two characters are not both slashes. -/
theorem SingleSlashes.not_both {c : Char} {text : List Char} (hsingle : SingleSlashes (c :: text))
    (rest : List Char) (hc : c = '/') (htext : text = '/' :: rest) : False := by
  subst hc htext
  exact hsingle ⟨[], rest, rfl⟩

/-- Single slashes stay. -/
theorem squeezeSlashes_eq_self {text : List Char} (hsingle : SingleSlashes text) :
    squeezeSlashes text = text := by
  induction text with
  | nil => rfl
  | cons c text ih =>
    rw [squeezeSlashes, ih hsingle.tail]
    exact fun rest => hsingle.not_both rest

/-- A doubled slash becomes single. -/
theorem squeezeSlashes_doubled {before after : List Char}
    (hsingle : SingleSlashes (before ++ '/' :: after)) :
    squeezeSlashes (before ++ '/' :: '/' :: after) = before ++ '/' :: after := by
  induction before with
  | nil => exact squeezeSlashes_eq_self hsingle
  | cons c before ih =>
    rw [List.cons_append, squeezeSlashes, ih hsingle.tail]
    · rfl
    · intro rest hc hrest
      cases before with
      | nil => exact hsingle.not_both after hc rfl
      | cons d before =>
        rw [List.cons_append, List.cons.injEq] at hrest
        exact hsingle.not_both (before ++ '/' :: after) hc (by rw [hrest.1]; rfl)

/-- A path is cut into what stands before, inside and behind a pair of braces. Where nothing stands
inside of them, the slashes at the braces are one slash of the path. -/
inductive IsCut (lead trail : List Char) : (part path : List Char) → Prop
  | filled {part : List Char} (hpart : part ≠ [])
      (hsingle : SingleSlashes (lead ++ part ++ trail)) :
    IsCut lead trail part (lead ++ part ++ trail)
  | empty (before after : List Char) (hlead : lead = before ++ ['/'])
      (htrail : trail = '/' :: after) (hsingle : SingleSlashes (before ++ '/' :: after)) :
    IsCut lead trail [] (before ++ '/' :: after)

namespace IsCut

variable {lead trail part path : List Char}

/-- The parts of a cut path put together are the path up to doubled slashes. -/
theorem squeezeSlashes_eq (hcut : IsCut lead trail part path) :
    squeezeSlashes (lead ++ part ++ trail) = path := by
  cases hcut with
  | filled hpart hsingle => exact squeezeSlashes_eq_self hsingle
  | empty before after hlead htrail hsingle =>
    subst hlead htrail
    simpa using squeezeSlashes_doubled hsingle

/-- All parts of a cut path are taken from it. -/
theorem mem_path {c : Char} (hcut : IsCut lead trail part path) (hc : c ∈ lead ++ part ++ trail) :
    c ∈ path := by
  cases hcut with
  | filled => exact hc
  | empty before after hlead htrail =>
    subst hlead htrail
    simpa [or_assoc] using hc

end IsCut

/-- How the old and the new path of a file are printed together. -/
inductive IsPrintedPair (old new : List Char) : List Char → Prop
  | whole : IsPrintedPair old new (old ++ (arrow ++ new))
  | braces (lead trail : List Char) {oldPart newPart : List Char}
      (hold : IsCut lead trail oldPart old) (hnew : IsCut lead trail newPart new) :
    IsPrintedPair old new
      (lead ++ '\x7b' :: (oldPart ++ (arrow ++ (newPart ++ '\x7d' :: trail))))

variable {old new : PlainPath} {printed : List Char}

/-- A printed pair of plain paths has no newline, no tab and no quote. -/
theorem IsPrintedPair.isPlain_of_mem (hprinted : IsPrintedPair old.chars new.chars printed) :
    ∀ c ∈ printed, isPlain c = true ∨ c = ' ' ∨ c = '\x7b' ∨ c = '\x7d' := by
  have harrow : ∀ c ∈ arrow, isPlain c = true ∨ c = ' ' ∨ c = '\x7b' ∨ c = '\x7d' := by decide
  intro c hc
  cases hprinted with
  | whole =>
    simp only [List.mem_append] at hc
    obtain hc | hc | hc := hc
    · exact .inl (old.isPlain_of_mem c hc)
    · exact harrow c hc
    · exact .inl (new.isPlain_of_mem c hc)
  | @braces lead trail oldPart newPart hold hnew =>
    simp only [List.mem_append, List.mem_cons] at hc
    obtain hc | rfl | hc | hc | hc | rfl | hc := hc
    · exact .inl (old.isPlain_of_mem c (hold.mem_path (by simp [hc])))
    · exact .inr (.inr (.inl rfl))
    · exact .inl (old.isPlain_of_mem c (hold.mem_path (by simp [hc])))
    · exact harrow c hc
    · exact .inl (new.isPlain_of_mem c (hnew.mem_path (by simp [hc])))
    · exact .inr (.inr (.inr rfl))
    · exact .inl (new.isPlain_of_mem c (hnew.mem_path (by simp [hc])))

/-- A printed pair is a text without spaces and quotes, the arrow, and a text that is not empty. -/
theorem IsPrintedPair.exists_arrow (hprinted : IsPrintedPair old.chars new.chars printed) :
    ∃ c left right, printed = c :: left ++ (arrow ++ right) ∧ ' ' ∉ c :: left ∧ c ≠ '"' := by
  have hspace := old.not_mem (c := ' ') (by decide)
  have hquote := old.not_mem (c := '"') (by decide)
  cases hprinted with
  | whole =>
    obtain ⟨c, left, hold⟩ := List.exists_cons_of_ne_nil old.chars_ne_nil
    rw [hold] at hspace hquote ⊢
    exact ⟨c, left, _, rfl, hspace, fun hc => hquote (by simp [hc])⟩
  | @braces lead trail oldPart newPart hold hnew =>
    have hmem {c : Char} (hc : c ∈ lead ++ oldPart) : c ∈ old.chars :=
      hold.mem_path (List.mem_append_left _ hc)
    have hfront : ' ' ∉ lead ++ '\x7b' :: oldPart := by
      simp only [List.mem_append, List.mem_cons, not_or]
      exact ⟨fun h => hspace (hmem (by simp [h])), by decide, fun h => hspace (hmem (by simp [h]))⟩
    cases lead with
    | nil => exact ⟨'\x7b', oldPart, newPart ++ '\x7d' :: trail, by simp, hfront, by decide⟩
    | cons c lead =>
      refine ⟨c, lead ++ '\x7b' :: oldPart, newPart ++ '\x7d' :: trail, by simp, hfront, ?_⟩
      rintro rfl
      exact hquote (hmem (by simp))

/-- A text without a newline keeps its last character. -/
theorem withoutLastNewline_eq_self {text : List Char} (htext : '\n' ∉ text) :
    withoutLastNewline text = text := by
  rw [withoutLastNewline]
  split
  · next heq =>
    have hlast : '\n' ∈ text.reverse := by
      rw [heq]
      exact List.mem_cons_self
    exact absurd (List.mem_reverse.mp hlast) htext
  · rfl

/-- A text without an opening brace has no parts. -/
theorem braceParts?_eq_none {text : List Char} (htext : '\x7b' ∉ text) :
    braceParts? text = none := by
  rw [braceParts?, cutAt?_eq_none htext]
  rfl

/-- A text is cut at the first braces and at the first arrow between them. -/
theorem braceParts?_append {lead oldPart newPart trail : List Char} (hlead : '\x7b' ∉ lead)
    (harrow : cutAt? arrow (oldPart ++ (arrow ++ (newPart ++ '\x7d' :: trail))) =
      some (oldPart, newPart ++ '\x7d' :: trail))
    (hnew : '\x7d' ∉ newPart) :
    braceParts? (lead ++ '\x7b' :: (oldPart ++ (arrow ++ (newPart ++ '\x7d' :: trail)))) =
      some (lead, oldPart, newPart, trail) := by
  have hopen := cutAt?_append hlead [] (oldPart ++ (arrow ++ (newPart ++ '\x7d' :: trail)))
  have hclose := cutAt?_append hnew [] trail
  rw [List.singleton_append] at hopen hclose
  simp only [braceParts?, hopen, harrow, hclose, Option.bind_eq_bind, Option.bind_some,
    Option.pure_def]

/-- A text is cut at the first arrow behind its first character. -/
theorem plainSides?_cons_append {c : Char} {left right : List Char}
    (harrow : cutAt? arrow (left ++ (arrow ++ right)) = some (left, right)) (hright : right ≠ []) :
    plainSides? (c :: left ++ (arrow ++ right)) = some (c :: left, right) := by
  rw [List.cons_append, plainSides?, harrow]
  simp [hright]

/-- Two plain paths are cut at the arrow between them. -/
theorem plainSides?_append (old new : PlainPath) :
    plainSides? (old.chars ++ (arrow ++ new.chars)) = some (old.chars, new.chars) := by
  have hspace := old.not_mem (c := ' ') (by decide)
  obtain ⟨c, left, hold⟩ := List.exists_cons_of_ne_nil old.chars_ne_nil
  rw [hold, List.mem_cons, not_or] at hspace
  rw [hold]
  exact plainSides?_cons_append (cutAt?_append hspace.2 _ _) new.chars_ne_nil

/-- Squeezing slashes adds no characters. -/
theorem mem_of_mem_squeezeSlashes {text : List Char} {c : Char} (hc : c ∈ squeezeSlashes text) :
    c ∈ text := by
  fun_induction squeezeSlashes text with
  | case1 rest ih => exact List.mem_cons_of_mem _ (ih hc)
  | case2 d rest _ ih =>
    obtain rfl | hc := List.mem_cons.mp hc
    · exact List.mem_cons_self
    · exact List.mem_cons_of_mem _ (ih hc)
  | case3 => exact hc

/-- A text begins with the text without a newline at its very end. -/
theorem withoutLastNewline_prefix (text : List Char) : withoutLastNewline text <+: text := by
  rw [withoutLastNewline]
  split
  · next rest heq =>
    refine ⟨['\n'], ?_⟩
    rw [← List.reverse_reverse text, heq, List.reverse_cons]
  · exact List.prefix_rfl

/-- Where no quote stands behind a space, the path that a text is read as is made of the characters
of the text. -/
theorem mem_of_ofPrinted {text : List Char} {renamed : RenamedPath}
    (hquote : ∀ before after, text ≠ before ++ ' ' :: '"' :: after)
    (hread : ofPrinted (String.ofList text) = some renamed) :
    ∀ c ∈ renamed.path.toList, c ∈ text := by
  have hprefix := withoutLastNewline_prefix text
  intro c hc
  rw [ofPrinted, String.toList_ofList] at hread
  split_ifs at hread
  · cases hread
    simpa using hc
  · split at hread
    · next lead old new trail hbraces =>
      cases hread
      have hpart := mem_of_mem_squeezeSlashes (by simpa using hc)
      refine hprefix.subset ?_
      rw [exists_arrow_of_braceParts? hbraces]
      simp only [List.mem_append, List.mem_cons] at hpart ⊢
      tauto
    · split at hread
      · next left right hsides =>
        obtain ⟨-, -, harrow⟩ := exists_arrow_of_plainSides? hsides
        obtain ⟨behind, hbehind⟩ := hprefix
        rw [harrow] at hbehind
        have hright : Git.unquote (String.ofList right) = some (String.ofList right) := by
          refine Git.unquote_eq_self fun hhead => ?_
          obtain ⟨more, rfl⟩ := List.head?_eq_some_iff.mp hhead
          refine hquote (left ++ " =>".toList) (more ++ behind) ?_
          rw [← hbehind]
          simp [arrow]
        rw [hright, Option.bind_eq_bind, Option.bind_some, Option.bind_eq_some_iff] at hread
        obtain ⟨old, -, hold⟩ := hread
        cases hold
        rw [String.toList_ofList] at hc
        rw [← hbehind]
        simp [hc]
      · cases hread
        simpa using hc

/-- A plain path that is printed alone is read as itself. -/
theorem ofPrinted_text (path : PlainPath) : ofPrinted path.text = some ⟨path.text, none⟩ := by
  refine ofPrinted_eq_self_iff.mpr ?_
  rintro ⟨-, left, right, -, -, harrow⟩
  rw [withoutLastNewline_eq_self (path.not_mem (by decide))] at harrow
  refine path.not_mem (c := ' ') (by decide) ?_
  rw [harrow]
  simp [arrow]

/-- A text on one line with an arrow and without braces is read as the names of its two sides. -/
theorem ofPrinted_whole {left right : List Char} {old new : String}
    (hnewline : '\n' ∉ left ++ (arrow ++ right)) (hbrace : '\x7b' ∉ left ++ (arrow ++ right))
    (hsides : plainSides? (left ++ (arrow ++ right)) = some (left, right))
    (hold : Git.unquote (String.ofList left) = some old)
    (hnew : Git.unquote (String.ofList right) = some new) :
    ofPrinted (String.ofList (left ++ (arrow ++ right))) = some ⟨new, some old⟩ := by
  rw [ofPrinted, String.toList_ofList, withoutLastNewline_eq_self hnewline]
  simp only [List.contains_eq_mem, hnewline, decide_false, Bool.false_eq_true, if_false,
    braceParts?_eq_none hbrace, hsides, hold, hnew]
  rfl

/-- A text on one line with braces is read as the paths that it was cut from. -/
theorem ofPrinted_braces {lead trail oldPart newPart old new text : List Char}
    (hnewline : '\n' ∉ text) (hparts : braceParts? text = some (lead, oldPart, newPart, trail))
    (hold : IsCut lead trail oldPart old) (hnew : IsCut lead trail newPart new) :
    ofPrinted (String.ofList text) = some ⟨String.ofList new, some (String.ofList old)⟩ := by
  rw [ofPrinted, String.toList_ofList, withoutLastNewline_eq_self hnewline]
  simp only [List.contains_eq_mem, hnewline, decide_false, Bool.false_eq_true, if_false, hparts,
    hold.squeezeSlashes_eq, hnew.squeezeSlashes_eq]

/-- Two plain paths that are printed together are read as the new and the old path. -/
theorem ofPrinted_pair (hprinted : IsPrintedPair old.chars new.chars printed) :
    ofPrinted (String.ofList printed) = some ⟨new.text, some old.text⟩ := by
  have hnewline : '\n' ∉ printed := by
    intro hmem
    exact absurd (hprinted.isPlain_of_mem _ hmem) (by decide)
  cases hprinted with
  | whole =>
    have hbrace : '\x7b' ∉ old.chars ++ (arrow ++ new.chars) := by
      simp only [List.mem_append, not_or]
      exact ⟨old.not_mem (by decide), by decide, new.not_mem (by decide)⟩
    exact ofPrinted_whole hnewline hbrace (plainSides?_append old new) old.unquote_text
      new.unquote_text
  | @braces lead trail oldPart newPart hold hnew =>
    have hlead : '\x7b' ∉ lead := fun h =>
      old.not_mem (by decide) (hold.mem_path (List.mem_append_left _ (List.mem_append_left _ h)))
    have holdPart : ' ' ∉ oldPart := fun h =>
      old.not_mem (by decide) (hold.mem_path (List.mem_append_left _ (List.mem_append_right _ h)))
    have hnewPart : '\x7d' ∉ newPart := fun h =>
      new.not_mem (by decide) (hnew.mem_path (List.mem_append_left _ (List.mem_append_right _ h)))
    have hparts := braceParts?_append hlead (cutAt?_append holdPart _ (newPart ++ '\x7d' :: trail))
      hnewPart
    exact ofPrinted_braces hnewline hparts hold hnew

end RenamedPath

end ChangeImpact
