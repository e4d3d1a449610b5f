import ChangeImpact.Proofs.DeclarationScan
import ChangeImpact.Staleness.RemovedName

/-!
# Names that a text declares

The documentation check looks for exported declarations with one pattern, in the text as it stands.
Two places where the pattern reads a declaration overlap only if the name at the first ends with
`export`. Otherwise the names that are found are those that the pattern reads anywhere in the text.
-/

namespace ChangeImpact

namespace Export

open Text

variable {text rest : List Char} {word other : String}

/-- A word that is read with blanks behind it stands in front of them. -/
theorem spaced_eq_some (hread : spaced word text = some ((), rest)) :
    ∃ gap, gap ≠ [] ∧ (∀ c ∈ gap, isBlank c = true) ∧ text = word.toList ++ (gap ++ rest) := by
  rw [spaced, Scanner.bind_apply, Option.bind_eq_some_iff] at hread
  obtain ⟨⟨⟨⟩, behind⟩, hword, hblanks⟩ := hread
  rw [Scanner.bind_apply, Option.bind_eq_some_iff] at hblanks
  obtain ⟨⟨gap, rest'⟩, hgap, hrest⟩ := hblanks
  obtain ⟨hne, hblank, -, hbehind⟩ := Scanner.run1_eq_some hgap
  cases hrest
  have htext : behind = gap ++ rest' := hbehind
  refine ⟨gap, hne, hblank, ?_⟩
  rw [← Scanner.exactly_eq_some.mp hword, htext]

/-- Where one keyword stands, no other one is read. -/
theorem spaced_eq_none_of_keyword (hword : word ∈ keywords) (hother : other ∈ keywords)
    (hne : other ≠ word) (hread : spaced word text = some ((), rest)) :
    spaced other text = none := by
  obtain ⟨gap, -, -, rfl⟩ := spaced_eq_some hread
  exact spaced_eq_none (not_prefix_of_keyword hother hword hne _)

/-- Where one keyword stands, no other one is left out. -/
theorem attempt_of_keyword (hword : word ∈ keywords) (hother : other ∈ keywords)
    (hne : other ≠ word) (hread : spaced word text = some ((), rest)) :
    Scanner.attempt (spaced other) text = some (false, text) := by
  simp only [Scanner.attempt, spaced_eq_none_of_keyword hword hother hne hread]

/-- A word that is read need not be left out. -/
theorem attempt_of_spaced (hread : spaced word text = some ((), rest)) :
    Scanner.attempt (spaced word) text = some (true, rest) := by
  simp only [Scanner.attempt, hread]

/-- A word that may be left out is read, or left out. -/
theorem spaced_of_attempt {isThere : Bool}
    (hread : Scanner.attempt (spaced word) text = some (isThere, rest)) :
    (isThere = true ∧ spaced word text = some ((), rest)) ∨ (isThere = false ∧ rest = text) := by
  rw [Scanner.attempt] at hread
  split at hread
  · cases hread
    exact .inl ⟨rfl, ‹_›⟩
  · cases hread
    exact .inr ⟨rfl, rfl⟩

end Export

namespace RemovedName

open Text Export

/-! ### The pattern for declarations -/

/-- Whether a name is an identifier in ASCII. -/
def isIdentifier (name : List Char) : Bool :=
  name.head?.any isIdentifierStart && name.all isIdentifierPart

/-- The keywords behind which the pattern reads a name. -/
def declaringWords : List String :=
  ["function", "class", "const", "let", "var", "type", "interface", "enum"]

/-- The words that declare a name are keywords. -/
theorem declaringWords_subset : declaringWords ⊆ keywords := by decide

/-- An exported declaration stands at a place, perhaps a default and an asynchronous one, and its
name is followed by the given text. Nothing but blanks is between its words. -/
def Introduces (place name after : List Char) : Prop :=
  ∃ behindExport behindDefault behindAsync behindWord isDefault isAsync,
    ∃ word ∈ declaringWords,
      exportMark place = some ((), behindExport) ∧
      Scanner.attempt (spaced "default") behindExport = some (isDefault, behindDefault) ∧
      Scanner.attempt (spaced "async") behindDefault = some (isAsync, behindAsync) ∧
      spaced word behindAsync = some ((), behindWord) ∧
      Scanner.name behindWord = some (name, after)

variable {place name after text rest : List Char} {word : String}

/-- An identifier is read up to another character. -/
theorem identifier_append (hname : isIdentifier name = true)
    (hafter : Stops isIdentifierPart after) : identifier (name ++ after) = some (name, after) := by
  rw [isIdentifier, Bool.and_eq_true, List.all_eq_true] at hname
  obtain ⟨hstart, hparts⟩ := hname
  cases name with
  | nil => cases hstart
  | cons c name =>
    have hfirst : isIdentifierStart c = true := hstart
    rw [List.forall_mem_cons] at hparts
    rw [List.cons_append, identifier]
    simp only [hfirst, if_true, takeWhile_append_of_stops hparts.2 hafter,
      dropWhile_append_of_stops hparts.2 hafter]

/-- Identifiers are ASCII. -/
theorem toNat_lt_of_isIdentifierPart {c : Char} (hc : isIdentifierPart c = true) :
    c.toNat < 128 := by
  have hbound {low high : Char} (hhigh : high.toNat < 128)
      (hrange : (decide (low ≤ c) && decide (c ≤ high)) = true) : c.toNat < 128 := by
    simp only [Bool.and_eq_true, decide_eq_true_eq] at hrange
    exact lt_of_le_of_lt (UInt32.le_iff_toNat_le.mp hrange.2) hhigh
  simp only [isIdentifierPart, isIdentifierStart, Bool.or_eq_true, beq_iff_eq] at hc
  obtain (((hrange | hrange) | rfl) | rfl) | hrange := hc
  · exact hbound (by decide) hrange
  · exact hbound (by decide) hrange
  · decide
  · decide
  · exact hbound (by decide) hrange

/-- Apart from the dollar sign, identifiers are made of word characters. -/
theorem isWord_of_isIdentifierPart {c : Char} (hc : isIdentifierPart c = true) (hdollar : c ≠ '$') :
    isWord c = true := by
  have htable : ∀ n < 128, isIdentifierPart (Char.ofNat n) = true → Char.ofNat n ≠ '$' →
      isWord (Char.ofNat n) = true := by
    decide +kernel
  have hascii := htable c.toNat (toNat_lt_of_isIdentifierPart hc)
  rw [Char.ofNat_toNat] at hascii
  exact hascii hc hdollar

/-- The keyword of a declaration is read up to its name. -/
theorem declarationKeyword_of_spaced (hword : word ∈ declaringWords)
    (hread : spaced word text = some ((), rest)) (hrest : StartsWord rest) :
    declarationKeyword text = some ((), rest) := by
  obtain ⟨gap, hne, hblank, rfl⟩ := spaced_eq_some hread
  have hothers {other : String} (hother : other ∈ declaringWords) (hdifferent : other ≠ word) :
      ¬ other.toList <+: word.toList ++ (gap ++ rest) :=
    not_prefix_of_keyword (declaringWords_subset hother) (declaringWords_subset hword) hdifferent _
  rw [declarationKeyword]
  by_cases hfunction : word = "function"
  · subst hfunction
    have hnostar : Scanner.exactly "*" rest = none :=
      Scanner.exactly_eq_none_of_stops (c := '*') (by decide) (hrest.stops_eq (by decide +kernel))
    have hstar : Scanner.attempt (Scanner.exactly "*") rest = some (false, rest) := by
      simp only [Scanner.attempt, hnostar]
    have hnone : Scanner.blanks rest = some ([], rest) :=
      Scanner.run_append (List.forall_mem_nil _) hrest.stops_blank
    have hkeyword : functionKeyword ("function".toList ++ (gap ++ rest)) = some ((), rest) := by
      simp only [functionKeyword, Scanner.bind_apply, Scanner.exactly_append, Option.bind_some,
        Scanner.blanks, Scanner.run_append hblank hrest.stops_blank, hstar]
      rw [← Scanner.blanks, hnone]
      rfl
    simp only [hkeyword]
  · have hnone : functionKeyword (word.toList ++ (gap ++ rest)) = none := by
      rw [functionKeyword, Scanner.bind_apply,
        Scanner.exactly_eq_none (hothers (by decide) (Ne.symm hfunction))]
      rfl
    have hmem : word ∈ ["class", "const", "let", "var", "type", "interface", "enum"] :=
      (List.mem_cons.mp hword).resolve_left hfunction
    have hone : Scanner.oneOf ["class", "const", "let", "var", "type", "interface", "enum"]
        (word.toList ++ (gap ++ rest)) = some (word, gap ++ rest) :=
      Scanner.oneOf_of_exactly hmem (Scanner.exactly_append word _) fun other hother =>
        hothers (List.mem_cons_of_mem _ hother)
    simp only [hnone, otherKeyword, Scanner.bind_apply, hone, Option.bind_some, Scanner.blanks1,
      Scanner.run1_append hne hblank hrest.stops_blank]
    rfl

/-- Where a declaration stands, the pattern for declarations reads its name, if the name is an
identifier that no dollar sign follows. -/
theorem declaration_of_introduces (hplace : Introduces place name after)
    (hname : isIdentifier name = true) (hdollar : Stops (· == '$') after) :
    declaration place = some (name, after) := by
  obtain ⟨_, _, _, behindWord, _, _, word, hword, hexport, hdefault, hasync, hspaced, hread⟩ :=
    hplace
  obtain ⟨hne, hchars, hstops, rfl⟩ := Scanner.run1_eq_some hread
  have hkeyword := declarationKeyword_of_spaced hword hspaced (startsWord_append hne hchars after)
  have hidentifier : identifier (name ++ after) = some (name, after) := by
    refine identifier_append hname fun c hc => ?_
    by_contra hpart
    have hother : c ≠ '$' := by simpa using hdollar c hc
    have hstop := hstops c hc
    rw [isWord_of_isIdentifierPart (by simpa using hpart) hother] at hstop
    cases hstop
  simp only [declaration, Scanner.bind_apply, hexport, hdefault, hasync, hkeyword, hidentifier,
    Option.bind_some]

/-! ### What the pattern reads in a text -/

/-- A text declares a name if the pattern for declarations reads the name somewhere in it. -/
def Declares (text name : String) : Prop :=
  ∃ place after, place <:+ text.toList ∧ declaration place = some (name.toList, after)

/-- Words and blanks in front of a name, without the first two letters of `export`: the mark cannot
start in them. -/
structure IsFront (front : List Char) : Prop where
  ne_nil : front ≠ []
  without_x : 'x' ∉ front
  getLast_ne : front.getLast? ≠ some 'e'

/-- A front may have more before it, if there is no `x` in that. -/
theorem IsFront.append {lead front : List Char} (hfront : IsFront front) (hlead : 'x' ∉ lead) :
    IsFront (lead ++ front) where
  ne_nil := by simp [hfront.ne_nil]
  without_x := by simp [hlead, hfront.without_x]
  getLast_ne := by
    rw [List.getLast?_append_of_ne_nil _ hfront.ne_nil]
    exact hfront.getLast_ne

/-- A character that is no blank is not among blanks. -/
theorem not_mem_of_isBlank {blanks : List Char} (hblanks : ∀ c ∈ blanks, isBlank c = true)
    {c : Char} (hc : isBlank c = false) : c ∉ blanks := by
  intro hmem
  rw [hblanks c hmem] at hc
  cases hc

/-- A word that may be left out has no `x` in front of what follows it. -/
theorem exists_front_of_attempt {isThere : Bool} (hword : 'x' ∉ word.toList)
    (hread : Scanner.attempt (spaced word) text = some (isThere, rest)) :
    ∃ lead, 'x' ∉ lead ∧ text = lead ++ rest := by
  obtain ⟨-, hspaced⟩ | ⟨-, rfl⟩ := spaced_of_attempt hread
  · obtain ⟨gap, -, hblank, rfl⟩ := spaced_eq_some hspaced
    refine ⟨word.toList ++ gap, ?_, by rw [List.append_assoc]⟩
    simp [hword, not_mem_of_isBlank hblank (by decide : isBlank 'x' = false)]
  · exact ⟨[], by simp, rfl⟩

/-- A star that may be left out is read, or nothing is. -/
theorem exists_stars_of_attempt {isStar : Bool}
    (hread : Scanner.attempt (Scanner.exactly "*") text = some (isStar, rest)) :
    ∃ stars, (∀ c ∈ stars, c = '*') ∧ text = stars ++ rest := by
  rw [Scanner.attempt] at hread
  split at hread
  case h_1 hstar =>
    cases hread
    exact ⟨['*'], by simp, (Scanner.exactly_eq_some.mp hstar).symm⟩
  case h_2 =>
    cases hread
    exact ⟨[], by simp, rfl⟩

/-- What `function` is read from: the word, blanks, perhaps a star, and blanks. -/
theorem eq_of_functionKeyword (hread : functionKeyword text = some ((), rest)) :
    ∃ gap stars more, (∀ c ∈ gap, isBlank c = true) ∧ (∀ c ∈ stars, c = '*') ∧
      (∀ c ∈ more, isBlank c = true) ∧
      text = "function".toList ++ (gap ++ (stars ++ more)) ++ rest := by
  rw [functionKeyword] at hread
  simp only [Scanner.bind_apply, Option.bind_eq_some_iff] at hread
  obtain ⟨⟨⟨⟩, behindWord⟩, hexact, ⟨gap, behindGap⟩, hgap, ⟨isStar, behindStar⟩, hstar,
    ⟨more, behindMore⟩, hmore, hrest⟩ := hread
  cases hrest
  obtain ⟨hgap, -, hbehindWord⟩ := Scanner.run_eq_some hgap
  obtain ⟨stars, hstars, hbehindGap⟩ := exists_stars_of_attempt hstar
  obtain ⟨hmore, -, hbehindStar⟩ := Scanner.run_eq_some hmore
  dsimp only at hbehindWord hbehindGap hbehindStar
  refine ⟨gap, stars, more, hgap, hstars, hmore, ?_⟩
  rw [← Scanner.exactly_eq_some.mp hexact, hbehindWord, hbehindGap, hbehindStar]
  simp only [List.append_assoc]

/-- The mark cannot start in `function` and what is read with it. -/
theorem exists_isFront_of_functionKeyword (hread : functionKeyword text = some ((), rest)) :
    ∃ front, IsFront front ∧ text = front ++ rest := by
  obtain ⟨gap, stars, more, hgap, hstars, hmore, htext⟩ := eq_of_functionKeyword hread
  have hother {c : Char} (hword : c ∉ "function".toList) (hblank : isBlank c = false)
      (hstar : c ≠ '*') : c ∉ "function".toList ++ (gap ++ (stars ++ more)) := by
    simp only [List.mem_append, not_or]
    exact ⟨hword, not_mem_of_isBlank hgap hblank, fun hmem => hstar (hstars c hmem),
      not_mem_of_isBlank hmore hblank⟩
  refine ⟨_, ⟨by simp, ?_, ?_⟩, htext⟩
  · exact hother (by decide) (by decide) (by decide)
  · intro hlast
    exact hother (by decide) (by decide) (by decide) (List.mem_of_getLast? hlast)

/-- The mark cannot start in another keyword, whose last letter blanks follow. -/
theorem exists_isFront_of_otherKeyword (hread : otherKeyword text = some ((), rest)) :
    ∃ front, IsFront front ∧ text = front ++ rest := by
  rw [otherKeyword] at hread
  simp only [Scanner.bind_apply, Option.bind_eq_some_iff] at hread
  obtain ⟨⟨word, behind⟩, hword, ⟨gap, behindGap⟩, hgap, hrest⟩ := hread
  cases hrest
  obtain ⟨hmem, hexact⟩ := Scanner.exactly_of_oneOf hword
  obtain ⟨hne, hchars, -, hbehind⟩ := Scanner.run1_eq_some hgap
  have hwords : ∀ word ∈ ["class", "const", "let", "var", "type", "interface", "enum"],
      'x' ∉ word.toList := by decide
  have htext : behind = gap ++ behindGap := hbehind
  refine ⟨word.toList ++ gap, ⟨by simp [hne], ?_, ?_⟩, ?_⟩
  · simp [hwords word hmem, not_mem_of_isBlank hchars (by decide : isBlank 'x' = false)]
  · rw [List.getLast?_append_of_ne_nil _ hne]
    intro hlast
    exact not_mem_of_isBlank hchars (by decide) (List.mem_of_getLast? hlast)
  · rw [← Scanner.exactly_eq_some.mp hexact, htext, List.append_assoc]

/-- The mark cannot start in the keyword of a declaration. -/
theorem exists_isFront_of_declarationKeyword (hread : declarationKeyword text = some ((), rest)) :
    ∃ front, IsFront front ∧ text = front ++ rest := by
  rw [declarationKeyword] at hread
  split at hread
  case h_1 hfunction =>
    cases hread
    exact exists_isFront_of_functionKeyword hfunction
  case h_2 => exact exists_isFront_of_otherKeyword hread

/-- An identifier ends where the text goes on with another character. -/
theorem eq_of_identifier (hread : identifier text = some (name, after)) :
    (∀ c ∈ name, isIdentifierPart c = true) ∧ Stops isIdentifierPart after ∧
      text = name ++ after := by
  cases text with
  | nil => cases hread
  | cons c text =>
    simp only [identifier] at hread
    split at hread
    case isTrue hstart =>
      cases hread
      have hrun : Scanner.run isIdentifierPart text =
          some (text.takeWhile isIdentifierPart, text.dropWhile isIdentifierPart) := rfl
      obtain ⟨hparts, hstops, htext⟩ := Scanner.run_eq_some hrun
      have hfirst : isIdentifierPart c = true := by simp [isIdentifierPart, hstart]
      exact ⟨List.forall_mem_cons.mpr ⟨hfirst, hparts⟩, hstops, congrArg (c :: ·) htext⟩
    case isFalse => cases hread

/-- What a declaration is read from: `export`, more words, and the name up to another character. -/
theorem eq_of_declaration (hread : declaration place = some (name, after)) :
    ∃ front, IsFront front ∧ place = 'e' :: 'x' :: (front ++ (name ++ after)) ∧
      (∀ c ∈ name, isIdentifierPart c = true) ∧ Stops isIdentifierPart after := by
  rw [declaration] at hread
  simp only [Scanner.bind_apply, Option.bind_eq_some_iff] at hread
  obtain ⟨⟨⟨⟩, behindExport⟩, hexport, ⟨isDefault, behindDefault⟩, hdefault,
    ⟨isAsync, behindAsync⟩, hasync, ⟨⟨⟩, behindWord⟩, hkeyword, hname⟩ := hread
  have hspaced : spaced "export" place = some ((), behindExport) := hexport
  obtain ⟨gap, -, hblank, rfl⟩ := spaced_eq_some hspaced
  obtain ⟨first, hfirst, rfl⟩ := exists_front_of_attempt (by decide) hdefault
  obtain ⟨second, hsecond, rfl⟩ := exists_front_of_attempt (by decide) hasync
  obtain ⟨front, hfront, rfl⟩ := exists_isFront_of_declarationKeyword hkeyword
  obtain ⟨hparts, hstops, rfl⟩ := eq_of_identifier hname
  refine ⟨"port".toList ++ (gap ++ (first ++ (second ++ front))), ?_, ?_, hparts, hstops⟩
  · have hgap := not_mem_of_isBlank hblank (show isBlank 'x' = false by decide)
    exact (((hfront.append hsecond).append hfirst).append hgap).append (by decide)
  · simp

/-- No blank is part of an identifier. -/
theorem isBlank_of_isIdentifierPart {c : Char} (hc : isIdentifierPart c = true) :
    isBlank c = false := by
  by_cases hdollar : c = '$'
  · rw [hdollar]
    decide
  · exact isBlank_of_isWord (isWord_of_isIdentifierPart hc hdollar)

/-- What starts like `export` starts behind a front. -/
theorem IsFront.suffix_of_append {front rest inner : List Char} (hfront : IsFront front)
    (hinner : 'e' :: 'x' :: inner <:+ front ++ rest) : 'e' :: 'x' :: inner <:+ rest := by
  obtain ⟨skipped, hskipped⟩ := hinner
  obtain ⟨part, hpart, hrest⟩ | ⟨part, -, hrest⟩ := List.append_eq_append_iff.mp hskipped
  · match part with
    | [] => exact ⟨[], hrest⟩
    | [c] =>
      obtain ⟨rfl, -⟩ := List.cons.inj hrest
      exact absurd (by simp [hpart]) hfront.getLast_ne
    | c :: d :: part =>
      obtain ⟨-, hrest⟩ := List.cons.inj hrest
      obtain ⟨rfl, -⟩ := List.cons.inj hrest
      exact absurd (by simp [hpart]) hfront.without_x
  · exact ⟨part, hrest.symm⟩

/-- Inside of what is read of a declaration, another one can only start with the end of the name. -/
theorem suffix_of_declaration_inside {inner more tail : List Char}
    (hread : declaration place = some (name, after)) (hinner : inner <:+ place)
    (hne : inner ≠ place) (hlong : after.length < inner.length)
    (hagain : declaration inner = some (more, tail)) : "export".toList <:+ name := by
  obtain ⟨front, hfront, rfl, hparts, hstops⟩ := eq_of_declaration hread
  rw [declaration, Scanner.bind_apply, Option.bind_eq_some_iff] at hagain
  obtain ⟨⟨⟨⟩, behind⟩, hexport, -⟩ := hagain
  have hspaced : spaced "export" inner = some ((), behind) := hexport
  obtain ⟨gap, hgap, hblank, rfl⟩ := spaced_eq_some hspaced
  obtain ⟨b, blanks, rfl⟩ := List.exists_cons_of_ne_nil hgap
  have hb : isBlank b = true := hblank b List.mem_cons_self
  have hname : "export".toList ++ (b :: blanks ++ behind) <:+ name ++ after := by
    obtain hwhole | hinner := List.suffix_cons_iff.mp hinner
    · exact absurd hwhole hne
    obtain hwhole | hinner := List.suffix_cons_iff.mp hinner
    · exact absurd (List.cons.inj hwhole).1 (by decide)
    exact hfront.suffix_of_append hinner
  obtain ⟨skipped, hskipped⟩ := hname
  obtain ⟨part, hpart, hrest⟩ | ⟨part, -, hrest⟩ := List.append_eq_append_iff.mp hskipped
  · -- the mark ends with the name, as a blank follows it
    obtain ⟨rest, hmore, hgapped⟩ | ⟨rest, hmore, hgapped⟩ := List.append_eq_append_iff.mp hrest
    · cases rest with
      | nil => exact ⟨skipped, by rw [hpart, hmore, List.append_nil]⟩
      | cons c rest =>
        obtain ⟨rfl, -⟩ := List.cons.inj hgapped
        have hc := isBlank_of_isIdentifierPart (hparts b (by simp [hpart, hmore]))
        rw [hb] at hc
        cases hc
    · cases rest with
      | nil => exact ⟨skipped, by rw [hpart, hmore, List.append_nil]⟩
      | cons c rest =>
        have hletters : ∀ c ∈ "export".toList, isIdentifierPart c = true := by decide
        have hc := hletters c (by simp [hmore])
        rw [hgapped] at hstops
        rw [stops_cons.mp hstops] at hc
        cases hc
  · rw [hrest, List.length_append] at hlong
    omega

section Names

variable {text name : String}

/-- No declaration of a text starts inside another. -/
def DeclaresApart (text : String) : Prop := ReadsApart declaration text.toList

/-- No name that a text declares ends like the start of a declaration. -/
def NamesEndApart (text : String) : Prop :=
  ∀ name, Declares text name → ¬ "export".toList <:+ name.toList

/-- Where no name ends with `export`, no declaration starts inside another. -/
theorem NamesEndApart.declaresApart (hends : NamesEndApart text) : DeclaresApart text := by
  intro outer name after inner houter hread hinner hne hlong
  cases hagain : declaration inner with
  | none => rfl
  | some read =>
    have hname : (String.ofList name).toList = name := String.toList_ofList
    have hapart := hends (String.ofList name) ⟨outer, after, houter, by rw [hname]; exact hread⟩
    rw [hname] at hapart
    exact absurd (suffix_of_declaration_inside hread hinner hne hlong hagain) hapart

/-- The names that are found in a text are among those that it declares. -/
theorem declares_of_mem_exportNames (hname : name ∈ exportNames text) : Declares text name := by
  rw [exportNames, List.mem_eraseDups, List.mem_map] at hname
  obtain ⟨found, hfound, rfl⟩ := hname
  obtain ⟨place, hplace, hscan⟩ := exists_place_of_mem_occurrencesFrom hfound
  exact ⟨place, found.after, hplace, by rw [String.toList_ofList]; exact hscan⟩

/-- The names that are found in a text are those that it declares, if its declarations are apart. -/
theorem mem_exportNames_iff (hapart : DeclaresApart text) :
    name ∈ exportNames text ↔ Declares text name := by
  refine ⟨declares_of_mem_exportNames, ?_⟩
  rintro ⟨place, after, hplace, hread⟩
  have hne : place ≠ [] := by
    rintro rfl
    cases hread
  obtain ⟨found, hfound, hvalue⟩ : ∃ found ∈ occurrences declaration text.toList,
      found.value = name.toList :=
    exists_mem_occurrencesFrom hapart hplace hne hread (by simpa using hplace.length_le)
  rw [exportNames, List.mem_eraseDups, List.mem_map]
  exact ⟨found, hfound, by rw [hvalue, String.ofList_toList]⟩

/-- A name is written out in a text if it is an ASCII identifier, an exported declaration somewhere
in the text, as it is with its comments, has just this name, and no dollar sign follows. -/
def WritesOut (text name : String) : Prop :=
  isIdentifier name.toList = true ∧ ∃ place after, place <:+ text.toList ∧
    Introduces place name.toList after ∧ Stops (· == '$') after

/-- A name that is written out is declared for the pattern, too. -/
theorem WritesOut.declares (hwritten : WritesOut text name) : Declares text name := by
  obtain ⟨hname, place, after, hplace, hintroduces, hdollar⟩ := hwritten
  exact ⟨place, after, hplace, declaration_of_introduces hintroduces hname hdollar⟩

end Names

end RemovedName

end ChangeImpact
