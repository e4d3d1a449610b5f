import ChangeImpact.Proofs.HeaderScan
import ChangeImpact.Proofs.ModuleText

/-!
# Searching a declaration

Every pattern starts with `export` and a word that few others have behind it. A declaration is found
by the one pattern that has all of its words; each of the others refuses it, most of them at the
first word.
-/

namespace ChangeImpact.Export

open Text Declaration

section Words

variable {part rest : List Char}

/-- A text that starts with a character of a name. -/
def StartsWord (text : List Char) : Prop := ∃ c more, text = c :: more ∧ isWord c = true

/-- A text that starts with a character of a name stops every class without such characters. -/
theorem StartsWord.stops {text : List Char} (htext : StartsWord text) {p : Char → Bool}
    (hp : ∀ c, isWord c = true → p c = false) : Stops p text := by
  obtain ⟨c, more, rfl, hc⟩ := htext
  exact stops_cons.mpr (hp c hc)

/-- A text that starts with a character of a name starts with no blank. -/
theorem StartsWord.stops_blank {text : List Char} (htext : StartsWord text) :
    Stops isBlank text := htext.stops fun _ => isBlank_of_isWord

/-- A text that starts with a character of a name starts with no other character. -/
theorem StartsWord.stops_eq {text : List Char} (htext : StartsWord text) {c : Char}
    (hc : isWord c = false) : Stops (· == c) text := by
  refine htext.stops fun d hd => ?_
  rw [beq_eq_false_iff_ne]
  rintro rfl
  rw [hc] at hd
  cases hd

/-- A text starts like its first part. -/
theorem startsWord_append (hne : part ≠ []) (hpart : ∀ c ∈ part, isWord c = true)
    (rest : List Char) : StartsWord (part ++ rest) := by
  obtain ⟨c, more, rfl⟩ := List.exists_cons_of_ne_nil hne
  exact ⟨c, more ++ rest, rfl, hpart c List.mem_cons_self⟩

/-- Keywords are words. -/
theorem isWord_of_mem_keyword :
    ∀ word ∈ keywords, word.toList ≠ [] ∧ ∀ c ∈ word.toList, isWord c = true := by
  decide +kernel

/-- No keyword starts a text that starts with another one. -/
theorem not_prefix_of_keyword {word other : String} (hword : word ∈ keywords)
    (hother : other ∈ keywords) (hne : word ≠ other) (rest : List Char) :
    ¬ word.toList <+: other.toList ++ rest := by
  have htable : ∀ word ∈ keywords, ∀ other ∈ keywords, word ≠ other →
      ¬ word.toList <+: other.toList := by
    decide
  intro hprefix
  obtain h | h := List.prefix_or_prefix_of_prefix hprefix (List.prefix_append other.toList rest)
  · exact htable word hword other hother hne h
  · exact htable other hother word hword (Ne.symm hne) h

/-- A keyword starts like a name. -/
theorem startsWord_keyword {word : String} (hword : word ∈ keywords) (rest : List Char) :
    StartsWord (word.toList ++ rest) :=
  startsWord_append (isWord_of_mem_keyword word hword).1 (isWord_of_mem_keyword word hword).2 rest

/-- A name starts a word, whatever is behind it. -/
theorem startsWord_name (name : Name) (rest : List Char) : StartsWord (name.chars ++ rest) :=
  startsWord_append name.chars_ne_nil name.isWord_of_mem rest

/-- Where a word is not, it is not read. -/
theorem spaced_eq_none {word : String} {text : List Char} (hword : ¬ word.toList <+: text) :
    spaced word text = none := by
  rw [spaced, Scanner.bind_apply, Scanner.exactly_eq_none hword]
  rfl

/-- Blanks that may be missing are read up to what follows them. -/
theorem Gap.blanks_apply (gap : Gap) (hrest : Stops isBlank rest) :
    Scanner.blanks (gap.chars ++ rest) = some (gap.chars, rest) :=
  Scanner.run_append gap.isBlank_of_mem hrest

/-- Blanks are read up to what follows them. -/
theorem Gap.blanks1_apply (gap : Gap) (hrest : Stops isBlank rest) :
    Scanner.blanks1 (gap.chars ++ rest) = some (gap.chars, rest) :=
  Scanner.run1_append gap.chars_ne_nil gap.isBlank_of_mem hrest

/-- The blanks behind a word are read with it. -/
theorem spaced_apply (layout : Layout) (word : String) (hrest : StartsWord rest) :
    spaced word (spacedWord layout word ++ rest) = some ((), rest) := by
  rw [spacedWord, List.append_assoc, spaced, Scanner.bind_apply, Scanner.exactly_append,
    Option.bind_some, Scanner.bind_apply, (layout.word word).blanks1_apply hrest.stops_blank]
  rfl

/-- A word that may be left out is read where it stands before another one. -/
theorem attempt_apply (layout : Layout) (isThere : Bool) {word other : String}
    (hword : word ∈ keywords) (hother : other ∈ keywords) (hne : word ≠ other)
    (rest : List Char) :
    Scanner.attempt (spaced word) ((if isThere then [word] else []).flatMap (spacedWord layout) ++
      (spacedWord layout other ++ rest)) = some (isThere, spacedWord layout other ++ rest) := by
  have hrest : spacedWord layout other ++ rest =
      other.toList ++ ((layout.word other).chars ++ rest) := by
    rw [spacedWord, List.append_assoc]
  cases isThere with
  | false =>
    have hnone : spaced word (spacedWord layout other ++ rest) = none := by
      rw [hrest]
      exact spaced_eq_none (not_prefix_of_keyword hword hother hne _)
    simp [Scanner.attempt, hnone]
  | true =>
    have hread : spaced word (spacedWord layout word ++ (spacedWord layout other ++ rest)) =
        some ((), spacedWord layout other ++ rest) := by
      rw [hrest]
      exact spaced_apply layout word (startsWord_keyword hother _)
    simp [Scanner.attempt, hread]

/-- A separator is no part of a name. -/
theorem isWord_of_isSeparator {c : Char} (hc : isSeparator c = true) : isWord c = false := by
  cases hword : isWord c with
  | false => rfl
  | true =>
    have hblank := isBlank_of_isWord hword
    simp only [isSeparator, hblank, Bool.false_or, Bool.or_eq_true, beq_iff_eq] at hc
    rw [← hword]
    obtain (((((rfl | rfl) | rfl) | rfl) | rfl) | rfl) | rfl := hc <;> decide +kernel

/-- A name is read up to a separator. -/
theorem Name.scan_apply (name : Name) {c : Char} (hc : isSeparator c = true) (rest : List Char) :
    Scanner.name (name.chars ++ c :: rest) = some (name.chars, c :: rest) :=
  Scanner.run1_append name.chars_ne_nil name.isWord_of_mem
    (stops_cons.mpr (isWord_of_isSeparator hc))

/-- The name of a declaration is read up to what follows it. -/
theorem name_apply (layout : Layout) (d : Declaration) (tail : List Char) :
    Scanner.name (d.named layout ++ tail) =
      some (d.name.chars, d.behindName layout ++ [d.close] ++ tail) := by
  obtain ⟨c, more, hbehind, hc⟩ := d.behindName_append_close layout
  rw [named, List.append_assoc, hbehind]
  exact d.name.scan_apply hc _

/-- A keyword is read as a name up to the blanks behind it. -/
theorem name_keyword (layout : Layout) {word : String} (hword : word ∈ keywords)
    (rest : List Char) : Scanner.name (spacedWord layout word ++ rest) =
      some (word.toList, (layout.word word).chars ++ rest) := by
  obtain ⟨hne, hchars⟩ := isWord_of_mem_keyword word hword
  obtain ⟨c, blanks, hgap⟩ := List.exists_cons_of_ne_nil (layout.word word).chars_ne_nil
  have hblank := (layout.word word).isBlank_of_mem c (by simp [hgap])
  have hstops : Stops isWord ((layout.word word).chars ++ rest) := by
    rw [hgap]
    exact stops_cons.mpr (isWord_of_isSeparator (by simp [isSeparator, hblank]))
  rw [spacedWord, List.append_assoc]
  exact Scanner.run1_append hne hchars hstops

/-- Behind the words of a declaration stands its name. -/
theorem startsWord_words (layout : Layout) (d : Declaration) {words : List String}
    (hwords : words ⊆ keywords) (tail : List Char) :
    StartsWord (words.flatMap (spacedWord layout) ++ (d.named layout ++ tail)) := by
  cases words with
  | nil =>
    rw [named, List.append_assoc]
    exact startsWord_name d.name _
  | cons word words =>
    rw [List.flatMap_cons, spacedWord, List.append_assoc, List.append_assoc]
    exact startsWord_keyword (hwords List.mem_cons_self) _

/-- A word with blanks behind it is refused where a name has another character behind it. -/
theorem spaced_name {word : String} {c : Char} (name : Name) (hc : isBlank c = false)
    (hword : c ∉ word.toList) (rest : List Char) :
    spaced word (name.chars ++ c :: rest) = none := by
  by_cases hprefix : word.toList <+: name.chars
  · obtain ⟨more, hmore⟩ := hprefix
    have hblank : ∀ d ∈ more, isBlank d = false := fun d hd =>
      isBlank_of_isWord (name.isWord_of_mem d (by rw [← hmore]; exact List.mem_append_right _ hd))
    have hstops : Stops isBlank (more ++ c :: rest) := by
      cases more with
      | nil => exact stops_cons.mpr hc
      | cons d more => exact stops_cons.mpr (hblank d List.mem_cons_self)
    have hgap : Scanner.blanks1 (more ++ c :: rest) = none := Scanner.run1_eq_none hstops
    rw [← hmore, List.append_assoc, spaced, Scanner.bind_apply, Scanner.exactly_append,
      Option.bind_some, Scanner.bind_apply, hgap]
    rfl
  · have hlonger : ¬ word.toList <+: name.chars ++ c :: rest :=
      fun h => hprefix (prefix_of_prefix_append_cons hword h)
    exact spaced_eq_none hlonger

end Words

namespace Declaration

/-- The word behind `export`. -/
def lead (d : Declaration) : String := d.words.headD ""

/-- The words of a declaration begin with its first. -/
theorem words_eq (d : Declaration) : d.words = d.lead :: d.words.tail := by
  cases d with
  | function isDefault isAsync => cases isDefault <;> cases isAsync <;> rfl
  | classType isDefault isAbstract => cases isDefault <;> cases isAbstract <;> rfl
  | binding | interface | typeAlias | enum | defaultName => rfl

/-- The first word of a declaration is a keyword. -/
theorem lead_mem_keywords (d : Declaration) : d.lead ∈ keywords := by
  apply d.words_subset
  rw [d.words_eq]
  exact List.mem_cons_self

/-- Behind `export` stand the words of the declaration. -/
theorem exportMark_text (layout : Layout) (d : Declaration) (tail : List Char) :
    exportMark (d.text layout ++ tail) =
      some ((), d.words.flatMap (spacedWord layout) ++ (d.named layout ++ tail)) := by
  rw [text, List.append_assoc, List.append_assoc]
  exact spaced_apply layout "export" (startsWord_words layout d d.words_subset tail)

variable {α : Type} {next : Scanner α} {found : Occurrence α → List ExportedSymbol}
  {layout : Layout} {d : Declaration}

/-- A pattern that goes on with other words refuses a declaration. -/
theorem reads_refused {wanted : List String} (hwanted : wanted ⊆ keywords)
    (hnext : ∀ text, (∀ word ∈ wanted, ¬ word.toList <+: text) → next text = none)
    (hlead : d.lead ∉ wanted) : Reads (exportMark >>= fun _ => next) found (d.text layout) [] := by
  refine .refused fun tail => ?_
  rw [Scanner.bind_apply, exportMark_text, Option.bind_some, d.words_eq, List.flatMap_cons,
    spacedWord, List.append_assoc, List.append_assoc]
  refine hnext _ fun word hword => ?_
  refine not_prefix_of_keyword (hwanted hword) d.lead_mem_keywords ?_ _
  rintro rfl
  exact hlead hword

/-- A pattern that goes on with the words of a declaration finds it. -/
theorem reads_found {value : α} {read rest : List Char} {symbols : List ExportedSymbol}
    (hnamed : d.named layout = read ++ rest)
    (hnext : ∀ tail, next (d.words.flatMap (spacedWord layout) ++ (d.named layout ++ tail)) =
      some (value, rest ++ tail))
    (hfound : ∀ before tail, Fresh before → found ⟨before, value, rest ++ tail⟩ = symbols) :
    Reads (exportMark >>= fun _ => next) found (d.text layout) symbols := by
  have htext : d.text layout =
      (spacedWord layout "export" ++ (d.words.flatMap (spacedWord layout) ++ read)) ++ rest := by
    rw [text, hnamed]
    simp
  refine .read (by simp [spacedWord]) htext (fun tail => ?_) hfound
  rw [Scanner.bind_apply, exportMark_text, Option.bind_some]
  exact hnext tail

/-- The words of which a pass wants one behind `export`. -/
def leads : ℕ → List String
  | 2 => ["async", "function"]
  | 4 => ["abstract", "class"]
  | 5 => ["const", "let", "var"]
  | 6 => ["interface"]
  | 7 => ["type"]
  | 8 => ["enum"]
  | _ => ["default"]

/-- A declaration has one of the words that its pass wants. -/
theorem lead_mem_leads (d : Declaration) : d.lead ∈ leads d.passNumber := by
  cases d with
  | function isDefault isAsync =>
    rw [lead, words, passNumber]
    cases isDefault <;> cases isAsync <;> decide
  | classType isDefault isAbstract =>
    rw [lead, words, passNumber]
    cases isDefault <;> cases isAbstract <;> decide
  | binding word =>
    rw [lead, words, passNumber]
    cases word <;> decide
  | interface | typeAlias | enum | defaultName =>
    rw [lead, words, passNumber]
    decide

/-- Every declaration has a pass. -/
theorem passNumber_mem_range (d : Declaration) : d.passNumber ∈ List.range passes.length := by
  have hlength : passes.length = 11 := rfl
  rw [hlength]
  cases d with
  | function isDefault => cases isDefault <;> simp [passNumber]
  | classType isDefault => cases isDefault <;> simp [passNumber]
  | binding | interface | typeAlias | enum | defaultName => simp [passNumber]

/-- Passes that are not for default exports want words that only their declarations have. -/
theorem lead_not_mem_leads {d : Declaration} {number : ℕ} (hnumber : number ∈ [2, 4, 5, 6, 7, 8])
    (hpass : d.passNumber ≠ number) : d.lead ∉ leads number := by
  have htable : ∀ number ∈ [2, 4, 5, 6, 7, 8], ∀ pass ∈ List.range 11, pass ≠ number →
      ∀ word ∈ leads pass, word ∉ leads number := by
    decide
  exact htable number hnumber d.passNumber d.passNumber_mem_range hpass d.lead d.lead_mem_leads

/-- Only default exports have `default` behind `export`. -/
theorem lead_ne_default {d : Declaration} (hd : d.isDefault = false) : d.lead ∉ ["default"] := by
  have htable : ∀ number ∈ [2, 4, 5, 6, 7, 8], ∀ word ∈ leads number, word ∉ ["default"] := by
    decide
  have hpass : d.passNumber ∈ [2, 4, 5, 6, 7, 8] := by
    cases d with
    | function | classType =>
      cases hd
      simp [passNumber]
    | binding | interface | typeAlias | enum => simp [passNumber]
    | defaultName => cases hd
  exact htable d.passNumber hpass d.lead d.lead_mem_leads

/-- A pass finds its own declarations if its pattern reads them and wants the words that they have
behind `export`. -/
theorem reads_onPass {number : ℕ} (hnumber : number ∈ [2, 4, 5, 6, 7, 8])
    (hnext : ∀ text, (∀ word ∈ leads number, ¬ word.toList <+: text) → next text = none)
    (hfound : d.passNumber = number →
      Reads (exportMark >>= fun _ => next) found (d.text layout) [d.recorded layout]) :
    Reads (exportMark >>= fun _ => next) found (d.text layout) (d.onPass layout number) := by
  have hleads : ∀ number ∈ [2, 4, 5, 6, 7, 8], leads number ⊆ keywords := by decide
  by_cases hpass : d.passNumber = number
  · rw [onPass, if_pos hpass]
    exact hfound hpass
  · rw [onPass, if_neg hpass]
    exact reads_refused (hleads number hnumber) hnext (lead_not_mem_leads hnumber hpass)

/-- Where a word is not, it is not read with blanks behind it. -/
theorem spaced_bind_eq_none {word : String} {text : List Char} (hword : ¬ word.toList <+: text)
    (next : Unit → Scanner α) :
    (spaced word >>= next) text = none := by
  rw [Scanner.bind_apply, spaced_eq_none hword]
  rfl

/-- A pattern for default exports refuses other declarations. -/
theorem reads_refused_of_not_default (hd : d.isDefault = false) :
    Reads (exportMark >>= fun _ => spaced "default" >>= fun _ => next) found (d.text layout) [] :=
  reads_refused (by decide)
    (fun _ hwanted => spaced_bind_eq_none (hwanted "default" (by decide)) _) (lead_ne_default hd)

end Declaration

end ChangeImpact.Export
