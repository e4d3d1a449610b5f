import ChangeImpact.Proofs.Scanning
import ChangeImpact.Proofs.Words

/-!
# Reading squeezed texts

A text is squeezed when every run of blanks in it becomes one space. A scanner that treats all
blanks alike and never stops inside a run of them reads the squeezed text as it reads the text, and
scanners that are put together from such scanners do the same. What a search finds in the squeezed
text is therefore what it finds in the text.
-/

namespace ChangeImpact.Text

/-- The text with every run of blanks squeezed to one space. -/
def squeeze : List Char → List Char
  | [] => []
  | c :: rest =>
    if isBlank c then
      if rest.head?.any isBlank then squeeze rest else ' ' :: squeeze rest
    else c :: squeeze rest

section Squeeze

variable {c : Char} {gap left right text : List Char}

/-- The empty text is squeezed. -/
@[simp] theorem squeeze_nil : squeeze [] = [] := rfl

/-- A character that is not blank is kept. -/
@[simp] theorem squeeze_cons (hc : isBlank c = false) (rest : List Char) :
    squeeze (c :: rest) = c :: squeeze rest := by
  simp [squeeze, hc]

/-- A run of blanks becomes a space. -/
theorem squeeze_gap (hne : gap ≠ []) (hgap : ∀ c ∈ gap, isBlank c = true)
    (hrest : Stops isBlank right) : squeeze (gap ++ right) = ' ' :: squeeze right := by
  induction gap with
  | nil => exact absurd rfl hne
  | cons c gap ih =>
    rw [List.forall_mem_cons] at hgap
    cases gap with
    | nil =>
      have hhead : right.head?.any isBlank = false := by
        cases right with
        | nil => rfl
        | cons d right => simpa using hrest
      simp [squeeze, hgap.1, hhead]
    | cons d gap =>
      have hd : isBlank d = true := hgap.2 d List.mem_cons_self
      rw [List.cons_append, squeeze, ← ih (List.cons_ne_nil d gap) hgap.2]
      simp [hgap.1, hd]

/-- Induction along the runs of blanks in a text. -/
theorem gap_induction {motive : List Char → Prop} (nil : motive [])
    (char : ∀ c rest, isBlank c = false → motive rest → motive (c :: rest))
    (gap : ∀ gap rest, gap ≠ [] → (∀ c ∈ gap, isBlank c = true) → Stops isBlank rest →
      motive rest → motive (gap ++ rest))
    (text : List Char) : motive text := by
  induction hlength : text.length using Nat.strongRecOn generalizing text with
  | _ length ih =>
    cases text with
    | nil => exact nil
    | cons c rest =>
      cases hc : isBlank c with
      | false => exact char c rest hc (ih rest.length (by simp [← hlength]) rest rfl)
      | true =>
        have hrun : Scanner.run isBlank (c :: rest) =
            some ((c :: rest).takeWhile isBlank, (c :: rest).dropWhile isBlank) := rfl
        obtain ⟨hblank, hstops, hsplit⟩ := Scanner.run_eq_some hrun
        have hne : (c :: rest).takeWhile isBlank ≠ [] := by simp [hc]
        have hpos := List.length_pos_iff.mpr hne
        have hshorter := congrArg List.length hsplit
        rw [hlength, List.length_append] at hshorter
        rw [hsplit]
        exact gap _ _ hne hblank hstops (ih _ (by omega) _ rfl)

/-- A squeezed text starts with a blank exactly if the text does. -/
theorem stops_squeeze_iff : Stops isBlank (squeeze text) ↔ Stops isBlank text := by
  induction text using gap_induction with
  | nil => rfl
  | char c rest hc ih => simp [hc]
  | gap gap rest hne hgap hrest ih =>
    obtain ⟨c, gap, rfl⟩ := List.exists_cons_of_ne_nil hne
    have hc := hgap c List.mem_cons_self
    rw [squeeze_gap hne hgap hrest, List.cons_append, stops_cons, stops_cons, hc]
    simp [isBlank]

/-- A text is squeezed on both sides of a place before which or behind which there is no blank. -/
theorem squeeze_append (hright : Stops isBlank right) (left : List Char) :
    squeeze (left ++ right) = squeeze left ++ squeeze right := by
  induction left using gap_induction with
  | nil => rfl
  | char c rest hc ih =>
    rw [List.cons_append, squeeze_cons hc, squeeze_cons hc, ih, List.cons_append]
  | gap gap rest hne hgap hrest ih =>
    have hstops : Stops isBlank (rest ++ right) := by
      cases rest with
      | nil => exact hright
      | cons d rest => simpa using hrest
    rw [List.append_assoc, squeeze_gap hne hgap hstops, squeeze_gap hne hgap hrest, ih,
      List.cons_append]

/-- A text is squeezed on both sides of its last character that is not blank. -/
theorem squeeze_append_of_getLast (hleft : ∀ c ∈ left.getLast?, isBlank c = false)
    (right : List Char) : squeeze (left ++ right) = squeeze left ++ squeeze right := by
  induction left using gap_induction with
  | nil => rfl
  | char c rest hc ih =>
    have hrest : ∀ d ∈ rest.getLast?, isBlank d = false := by
      cases rest with
      | nil => simp
      | cons d rest => simpa using hleft
    rw [List.cons_append, squeeze_cons hc, squeeze_cons hc, ih hrest, List.cons_append]
  | gap gap rest hne hgap hrest ih =>
    cases rest with
    | nil =>
      have hlast := hleft _ (List.getLast?_eq_getLast_of_ne_nil (by simpa using hne))
      rw [hgap _ (by simp)] at hlast
      cases hlast
    | cons d rest =>
      have hstops : Stops isBlank (d :: rest ++ right) := by simpa using hrest
      have hlast : ∀ e ∈ (d :: rest).getLast?, isBlank e = false := by
        simpa [List.getLast?_append] using hleft
      rw [List.append_assoc, squeeze_gap hne hgap hstops, squeeze_gap hne hgap hrest, ih hlast,
        List.cons_append]

/-- Squeezing goes from either end. -/
theorem squeeze_reverse (text : List Char) : squeeze text.reverse = (squeeze text).reverse := by
  induction text using gap_induction with
  | nil => rfl
  | char c rest hc ih =>
    rw [List.reverse_cons, squeeze_append (stops_cons.mpr hc), squeeze_cons hc, squeeze_cons hc, ih,
      List.reverse_cons, squeeze_nil]
  | gap gap rest hne hgap hrest ih =>
    have hlast : ∀ c ∈ rest.reverse.getLast?, isBlank c = false := by
      rw [List.getLast?_reverse]
      exact hrest
    have hblank : squeeze gap.reverse = [' '] := by
      rw [← List.append_nil gap.reverse, squeeze_gap (by simpa using hne) (by simpa using hgap)
        stops_nil, squeeze_nil]
    rw [List.reverse_append, squeeze_append_of_getLast hlast, ih, hblank,
      squeeze_gap hne hgap hrest, List.reverse_cons]

/-- A text without blanks is not changed. -/
theorem squeeze_eq_self (htext : ∀ c ∈ text, isBlank c = false) : squeeze text = text := by
  induction text with
  | nil => rfl
  | cons c text ih =>
    rw [List.forall_mem_cons] at htext
    rw [squeeze_cons htext.1, ih htext.2]

/-- Squeezing leaves something of every text that is not empty. -/
@[simp] theorem squeeze_eq_nil_iff : squeeze text = [] ↔ text = [] := by
  induction text using gap_induction with
  | nil => simp
  | char c rest hc ih => simp [hc]
  | gap gap rest hne hgap hrest ih => simp [squeeze_gap hne hgap hrest, hne]

/-- A squeezed text stays as it is. -/
@[simp] theorem squeeze_squeeze (text : List Char) : squeeze (squeeze text) = squeeze text := by
  induction text using gap_induction with
  | nil => rfl
  | char c rest hc ih => rw [squeeze_cons hc, squeeze_cons hc, ih]
  | gap gap rest hne hgap hrest ih =>
    have hspace := squeeze_gap (List.cons_ne_nil ' ' []) (by decide) (stops_squeeze_iff.mpr hrest)
    rw [squeeze_gap hne hgap hrest, ← List.singleton_append, hspace, ih, List.singleton_append]

/-- A squeezed text has the characters of the text that are not blank. -/
theorem mem_squeeze (hc : isBlank c = false) : c ∈ squeeze text ↔ c ∈ text := by
  induction text using gap_induction with
  | nil => rfl
  | char d rest hd ih => simp [hd, ih]
  | gap gap rest hne hgap hrest ih =>
    have hspace : c ≠ ' ' := by
      rintro rfl
      cases hc
    have hout : c ∉ gap := by
      intro hmem
      rw [hgap c hmem] at hc
      cases hc
    simp [squeeze_gap hne hgap hrest, ih, hspace, hout]

/-- Squeezing does not change the words of a text. -/
@[simp] theorem words_squeeze (text : List Char) : words (squeeze text) = words text := by
  induction text using gap_induction with
  | nil => rfl
  | char c rest hc ih =>
    rw [squeeze_cons hc]
    cases rest with
    | nil => rfl
    | cons d rest =>
      obtain ⟨e, more, hsqueezed⟩ := List.exists_cons_of_ne_nil
        (mt squeeze_eq_nil_iff.mp (List.cons_ne_nil d rest))
      have hblank : isBlank e = isBlank d := by
        have hstops : Stops isBlank (squeeze (d :: rest)) ↔ Stops isBlank (d :: rest) :=
          stops_squeeze_iff
        rw [hsqueezed, stops_cons, stops_cons] at hstops
        cases hd : isBlank d <;> simp_all
      rw [hsqueezed] at ih ⊢
      cases hd : isBlank d with
      | true =>
        have hword {e : Char} (he : isBlank e = true) (more : List Char) :
            words (c :: e :: more) = [c] :: words (e :: more) := by
          rw [words_cons_of_isBlank he, ← List.singleton_append, words_append_cons he,
            words_eq_singleton (by simp) (by simp [hc]), List.singleton_append]
        rw [hword (hblank.trans hd), hword hd, ih]
      | false =>
        obtain ⟨word, words', hwords, hlonger⟩ := words_cons_of_not_isBlank hc hd rest
        obtain ⟨word', words'', hwords', hlonger'⟩ :=
          words_cons_of_not_isBlank hc (hblank.trans hd) more
        rw [ih, hwords, List.cons.injEq] at hwords'
        rw [hlonger, hlonger', hwords'.1, hwords'.2]
  | gap gap rest hne hgap hrest ih =>
    rw [squeeze_gap hne hgap hrest, words_cons_of_isBlank (by decide), ih,
      words_append_of_blank hgap]

/-- A squeezed text collapses like the text. -/
@[simp] theorem collapse_squeeze (text : List Char) : collapse (squeeze text) = collapse text := by
  rw [collapse, words_squeeze, collapse]

end Squeeze

section Runs

variable {p : Char → Bool}

/-- A class that has all blanks, or that has none, treats every blank like a space. -/
theorem eq_space_of_isBlank {b : Bool} (hp : ∀ c, isBlank c = true → p c = b) (c : Char)
    (hc : isBlank c = true) : p c = p ' ' :=
  (hp c hc).trans (hp ' ' (by decide)).symm

/-- A run of characters is squeezed with the text, if its class has all blanks or none. -/
theorem takeWhile_squeeze (hp : ∀ c, isBlank c = true → p c = p ' ') (text : List Char) :
    (squeeze text).takeWhile p = squeeze (text.takeWhile p) := by
  induction text using gap_induction with
  | nil => rfl
  | char c rest hc ih =>
    rw [squeeze_cons hc]
    cases hpc : p c with
    | false => simp [hpc]
    | true => simp [hpc, hc, ih]
  | gap gap rest hne hgap hrest ih =>
    rw [squeeze_gap hne hgap hrest]
    cases hspace : p ' ' with
    | false =>
      obtain ⟨c, gap, rfl⟩ := List.exists_cons_of_ne_nil hne
      have hpc : p c = false := (hp c (hgap c List.mem_cons_self)).trans hspace
      simp [hspace, hpc]
    | true =>
      have htaken : Stops isBlank (rest.takeWhile p) := by
        cases rest with
        | nil => exact stops_nil
        | cons d rest =>
          cases hpd : p d with
          | false => simp [hpd]
          | true => simpa [hpd] using hrest
      rw [List.takeWhile_cons_of_pos hspace, ih, List.takeWhile_append_of_pos
        fun c hc => (hp c (hgap c hc)).trans hspace, squeeze_gap hne hgap htaken]

/-- What follows a run of characters is squeezed with the text. -/
theorem dropWhile_squeeze (hp : ∀ c, isBlank c = true → p c = p ' ') (text : List Char) :
    (squeeze text).dropWhile p = squeeze (text.dropWhile p) := by
  induction text using gap_induction with
  | nil => rfl
  | char c rest hc ih =>
    rw [squeeze_cons hc]
    cases hpc : p c with
    | false => simp [hpc, hc]
    | true => simp [hpc, ih]
  | gap gap rest hne hgap hrest ih =>
    rw [squeeze_gap hne hgap hrest]
    cases hspace : p ' ' with
    | false =>
      obtain ⟨c, gap, rfl⟩ := List.exists_cons_of_ne_nil hne
      have hpc : p c = false := (hp c (hgap c List.mem_cons_self)).trans hspace
      rw [List.dropWhile_cons_of_neg (by simp [hspace]), List.cons_append,
        List.dropWhile_cons_of_neg (by simp [hpc]), ← List.cons_append, squeeze_gap hne hgap hrest]
    | true =>
      rw [List.dropWhile_cons_of_pos hspace, ih,
        List.dropWhile_append_of_pos fun c hc => (hp c (hgap c hc)).trans hspace]

/-- A squeezed text is of a class exactly if the text is, if the class has all blanks or none. -/
theorem all_squeeze (hp : ∀ c, isBlank c = true → p c = p ' ') (text : List Char) :
    (squeeze text).all p = text.all p := by
  rw [Bool.eq_iff_iff, List.all_eq_true, List.all_eq_true, ← List.dropWhile_eq_nil_iff,
    ← List.dropWhile_eq_nil_iff, dropWhile_squeeze hp, squeeze_eq_nil_iff]

/-- A squeezed text is trimmed like the text. -/
theorem trim_squeeze (text : List Char) : trim (squeeze text) = squeeze (trim text) := by
  have hblank := eq_space_of_isBlank fun _ (hc : isBlank _ = true) => hc
  rw [trim, trimRight, trimLeft, dropWhile_squeeze hblank, ← squeeze_reverse,
    dropWhile_squeeze hblank, ← squeeze_reverse, trim, trimRight, trimLeft]

/-- A squeezed text is split at a character that is not blank like the text. -/
theorem splitOn_squeeze {c : Char} (hc : isBlank c = false) (text : List Char) :
    (squeeze text).splitOn c = (text.splitOn c).map squeeze := by
  induction hlength : text.length using Nat.strongRecOn generalizing text with
  | _ length ih =>
    by_cases hmem : c ∈ text
    · -- the part before the first place where the character stands is squeezed by itself
      obtain ⟨front, d, rest, hfront, hd, rfl⟩ :=
        exists_eq_append_cons (p := (· != c)) ⟨c, hmem, by simp⟩
      obtain rfl : d = c := by simpa using hd
      have hnot : d ∉ front := fun hin => absurd (hfront d hin) (by simp)
      have hrest := ih rest.length (by rw [← hlength]; simp; omega) rest rfl
      rw [squeeze_append (stops_cons.mpr hc), squeeze_cons hc,
        List.splitOn_append_cons_self_of_not_mem (mt (mem_squeeze hc).mp hnot),
        List.splitOn_append_cons_self_of_not_mem hnot, hrest, List.map_cons]
    · rw [List.splitOn_eq_singleton (mt (mem_squeeze hc).mp hmem),
        List.splitOn_eq_singleton hmem, List.map_singleton]

/-- A word stands at the start of a squeezed text exactly if it does in the text. -/
theorem isPrefixOf?_squeeze {word : List Char} (hword : ∀ c ∈ word, isBlank c = false)
    (text : List Char) :
    word.isPrefixOf? (squeeze text) = (word.isPrefixOf? text).map squeeze := by
  induction word generalizing text with
  | nil => simp [List.isPrefixOf?]
  | cons a word ih =>
    rw [List.forall_mem_cons] at hword
    cases text with
    | nil => rfl
    | cons c rest =>
      cases hc : isBlank c with
      | false =>
        rw [squeeze_cons hc, List.isPrefixOf?, List.isPrefixOf?]
        split_ifs
        · exact ih hword.2 rest
        · rfl
      | true =>
        -- a word starts with no blank, and neither text starts with anything else
        have hrefused {text : List Char} (htext : ¬ Stops isBlank text) :
            (a :: word).isPrefixOf? text = none := by
          cases text with
          | nil => exact absurd stops_nil htext
          | cons d text =>
            have hd : a ≠ d := by
              rintro rfl
              exact htext (stops_cons.mpr hword.1)
            simp [List.isPrefixOf?, hd]
        have hstops : ¬ Stops isBlank (c :: rest) := by simp [hc]
        rw [hrefused hstops, hrefused (mt stops_squeeze_iff.mp hstops), Option.map_none]

end Runs

/-- A scanner reads a squeezed text like the text: what it reads corresponds by `change`, and what
it leaves is squeezed. The scanner for the squeezed text may be another one, as it may depend on
what was read before. -/
structure Squeezes {α : Type} (scan squeezed : Scanner α) (change : α → α) : Prop where
  apply_squeeze : ∀ text, squeezed (squeeze text) =
    (scan text).map fun found => (change found.1, squeeze found.2)
  suffix : ∀ text value after, scan text = some (value, after) → after <:+ text

namespace Squeezes

variable {α β : Type} {scan squeezed : Scanner α} {change : α → α}

/-- A scanner that reads nothing gives corresponding values. -/
theorem pure {value value' : α} (hvalue : change value = value') :
    Squeezes (pure value) (pure value') change where
  apply_squeeze _ := by rw [← hvalue]; rfl
  suffix text found after hread := by
    cases hread
    exact List.suffix_rfl

/-- A scanner that refuses every text refuses the squeezed ones. -/
theorem failure : Squeezes (failure : Scanner α) failure change where
  apply_squeeze _ := rfl
  suffix _ _ _ hread := by cases hread

/-- One scanner after the other reads a squeezed text like the text. -/
theorem bind {next squeezedNext : α → Scanner β} {changeNext : β → β}
    (hscan : Squeezes scan squeezed change)
    (hnext : ∀ value, Squeezes (next value) (squeezedNext (change value)) changeNext) :
    Squeezes (scan >>= next) (squeezed >>= squeezedNext) changeNext where
  apply_squeeze text := by
    rw [Scanner.bind_apply, Scanner.bind_apply, hscan.apply_squeeze]
    cases scan text with
    | none => rfl
    | some found => exact (hnext found.1).apply_squeeze found.2
  suffix text value after hread := by
    rw [Scanner.bind_apply, Option.bind_eq_some_iff] at hread
    obtain ⟨⟨first, behind⟩, hfirst, hread⟩ := hread
    exact ((hnext first).suffix _ _ _ hread).trans (hscan.suffix _ _ _ hfirst)

/-- A fixed text without blanks is read. -/
theorem exactly {lead : String} (hlead : ∀ c ∈ lead.toList, isBlank c = false) :
    Squeezes (Scanner.exactly lead) (Scanner.exactly lead) id where
  apply_squeeze text := by
    rw [Scanner.exactly, isPrefixOf?_squeeze hlead, Scanner.exactly, Option.map_map, Option.map_map]
    rfl
  suffix text value after hread := by
    rw [← Scanner.exactly_eq_some.mp hread]
    exact List.suffix_append _ _

section Runs

variable {p : Char → Bool}

/-- A run is read whose class has all blanks or none. -/
theorem run (hp : ∀ c, isBlank c = true → p c = p ' ') :
    Squeezes (Scanner.run p) (Scanner.run p) squeeze where
  apply_squeeze text := by
    rw [Scanner.run, takeWhile_squeeze hp, dropWhile_squeeze hp, Scanner.run, Option.map_some]
  suffix text value after hread := by
    rw [(Scanner.run_eq_some hread).2.2]
    exact List.suffix_append _ _

/-- A run that may not be empty is read whose class has all blanks or none. -/
theorem run1 (hp : ∀ c, isBlank c = true → p c = p ' ') :
    Squeezes (Scanner.run1 p) (Scanner.run1 p) squeeze where
  apply_squeeze text := by
    rw [Scanner.run1, takeWhile_squeeze hp, dropWhile_squeeze hp, Scanner.run1]
    cases htaken : text.takeWhile p with
    | nil => rfl
    | cons c taken =>
      cases hsqueezed : squeeze (c :: taken) with
      | nil => exact absurd (squeeze_eq_nil_iff.mp hsqueezed) (List.cons_ne_nil c taken)
      | cons d rest => simp [hsqueezed]
  suffix text value after hread := by
    rw [(Scanner.run1_eq_some hread).2.2.2]
    exact List.suffix_append _ _

/-- Blanks are read. -/
theorem blanks : Squeezes Scanner.blanks Scanner.blanks squeeze :=
  run (eq_space_of_isBlank fun _ hc => hc)

/-- Blanks of which there has to be one are read. -/
theorem blanks1 : Squeezes Scanner.blanks1 Scanner.blanks1 squeeze :=
  run1 (eq_space_of_isBlank fun _ hc => hc)

/-- A name is read as it is. -/
theorem name : Squeezes Scanner.name Scanner.name id := by
  have hword : Squeezes Scanner.name Scanner.name squeeze :=
    run1 (eq_space_of_isBlank fun _ hc => isWord_of_isBlank hc)
  refine ⟨fun text => ?_, hword.suffix⟩
  rw [hword.apply_squeeze]
  cases hread : Scanner.name text with
  | none => rfl
  | some found =>
    have hsame : squeeze found.1 = found.1 :=
      squeeze_eq_self fun c hc => isBlank_of_isWord ((Scanner.run1_eq_some hread).2.1 c hc)
    simp [hsame]

end Runs

/-- What may be left out is read or left out. -/
theorem attempt {scan : Scanner Unit} (hscan : Squeezes scan scan id) :
    Squeezes (Scanner.attempt scan) (Scanner.attempt scan) id where
  apply_squeeze text := by
    rw [Scanner.attempt, hscan.apply_squeeze, Scanner.attempt]
    cases scan text <;> rfl
  suffix text value after hread := by
    rw [Scanner.attempt] at hread
    cases hfound : scan text with
    | none =>
      rw [hfound] at hread
      cases hread
      exact List.suffix_rfl
    | some found =>
      rw [hfound] at hread
      cases hread
      exact hscan.suffix _ _ _ hfound

/-- The first of several words without blanks is read. -/
theorem oneOf {words : List String}
    (hwords : ∀ word ∈ words, ∀ c ∈ word.toList, isBlank c = false) :
    Squeezes (Scanner.oneOf words) (Scanner.oneOf words) id where
  apply_squeeze text := by
    induction words with
    | nil => rfl
    | cons word words ih =>
      rw [List.forall_mem_cons] at hwords
      simp only [Scanner.oneOf, isPrefixOf?_squeeze hwords.1]
      cases word.toList.isPrefixOf? text with
      | none => exact ih hwords.2
      | some rest => rfl
  suffix text value after hread := by
    rw [← Scanner.exactly_eq_some.mp (Scanner.exactly_of_oneOf hread).2]
    exact List.suffix_append _ _

end Squeezes

end ChangeImpact.Text
