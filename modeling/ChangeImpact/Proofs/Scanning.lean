import ChangeImpact.Text.Scan
import Mathlib.Data.List.Infix
import Mathlib.Data.List.TakeWhile

/-!
# What scanners read

A scanner that reads a run of characters stops where the text goes on with another character, and a
text is cut at the first place where a mark stands. Where a scanner refuses every place inside a
part of a text, the search for its occurrences passes over that part.
-/

namespace ChangeImpact.Text

/-- What holds of the characters of a text is decided along the text. (Libraries have an instance
that tries all characters there are.) -/
instance decidableForallMem (q : Char → Prop) [DecidablePred q] (text : List Char) :
    Decidable (∀ c ∈ text, q c) := List.decidableBAll q text

variable {α β : Type} {p : Char → Bool} {read rest : List Char}

/-- The text does not go on with a character of a class. -/
def Stops (p : Char → Bool) (rest : List Char) : Prop := ∀ c ∈ rest.head?, p c = false

/-- Every run stops at the end of a text. -/
@[simp] theorem stops_nil : Stops p [] := by simp [Stops]

/-- A run stops at a character outside of its class. -/
@[simp] theorem stops_cons {c : Char} : Stops p (c :: rest) ↔ p c = false := by simp [Stops]

/-- Where a character does not stand, all are different from it. -/
theorem bne_of_not_mem {c : Char} (hc : c ∉ read) : ∀ d ∈ read, (d != c) = true := by
  intro d hd
  rw [bne_iff_ne]
  rintro rfl
  exact hc hd

/-- A run ends where the text stops. -/
theorem takeWhile_append_of_stops (hread : ∀ c ∈ read, p c = true) (hrest : Stops p rest) :
    (read ++ rest).takeWhile p = read := by
  rw [List.takeWhile_append_of_pos hread]
  cases rest with
  | nil => simp
  | cons c rest => simp [stops_cons.mp hrest]

/-- What follows a run begins where the text stops. -/
theorem dropWhile_append_of_stops (hread : ∀ c ∈ read, p c = true) (hrest : Stops p rest) :
    (read ++ rest).dropWhile p = rest := by
  rw [List.dropWhile_append_of_pos hread]
  cases rest with
  | nil => simp
  | cons c rest => simp [stops_cons.mp hrest]

/-- A text is cut at the first place where a mark stands. -/
theorem span_append_cons {mark : Char} (hread : mark ∉ read) (rest : List Char) :
    (read ++ mark :: rest).span (· != mark) = (read, mark :: rest) := by
  have hstops : Stops (· != mark) (mark :: rest) := by simp
  rw [List.span_eq_takeWhile_dropWhile, takeWhile_append_of_stops (bne_of_not_mem hread) hstops,
    dropWhile_append_of_stops (bne_of_not_mem hread) hstops]

/-- A text is split at its first character outside of a class. -/
theorem exists_eq_append_cons {p : Char → Bool} {text : List Char}
    (htext : ∃ c ∈ text, p c = false) : ∃ front c behind,
      (∀ d ∈ front, p d = true) ∧ p c = false ∧ text = front ++ c :: behind := by
  refine ⟨text.takeWhile p, ?_⟩
  cases hrest : text.dropWhile p with
  | nil =>
    obtain ⟨c, hmem, hc⟩ := htext
    have hall := List.dropWhile_eq_nil_iff.mp hrest c hmem
    rw [hc] at hall
    cases hall
  | cons c behind =>
    have hhead := List.head?_dropWhile_not p text
    rw [hrest] at hhead
    refine ⟨c, behind, fun d hd => List.mem_takeWhile_imp hd, hhead, ?_⟩
    rw [← hrest, List.takeWhile_append_dropWhile]

/-- A mark at the start of a text can be taken off. -/
theorem isPrefixOf?_append (lead rest : List Char) :
    lead.isPrefixOf? (lead ++ rest) = some rest :=
  List.isPrefixOf?_eq_some_iff_append_eq.mpr rfl

namespace Scanner

/-- The second of two scanners reads what the first one leaves. -/
@[simp] theorem bind_apply (scan : Scanner α) (next : α → Scanner β) (text : List Char) :
    (scan >>= next) text = (scan text).bind fun found => next found.1 found.2 := rfl

/-- The scanner that reads nothing leaves the text. -/
@[simp] theorem pure_apply (value : α) (text : List Char) :
    (pure value : Scanner α) text = some (value, text) := rfl

/-- The scanner that fails refuses every text. -/
@[simp] theorem failure_apply (text : List Char) : (failure : Scanner α) text = none := rfl

/-- A fixed text is read where it stands. -/
@[simp] theorem exactly_append (lead : String) (rest : List Char) :
    exactly lead (lead.toList ++ rest) = some ((), rest) := by
  rw [exactly, isPrefixOf?_append]
  rfl

/-- A scanner for a fixed text takes it off. -/
theorem exactly_eq_some {lead : String} {text rest : List Char} :
    exactly lead text = some ((), rest) ↔ lead.toList ++ rest = text := by
  rw [exactly, Option.map_eq_some_iff, ← List.isPrefixOf?_eq_some_iff_append_eq]
  simp

/-- A scanner for a fixed text refuses all texts that do not start with it. -/
theorem exactly_eq_none {lead : String} {text : List Char} (htext : ¬ lead.toList <+: text) :
    exactly lead text = none := by
  rw [exactly, Option.map_eq_none_iff, Option.eq_none_iff_forall_not_mem]
  intro rest hrest
  exact htext ⟨rest, List.isPrefixOf?_eq_some_iff_append_eq.mp hrest⟩

/-- A scanner for one character refuses all texts that go on with another one. -/
theorem exactly_eq_none_of_stops {mark : String} {c : Char} {text : List Char}
    (hmark : mark.toList = [c]) (htext : Stops (· == c) text) : exactly mark text = none := by
  refine exactly_eq_none ?_
  rintro ⟨behind, rfl⟩
  rw [hmark] at htext
  exact absurd (htext c rfl) (by simp)

/-- Where none of several words stands, none of them is read. -/
theorem oneOf_eq_none {words : List String} {text : List Char}
    (hwords : ∀ word ∈ words, ¬ word.toList <+: text) : oneOf words text = none := by
  induction words with
  | nil => rfl
  | cons word words ih =>
    rw [List.forall_mem_cons] at hwords
    have hhere : word.toList.isPrefixOf? text = none := by
      rw [Option.eq_none_iff_forall_not_mem]
      intro rest hrest
      exact hwords.1 ⟨rest, List.isPrefixOf?_eq_some_iff_append_eq.mp hrest⟩
    simp only [oneOf, hhere]
    exact ih hwords.2

/-- A run is read up to where it stops. -/
theorem run_append (hread : ∀ c ∈ read, p c = true) (hrest : Stops p rest) :
    run p (read ++ rest) = some (read, rest) := by
  rw [run, takeWhile_append_of_stops hread hrest, dropWhile_append_of_stops hread hrest]

/-- A run that is not empty is read up to where it stops. -/
theorem run1_append (hne : read ≠ []) (hread : ∀ c ∈ read, p c = true) (hrest : Stops p rest) :
    run1 p (read ++ rest) = some (read, rest) := by
  cases read with
  | nil => exact absurd rfl hne
  | cons c read =>
    rw [run1, takeWhile_append_of_stops hread hrest, dropWhile_append_of_stops hread hrest]

/-- Where the text stops at once there is no run. -/
theorem run1_eq_none (hrest : Stops p rest) : run1 p rest = none := by
  have hnone : ([] ++ rest).takeWhile p = [] :=
    takeWhile_append_of_stops (List.forall_mem_nil _) hrest
  rw [List.nil_append] at hnone
  rw [run1, hnone]

end Scanner

section Cut

variable {c : Char} {more left right text : List Char}

/-- A text is cut at a mark before which the mark's first character does not stand. -/
theorem cutAt?_append (hleft : c ∉ left) (more right : List Char) :
    cutAt? (c :: more) (left ++ (c :: more ++ right)) = some (left, right) := by
  induction left with
  | nil =>
    have hhere := isPrefixOf?_append (c :: more) right
    simp only [List.cons_append, List.nil_append] at hhere ⊢
    rw [cutAt?, hhere]
  | cons d left ih =>
    rw [List.mem_cons, not_or] at hleft
    obtain ⟨hd, hleft⟩ := hleft
    have hskip : (c :: more).isPrefixOf? (d :: (left ++ (c :: more ++ right))) = none := by
      simp [List.isPrefixOf?, hd]
    rw [List.cons_append, cutAt?, hskip]
    simp only [ih hleft, Option.map_some]

/-- A text without a mark's first character cannot be cut at the mark. -/
theorem cutAt?_eq_none (htext : c ∉ text) (more : List Char) : cutAt? (c :: more) text = none := by
  induction text with
  | nil => rfl
  | cons d text ih =>
    rw [List.mem_cons, not_or] at htext
    obtain ⟨hd, htext⟩ := htext
    have hskip : (c :: more).isPrefixOf? (d :: text) = none := by simp [List.isPrefixOf?, hd]
    rw [cutAt?, hskip]
    simp only [ih htext, Option.map_none]

/-- The parts around a mark and the mark make up the text. -/
theorem append_of_cutAt? {needle : List Char} (hcut : cutAt? needle text = some (left, right)) :
    left ++ (needle ++ right) = text := by
  induction text generalizing left with
  | nil =>
    rw [cutAt?] at hcut
    split_ifs at hcut with hneedle
    cases hcut
    simpa using hneedle
  | cons c rest ih =>
    rw [cutAt?] at hcut
    split at hcut
    case h_1 after hafter =>
      cases hcut
      rw [List.nil_append]
      exact List.isPrefixOf?_eq_some_iff_append_eq.mp hafter
    case h_2 =>
      obtain ⟨⟨front, back⟩, hrest, hparts⟩ := Option.map_eq_some_iff.mp hcut
      cases hparts
      rw [List.cons_append, ih hrest]

/-- A text in which a mark stands is cut there or farther to the left. -/
theorem exists_cutAt? (needle left right : List Char) : ∃ front back,
    cutAt? needle (left ++ (needle ++ right)) = some (front, back) ∧ right <:+ back := by
  induction left with
  | nil =>
    refine ⟨[], right, ?_, List.suffix_rfl⟩
    rw [List.nil_append]
    cases htext : needle ++ right with
    | nil =>
      obtain ⟨rfl, rfl⟩ := List.append_eq_nil_iff.mp htext
      rfl
    | cons c rest => rw [cutAt?, ← htext, isPrefixOf?_append]
  | cons c left ih =>
    rw [List.cons_append, cutAt?]
    split
    case h_1 after hafter =>
      refine ⟨[], after, rfl, ?_⟩
      have htext := List.isPrefixOf?_eq_some_iff_append_eq.mp hafter
      have hback : after <:+ c :: (left ++ (needle ++ right)) := ⟨needle, htext⟩
      have hright : right <:+ c :: (left ++ (needle ++ right)) :=
        ⟨c :: (left ++ needle), by simp⟩
      refine List.suffix_of_suffix_length_le hright hback ?_
      have hlength := congrArg List.length htext
      simp only [List.length_append, List.length_cons] at hlength
      omega
    case h_2 =>
      obtain ⟨front, back, hcut, hback⟩ := ih
      exact ⟨c :: front, back, by rw [hcut]; rfl, hback⟩

/-- A mark stands in a text exactly if the text can be cut at it. -/
theorem contains_iff_infix {needle : List Char} :
    contains needle text = true ↔ needle <:+: text := by
  constructor
  · intro hcontains
    obtain ⟨⟨left, right⟩, hcut⟩ := Option.isSome_iff_exists.mp hcontains
    exact ⟨left, right, by rw [List.append_assoc, append_of_cutAt? hcut]⟩
  · rintro ⟨left, right, rfl⟩
    obtain ⟨front, back, hcut, -⟩ := exists_cutAt? needle left right
    rw [contains, List.append_assoc, hcut]
    rfl

end Cut

section Occurrences

variable {scan : Scanner α} {before after : List Char} {value : α}

/-- What an occurrence read is skipped. -/
theorem occurrencesFrom_length (read : List Char) :
    occurrencesFrom scan before read.length (read ++ rest) =
      occurrencesFrom scan (read.reverse ++ before) 0 rest := by
  induction read generalizing before with
  | nil => rfl
  | cons c read ih =>
    rw [List.length_cons, List.cons_append, occurrencesFrom, ih, List.reverse_cons,
      List.append_assoc]
    rfl

/-- Where a scanner succeeds there is an occurrence, and the search goes on behind it. -/
theorem occurrencesFrom_of_eq_some (hread : read ≠ [])
    (hscan : scan (read ++ after) = some (value, after)) :
    occurrencesFrom scan before 0 (read ++ after) =
      ⟨before, value, after⟩ :: occurrencesFrom scan (read.reverse ++ before) 0 after := by
  cases read with
  | nil => exact absurd rfl hread
  | cons c read =>
    rw [List.cons_append] at hscan ⊢
    have hskip : (read ++ after).length - after.length = read.length := by simp
    rw [occurrencesFrom, hscan]
    simp only [hskip, occurrencesFrom_length, List.reverse_cons, List.append_assoc,
      List.singleton_append]

/-- The search passes over a part of the text in which the scanner refuses every place. -/
theorem occurrencesFrom_of_refused
    (hrefused : ∀ part, part ≠ [] → part <:+ read → scan (part ++ rest) = none) :
    occurrencesFrom scan before 0 (read ++ rest) =
      occurrencesFrom scan (read.reverse ++ before) 0 rest := by
  induction read generalizing before with
  | nil => rfl
  | cons c read ih =>
    have hhere : scan (c :: (read ++ rest)) = none :=
      hrefused (c :: read) (by simp) List.suffix_rfl
    rw [List.cons_append, occurrencesFrom, hhere]
    simp only
    rw [ih fun part hne hpart => hrefused part hne (hpart.trans (List.suffix_cons c read))]
    simp

/-- The search goes on behind a character at which the scanner refuses the text. -/
theorem occurrencesFrom_cons_of_eq_none {c : Char} (hscan : scan (c :: rest) = none) :
    occurrencesFrom scan before 0 (c :: rest) = occurrencesFrom scan (c :: before) 0 rest := by
  rw [occurrencesFrom, hscan]

/-- Induction along a search: from what is left behind a character at which the scanner refuses the
text, or behind what the scanner reads. -/
theorem search_induction {motive : List Char → Prop}
    (hshorter : ∀ place value after, scan place = some (value, after) →
      ∃ read, read ≠ [] ∧ place = read ++ after)
    (nil : motive [])
    (refused : ∀ c rest, scan (c :: rest) = none → motive rest → motive (c :: rest))
    (found : ∀ read value after, read ≠ [] → scan (read ++ after) = some (value, after) →
      motive after → motive (read ++ after))
    (text : List Char) : motive text := by
  induction hlength : text.length using Nat.strongRecOn generalizing text with
  | _ length ih =>
    cases text with
    | nil => exact nil
    | cons c rest =>
      cases hread : scan (c :: rest) with
      | none => exact refused c rest hread (ih rest.length (by simp [← hlength]) rest rfl)
      | some result =>
        obtain ⟨value, after⟩ := result
        obtain ⟨read, hne, hsplit⟩ := hshorter _ _ _ hread
        have hpos := List.length_pos_iff.mpr hne
        rw [hsplit] at hread hlength ⊢
        rw [List.length_append] at hlength
        exact found read value after hne hread (ih after.length (by omega) after rfl)

/-- An occurrence with a longer text to its right. -/
def Occurrence.extend (tail : List Char) (o : Occurrence α) : Occurrence α :=
  ⟨o.before, o.value, o.after ++ tail⟩

/-- A part of a text is searched for itself if the scanner reads the same at its places whatever
follows the part. -/
theorem occurrencesFrom_append {left : List Char} (before tail : List Char)
    (hshorter : ∀ place value after, scan place = some (value, after) →
      ∃ read, read ≠ [] ∧ place = read ++ after)
    (hscan : ∀ place, place ≠ [] → place <:+ left →
      scan (place ++ tail) = (scan place).map fun found => (found.1, found.2 ++ tail)) :
    occurrencesFrom scan before 0 (left ++ tail) =
      (occurrencesFrom scan before 0 left).map (Occurrence.extend tail) ++
        occurrencesFrom scan (left.reverse ++ before) 0 tail := by
  induction left using search_induction hshorter generalizing before with
  | nil => rfl
  | refused c rest hread ih =>
    have hhere := hscan (c :: rest) (List.cons_ne_nil c rest) List.suffix_rfl
    rw [hread, Option.map_none, List.cons_append] at hhere
    rw [List.cons_append, occurrencesFrom_cons_of_eq_none hhere,
      occurrencesFrom_cons_of_eq_none hread,
      ih (c :: before) fun place hne hplace =>
        hscan place hne (hplace.trans (List.suffix_cons c rest))]
    simp
  | found read value after hne hread ih =>
    have hhere := hscan (read ++ after) (by simp [hne]) List.suffix_rfl
    rw [hread, Option.map_some, List.append_assoc] at hhere
    rw [List.append_assoc, occurrencesFrom_of_eq_some hne hhere,
      occurrencesFrom_of_eq_some hne hread, ih (read.reverse ++ before) fun place hne hplace =>
        hscan place hne (hplace.trans (List.suffix_append read after))]
    simp [Occurrence.extend]

end Occurrences

section Places

variable {α : Type} {scan : Scanner α} {before text place after : List Char} {skip : ℕ} {value : α}

/-- What is found is read at some place of the text. -/
theorem exists_place_of_mem_occurrencesFrom {found : Occurrence α}
    (hfound : found ∈ occurrencesFrom scan before skip text) :
    ∃ place, place <:+ text ∧ scan place = some (found.value, found.after) := by
  induction text generalizing before skip with
  | nil => simp at hfound
  | cons c text ih =>
    have hlater {before : List Char} {skip : ℕ}
        (hlater : found ∈ occurrencesFrom scan before skip text) :
        ∃ place, place <:+ c :: text ∧ scan place = some (found.value, found.after) := by
      obtain ⟨place, hplace, hscan⟩ := ih hlater
      exact ⟨place, hplace.trans (List.suffix_cons c text), hscan⟩
    cases skip with
    | succ skip =>
      rw [occurrencesFrom] at hfound
      exact hlater hfound
    | zero =>
      rw [occurrencesFrom] at hfound
      cases hscan : scan (c :: text) with
      | none =>
        rw [hscan] at hfound
        exact hlater hfound
      | some read =>
        rw [hscan] at hfound
        obtain rfl | hfound := List.mem_cons.mp hfound
        · exact ⟨c :: text, List.suffix_rfl, hscan⟩
        · exact hlater hfound

/-- To the left of an occurrence lies what was to the left of the text. -/
theorem length_le_of_mem_occurrencesFrom {found : Occurrence α}
    (hfound : found ∈ occurrencesFrom scan before skip text) :
    before.length ≤ found.before.length := by
  induction text generalizing before skip with
  | nil => simp at hfound
  | cons c text ih =>
    have hlater {skip : ℕ} (hlater : found ∈ occurrencesFrom scan (c :: before) skip text) :
        before.length ≤ found.before.length := by
      have hlength := ih hlater
      rw [List.length_cons] at hlength
      omega
    cases skip with
    | succ skip => exact hlater hfound
    | zero =>
      rw [occurrencesFrom] at hfound
      split at hfound
      · obtain rfl | hfound := List.mem_cons.mp hfound
        · exact le_rfl
        · exact hlater hfound
      · exact hlater hfound

/-- A scanner reads apart in a text if it reads nothing at a place inside what it reads. -/
def ReadsApart (scan : Scanner α) (text : List Char) : Prop :=
  ∀ outer value after inner, outer <:+ text → scan outer = some (value, after) →
    inner <:+ outer → inner ≠ outer → after.length < inner.length → scan inner = none

/-- Where a scanner reads apart, whatever it reads at a place that is not skipped is found. -/
theorem exists_mem_occurrencesFrom (hapart : ReadsApart scan text) (hplace : place <:+ text)
    (hne : place ≠ []) (hscan : scan place = some (value, after))
    (hskip : skip + place.length ≤ text.length) :
    ∃ found ∈ occurrencesFrom scan before skip text, found.value = value := by
  induction text generalizing before skip with
  | nil => exact absurd (List.suffix_nil.mp hplace) hne
  | cons c text ih =>
    have hrest : ReadsApart scan text := fun outer value after inner houter =>
      hapart outer value after inner (houter.trans (List.suffix_cons c text))
    obtain rfl | hplace := List.suffix_cons_iff.mp hplace
    · have hzero : skip = 0 := by omega
      subst hzero
      refine ⟨⟨before, value, after⟩, ?_, rfl⟩
      rw [occurrencesFrom, hscan]
      exact List.mem_cons_self
    · have hlength := hplace.length_le
      cases skip with
      | succ skip =>
        rw [occurrencesFrom]
        exact ih hrest hplace (by simp only [List.length_cons] at hskip; omega)
      | zero =>
        rw [occurrencesFrom]
        cases hhere : scan (c :: text) with
        | none => exact ih hrest hplace (by omega)
        | some read =>
          -- The place is not inside of what is read here, so it is not skipped.
          have houtside : place.length ≤ read.2.length := by
            by_contra hinside
            have hnone := hapart (c :: text) read.1 read.2 place List.suffix_rfl hhere
              (hplace.trans (List.suffix_cons c text))
              (by rintro rfl; exact absurd hlength (by simp)) (by omega)
            rw [hscan] at hnone
            cases hnone
          have hlater : ∃ found ∈ occurrencesFrom scan (c :: before)
              (text.length - read.2.length) text, found.value = value :=
            ih hrest hplace (by omega)
          obtain ⟨found, hfound, hvalue⟩ := hlater
          exact ⟨found, List.mem_cons_of_mem _ hfound, hvalue⟩

end Places

namespace Scanner

variable {p : Char → Bool} {text rest found : List Char} {word other : String}

/-- A run that is read ends where the text stops. -/
theorem run_eq_some (hread : run p text = some (found, rest)) :
    (∀ c ∈ found, p c = true) ∧ Stops p rest ∧ text = found ++ rest := by
  cases hread
  refine ⟨fun c hc => List.mem_takeWhile_imp hc, fun c hc => ?_,
    List.takeWhile_append_dropWhile.symm⟩
  have hhead := List.head?_dropWhile_not p text
  rw [Option.mem_def.mp hc] at hhead
  exact hhead

/-- A run that may not be empty is a run. -/
theorem run1_eq_some (hread : run1 p text = some (found, rest)) :
    found ≠ [] ∧ (∀ c ∈ found, p c = true) ∧ Stops p rest ∧ text = found ++ rest := by
  have hrun : run p text = some (found, rest) ∧ found ≠ [] := by
    rw [run1] at hread
    cases htaken : text.takeWhile p with
    | nil => simp [htaken] at hread
    | cons c taken =>
      rw [htaken] at hread
      cases hread
      exact ⟨by rw [run, htaken], List.cons_ne_nil _ _⟩
  exact ⟨hrun.2, run_eq_some hrun.1⟩

/-- One of several words that is read is one of them, and stands in front. -/
theorem exactly_of_oneOf {words : List String} (hread : oneOf words text = some (word, rest)) :
    word ∈ words ∧ exactly word text = some ((), rest) := by
  induction words with
  | nil => cases hread
  | cons first words ih =>
    simp only [oneOf] at hread
    split at hread
    · cases hread
      exact ⟨List.mem_cons_self, by simp [exactly, *]⟩
    · obtain ⟨hmem, hexact⟩ := ih hread
      exact ⟨List.mem_cons_of_mem _ hmem, hexact⟩

/-- Of several words none of which starts another, the one that stands in front is read. -/
theorem oneOf_of_exactly {words : List String} (hmem : word ∈ words)
    (hread : exactly word text = some ((), rest))
    (hothers : ∀ other ∈ words, other ≠ word → ¬ other.toList <+: text) :
    oneOf words text = some (word, rest) := by
  induction words with
  | nil => cases hmem
  | cons first words ih =>
    rw [List.forall_mem_cons] at hothers
    by_cases hfirst : first = word
    · subst hfirst
      have hhere : first.toList.isPrefixOf? text = some rest := by
        simpa [exactly] using hread
      simp only [oneOf, hhere]
    · have hhere : first.toList.isPrefixOf? text = none := by
        rw [Option.eq_none_iff_forall_not_mem]
        intro behind hbehind
        exact hothers.1 hfirst ⟨behind, List.isPrefixOf?_eq_some_iff_append_eq.mp hbehind⟩
      simp only [oneOf, hhere]
      exact ih ((List.mem_cons.mp hmem).resolve_left (Ne.symm hfirst)) hothers.2

end Scanner

end ChangeImpact.Text
