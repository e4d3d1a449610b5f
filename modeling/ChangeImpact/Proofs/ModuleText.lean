import ChangeImpact.Proofs.Declaration

/-!
# Searching a module

A module is a sequence of declarations with blanks between them. A pattern that starts with `export`
is found at the start of a declaration or nowhere in it, and what was found goes on within the
declaration. What a pass finds in a module is therefore what it finds in the single declarations.
-/

namespace ChangeImpact.Export

open Text

/-- A declaration with the blanks behind it. -/
structure Written where
  declaration : Declaration
  layout : Layout
  behind : List Char
  isBlank_of_mem : ∀ c ∈ behind, isBlank c = true

/-- A declaration on a line of its own, with one space at every place. -/
def Written.line (declaration : Declaration) : Written :=
  ⟨declaration, .spaces, ['\n'], by decide⟩

/-- The text of the declaration and of the blanks behind it. -/
def Written.text (w : Written) : List Char := w.declaration.text w.layout ++ w.behind

/-- The text of a module: blanks, and then its declarations. -/
def moduleText (lead : List Char) (module : List Written) : String :=
  String.ofList (lead ++ module.flatMap Written.text)

/-- What lies to the left of a declaration, last character first: blanks, and before them the end of
another declaration if there is one. -/
def Fresh (before : List Char) : Prop :=
  Stops (fun c => c != '\x7d' && c != ';') (before.dropWhile isBlank)

/-- What a search finds in a declaration: nothing, or an occurrence at its start that ends within
it. -/
inductive Reads {α : Type} (scan : Scanner α) (found : Occurrence α → List ExportedSymbol)
    (written : List Char) : List ExportedSymbol → Prop
  | refused (hscan : ∀ tail, scan (written ++ tail) = none) : Reads scan found written []
  | read {value : α} {read rest : List Char} {symbols : List ExportedSymbol} (hread : read ≠ [])
    (hwritten : written = read ++ rest)
    (hscan : ∀ tail, scan (written ++ tail) = some (value, rest ++ tail))
    (hfound : ∀ before tail, Fresh before → found ⟨before, value, rest ++ tail⟩ = symbols) :
    Reads scan found written symbols

/-- To the left of a declaration stands no `default`. -/
theorem followsDefault_of_fresh {before : List Char} (hfresh : Fresh before) :
    followsDefault before = false := by
  have hhead (count : ℕ) : ∀ c ∈ ((before.take count).dropWhile isBlank).head?,
      c ∈ (before.dropWhile isBlank).head? := by
    clear hfresh
    induction before generalizing count with
    | nil => simp
    | cons d before ih =>
      cases count with
      | zero => simp
      | succ count =>
        rw [List.take_succ_cons]
        cases hd : isBlank d with
        | true =>
          rw [List.dropWhile_cons_of_pos hd, List.dropWhile_cons_of_pos hd]
          exact ih count
        | false =>
          rw [List.dropWhile_cons_of_neg (by simp [hd]), List.dropWhile_cons_of_neg (by simp [hd])]
          simp
  rw [followsDefault]
  cases hleft : (before.take 10).dropWhile isBlank with
  | nil => rfl
  | cons c rest =>
    have hc := hfresh c (hhead 10 c (by rw [hleft]; rfl))
    have hother : c ≠ 't' := by
      rintro rfl
      cases hc
    simp [List.isPrefixOf, hother.symm]

namespace Written

variable (w : Written)

/-- The text of a declaration is free behind its first character, and it ends with a separator. -/
theorem exists_text_eq :
    ∃ front c, w.text = 'e' :: (front ++ [c]) ∧ isSeparator c = true ∧ Free front := by
  obtain ⟨front, htext, hfree⟩ := w.declaration.exists_text_eq w.layout
  cases hbehind : w.behind.reverse with
  | nil =>
    rw [List.reverse_eq_nil_iff] at hbehind
    refine ⟨front, w.declaration.close, ?_, w.declaration.isSeparator_close, hfree⟩
    rw [text, htext, hbehind, List.append_nil]
  | cons c blanks =>
    rw [List.reverse_eq_cons_iff] at hbehind
    have hblank := w.isBlank_of_mem
    rw [hbehind, List.forall_mem_append] at hblank
    refine ⟨front ++ w.declaration.close :: blanks.reverse, c, ?_, ?_, ?_⟩
    · rw [text, htext, hbehind]
      simp
    · simp [isSeparator, hblank.2]
    · rw [free_append_cons w.declaration.isSeparator_close]
      refine ⟨hfree, ?_⟩
      rw [← List.append_nil blanks.reverse, free_append_of_blank hblank.1]
      exact free_nil

/-- Behind its first character a declaration has no `export`, whatever follows it. -/
theorem export_not_prefix {first : Char} {read part : List Char} (tail : List Char)
    (htext : w.text = first :: (read ++ part)) (hne : part ≠ []) :
    ¬ "export".toList <+: part ++ tail := by
  obtain ⟨front, c, hfront, hc, hfree⟩ := w.exists_text_eq
  obtain ⟨init, last, rfl⟩ : ∃ init last, part = init ++ [last] :=
    ⟨part.dropLast, part.getLast hne, (List.dropLast_append_getLast hne).symm⟩
  rw [hfront, List.cons.injEq, ← List.append_assoc] at htext
  obtain ⟨rfl, hlast⟩ := List.append_inj' htext.2 rfl
  rw [List.cons.injEq] at hlast
  obtain ⟨rfl, -⟩ := hlast
  have hexport : "export".toList ∈ marks := by decide
  have hinit : Without "export".toList init := fun h =>
    hfree _ hexport (h.trans (List.suffix_append read init).isInfix)
  rw [List.append_assoc, List.singleton_append]
  exact not_prefix_append (not_mem_of_isSeparator hc _ hexport) hinit tail

/-- Behind a declaration there are only blanks, and before them what closes it. -/
theorem fresh_behind (before : List Char) : Fresh (w.text.reverse ++ before) := by
  obtain ⟨front, htext, -⟩ := w.declaration.exists_text_eq w.layout
  have hblank : ∀ c ∈ w.behind.reverse, isBlank c = true :=
    fun c hc => w.isBlank_of_mem c (List.mem_reverse.mp hc)
  have hclose : isBlank w.declaration.close = false := by
    obtain hclose | hclose := w.declaration.close_eq
    · rw [hclose]
      decide
    · rw [hclose]
      decide
  rw [Fresh, text, htext, List.reverse_append, List.append_assoc,
    List.dropWhile_append_of_pos hblank]
  simp only [List.reverse_cons, List.reverse_append, List.reverse_nil, List.nil_append,
    List.cons_append]
  rw [List.dropWhile_cons_of_neg (by simp [hclose])]
  obtain hclose | hclose := w.declaration.close_eq
  · simp [hclose]
  · simp [hclose]

end Written

section Search

variable {α : Type} {scan : Scanner α} {found : Occurrence α → List ExportedSymbol}
  {symbols : Written → List ExportedSymbol}

/-- Where a pattern refuses a whole declaration it refuses every place in it. -/
theorem occurrencesFrom_of_text_refused
    (hmark : ∀ text, ¬ "export".toList <+: text → scan text = none) (w : Written)
    (hscan : ∀ tail, scan (w.text ++ tail) = none) (before tail : List Char) :
    occurrencesFrom scan before 0 (w.text ++ tail) =
      occurrencesFrom scan (w.text.reverse ++ before) 0 tail := by
  apply occurrencesFrom_of_refused
  rintro part hne ⟨read, htext⟩
  cases read with
  | nil =>
    rw [List.nil_append] at htext
    rw [htext]
    exact hscan tail
  | cons first read => exact hmark _ (w.export_not_prefix tail htext.symm hne)

/-- Behind what was found in a declaration nothing else is found in it. -/
theorem occurrencesFrom_of_text_read
    (hmark : ∀ text, ¬ "export".toList <+: text → scan text = none) (w : Written) {value : α}
    {read rest : List Char} (hread : read ≠ []) (hwritten : w.text = read ++ rest)
    {tail : List Char} (hscan : scan (w.text ++ tail) = some (value, rest ++ tail))
    (before : List Char) :
    occurrencesFrom scan before 0 (w.text ++ tail) =
      ⟨before, value, rest ++ tail⟩ :: occurrencesFrom scan (w.text.reverse ++ before) 0 tail := by
  have hrest : occurrencesFrom scan (read.reverse ++ before) 0 (rest ++ tail) =
      occurrencesFrom scan (rest.reverse ++ (read.reverse ++ before)) 0 tail := by
    apply occurrencesFrom_of_refused
    rintro part hne ⟨skipped, hpart⟩
    obtain ⟨first, more, rfl⟩ := List.exists_cons_of_ne_nil hread
    have htext : w.text = first :: ((more ++ skipped) ++ part) := by
      rw [hwritten, ← hpart]
      simp
    exact hmark _ (w.export_not_prefix tail htext hne)
  rw [hwritten, List.append_assoc] at hscan ⊢
  rw [occurrencesFrom_of_eq_some hread hscan, hrest, List.reverse_append, List.append_assoc]

/-- What is found in a text does not depend on what follows it. -/
theorem Reads.append {written : List Char} {listed : List ExportedSymbol}
    (hreads : Reads scan found written listed) (behind : List Char) :
    Reads scan found (written ++ behind) listed := by
  cases hreads with
  | refused hscan =>
    refine .refused fun tail => ?_
    rw [List.append_assoc]
    exact hscan (behind ++ tail)
  | @read value read rest symbols hread hwritten hscan hfound =>
    have hsplit : written ++ behind = read ++ (rest ++ behind) := by
      rw [hwritten, List.append_assoc]
    have hlonger (tail : List Char) :
        scan (written ++ behind ++ tail) = some (value, rest ++ behind ++ tail) := by
      rw [List.append_assoc, List.append_assoc]
      exact hscan (behind ++ tail)
    refine .read hread hsplit hlonger fun before tail hfresh => ?_
    rw [List.append_assoc]
    exact hfound before (behind ++ tail) hfresh

/-- What a pass finds in declarations, one after the other. -/
theorem flatMap_occurrencesFrom
    (hmark : ∀ text, ¬ "export".toList <+: text → scan text = none)
    (hreads : ∀ w : Written, Reads scan found w.text (symbols w)) {before : List Char}
    (hfresh : Fresh before) (module : List Written) :
    (occurrencesFrom scan before 0 (module.flatMap Written.text)).flatMap found =
      module.flatMap symbols := by
  induction module generalizing before with
  | nil => simp
  | cons w module ih =>
    have hrest := ih (w.fresh_behind before)
    rw [List.flatMap_cons, List.flatMap_cons, ← hrest]
    have hhere := hreads w
    generalize symbols w = listed at hhere ⊢
    cases hhere with
    | refused hscan =>
      rw [occurrencesFrom_of_text_refused hmark w hscan, List.nil_append]
    | read hread hwritten hscan hfound =>
      rw [occurrencesFrom_of_text_read hmark w hread hwritten (hscan _), List.flatMap_cons,
        hfound before _ hfresh]

/-- What a pass finds in a module is what it finds in the single declarations. -/
theorem flatMap_occurrences (hmark : ∀ text, ¬ "export".toList <+: text → scan text = none)
    (hreads : ∀ w : Written, Reads scan found w.text (symbols w)) {lead : List Char}
    (hlead : ∀ c ∈ lead, isBlank c = true) (module : List Written) :
    (occurrences scan (lead ++ module.flatMap Written.text)).flatMap found =
      module.flatMap symbols := by
  have hskipped : occurrencesFrom scan [] 0 (lead ++ module.flatMap Written.text) =
      occurrencesFrom scan (lead.reverse ++ []) 0 (module.flatMap Written.text) := by
    refine occurrencesFrom_of_refused fun part hne hpart => hmark _ ?_
    obtain ⟨c, rest, rfl⟩ := List.exists_cons_of_ne_nil hne
    have hblank := hlead c (hpart.subset List.mem_cons_self)
    intro hexport
    obtain ⟨more, hmore⟩ := hexport
    have hc : 'e' = c := (List.cons.inj hmore).1
    rw [← hc] at hblank
    cases hblank
  have hfresh : Fresh (lead.reverse ++ []) := by
    rw [Fresh, List.dropWhile_append_of_pos fun c hc => hlead c (List.mem_reverse.mp hc)]
    exact stops_nil
  rw [occurrences, hskipped]
  exact flatMap_occurrencesFrom hmark hreads hfresh module

end Search

end ChangeImpact.Export
