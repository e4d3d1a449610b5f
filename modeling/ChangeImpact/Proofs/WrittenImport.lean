import ChangeImpact.Import.Specifier
import ChangeImpact.Proofs.Marks

/-!
# Written imports

A module text may consist of import statements: imports and re-exports of a specifier, with what is
imported in front of it or not, and constants that are given the result of an `import` or `require`
call. Every statement is found by one of the three searches for specifiers, which reads its
specifier, and is passed over by the two others, whatever stands beside it.
-/

namespace ChangeImpact

open Text

namespace Text

variable {α : Type} {scan : Scanner α} {left right rest : List Char}

/-- A scanner refuses every place of a part of a text that goes on with `rest`. -/
def Refuses (scan : Scanner α) (part rest : List Char) : Prop :=
  ∀ place, place ≠ [] → place <:+ part → scan (place ++ rest) = none

/-- The places of two parts are those of the first and those of the second one. -/
theorem Refuses.append (hleft : Refuses scan left (right ++ rest))
    (hright : Refuses scan right rest) : Refuses scan (left ++ right) rest := by
  intro place hne hplace
  obtain hlonger | hshorter :=
    List.suffix_or_suffix_of_suffix (List.suffix_append left right) hplace
  · obtain ⟨front, rfl⟩ := hlonger
    cases front with
    | nil => exact hright right hne List.suffix_rfl
    | cons c front =>
      rw [List.append_assoc]
      exact hleft _ (List.cons_ne_nil c front) (List.suffix_append_self_iff.mp hplace)
  · exact hright place hne hshorter

/-- A scanner that refuses some first characters refuses every place of a part that consists of
them. -/
theorem refuses_of_first (hfirst : ∀ c ∈ left, ∀ more, scan (c :: more) = none) :
    Refuses scan left rest := by
  intro place hne hplace
  cases place with
  | nil => exact absurd rfl hne
  | cons c place => exact hfirst c (hplace.subset List.mem_cons_self) _

/-- What a search finds in a part that is refused around what is read once. -/
theorem values_of_read {before front read behind : List Char} {value : α} (hread : read ≠ [])
    (hfront : Refuses scan front (read ++ (behind ++ rest)))
    (hscan : scan (read ++ (behind ++ rest)) = some (value, behind ++ rest))
    (hbehind : Refuses scan behind rest) :
    (occurrencesFrom scan before 0 (front ++ (read ++ behind) ++ rest)).map (·.value) =
      value :: (occurrencesFrom scan ((front ++ (read ++ behind)).reverse ++ before) 0 rest).map
        (·.value) := by
  rw [List.append_assoc, List.append_assoc, occurrencesFrom_of_refused hfront,
    occurrencesFrom_of_eq_some hread hscan, List.map_cons, occurrencesFrom_of_refused hbehind]
  simp only [List.reverse_append, List.append_assoc]

end Text

namespace Import

/-! ### Single statements -/

/-- The three searches for specifiers. -/
inductive Search
  /-- For imports and re-exports. -/
  | declared
  /-- For calls of `import`. -/
  | awaited
  /-- For calls of `require`. -/
  | required
  deriving DecidableEq, Repr

/-- What a search looks for. -/
def Search.form : Search → Scanner (List Char)
  | declared => staticForm
  | awaited => callForm "import"
  | required => callForm "require"

/-- The forms of an import statement. -/
inductive StatementForm
  /-- `import 'specifier';` -/
  | plain
  /-- `import names from 'specifier';` -/
  | named (names : List Char)
  /-- `export names from 'specifier';` -/
  | reexport (names : List Char)
  /-- `const name = await import('specifier');` -/
  | awaited (name : List Char)
  /-- `const name = require('specifier');` -/
  | required (name : List Char)

namespace StatementForm

/-- The search that finds statements of the form. -/
def search : StatementForm → Search
  | plain | named _ | reexport _ => .declared
  | awaited _ => .awaited
  | required _ => .required

/-- The part of a statement that its form leaves open: what is imported, or the name of the
constant. -/
def inner : StatementForm → List Char
  | plain => []
  | named inner | reexport inner | awaited inner | required inner => inner

/-- The text in front of the specifier. -/
def lead : StatementForm → List Char
  | plain => "import ".toList
  | named names => "import ".toList ++ names ++ " from ".toList
  | reexport names => "export ".toList ++ names ++ " from ".toList
  | awaited name => "const ".toList ++ name ++ " = await import(".toList
  | required name => "const ".toList ++ name ++ " = require(".toList

/-- The text behind the specifier. -/
def close : StatementForm → List Char
  | plain | named _ | reexport _ => [';']
  | awaited _ | required _ => [')', ';']

end StatementForm

/-- An import statement with the blanks behind it, among them the end of its line. What it imports,
or the name of its constant, holds no quotes and semicolons but may run over several lines, and its
specifier holds no quotes, blanks and parentheses. -/
structure Statement where
  form : StatementForm
  quote : Char
  specifier : List Char
  behind : List Char
  isQuote_quote : isQuote quote = true
  isQuote_of_mem_inner : ∀ c ∈ form.inner, isQuote c = false
  ne_semicolon_of_mem_inner : ∀ c ∈ form.inner, c ≠ ';'
  specifier_ne_nil : specifier ≠ []
  isQuote_of_mem_specifier : ∀ c ∈ specifier, isQuote c = false
  isBlank_of_mem_specifier : ∀ c ∈ specifier, isBlank c = false
  ne_parenthesis_of_mem_specifier : ∀ c ∈ specifier, c ≠ '(' ∧ c ≠ ')'
  isBlank_of_mem_behind : ∀ c ∈ behind, isBlank c = true

namespace Statement

/-- The specifier in its quotes. -/
def quoted (s : Statement) : List Char := s.quote :: (s.specifier ++ [s.quote])

/-- The text of a statement and of the blanks behind it. -/
def text (s : Statement) : List Char :=
  s.form.lead ++ (s.quoted ++ (s.form.close ++ s.behind))

end Statement

/-- The text of a module that consists of import statements. -/
def moduleText (statements : List Statement) : String :=
  String.ofList (statements.flatMap Statement.text)

/-- The specifiers of the statements that a search is for, in order. -/
def specifiersOf (search : Search) (statements : List Statement) : List String :=
  (statements.filter (·.form.search = search)).map fun s => String.ofList s.specifier

/-! ### Parts of the searches -/

section Parts

variable {c quote : Char} {word : String} {clause specifier text more : List Char}

/-- The words that what a search looks for can start with. -/
def Search.words : Search → List String
  | declared => ["import", "export"]
  | awaited => ["import"]
  | required => ["require"]

/-- A quote is none of the other characters that matter. -/
theorem apart_of_isQuote (hquote : isQuote quote = true) :
    isBlank quote = false ∧ quote ≠ '(' ∧ quote ≠ ';' ∧
      ∀ search : Search, ∀ word ∈ search.words, quote ∉ word.toList := by
  simp only [isQuote, Bool.or_eq_true, beq_iff_eq] at hquote
  obtain rfl | rfl := hquote <;> refine ⟨by decide, by decide, by decide, ?_⟩ <;>
    intro search <;> cases search <;> decide

/-- No word of a search holds a parenthesis. -/
theorem parenthesis_not_mem_words :
    ∀ search : Search, ∀ word ∈ search.words, '(' ∉ word.toList := by
  intro search
  cases search <;> decide

/-- A search finds nothing where none of its words stands. -/
theorem form_eq_none {search : Search} (hwords : ∀ word ∈ search.words, ¬ word.toList <+: text) :
    search.form text = none := by
  cases search with
  | declared =>
    have hnone : Scanner.oneOf ["import", "export"] text = none := Scanner.oneOf_eq_none hwords
    rw [Search.form, staticForm, Scanner.bind_apply, hnone]
    rfl
  | awaited =>
    rw [Search.form, callForm, Scanner.bind_apply, Scanner.exactly_eq_none (hwords _ (by decide))]
    rfl
  | required =>
    rw [Search.form, callForm, Scanner.bind_apply, Scanner.exactly_eq_none (hwords _ (by decide))]
    rfl

/-- No search finds anything at a character with which none of its words starts. -/
theorem form_cons_eq_none (search : Search) (hc : c ∉ ['i', 'e', 'r']) (more : List Char) :
    search.form (c :: more) = none := by
  refine form_eq_none fun word hword hprefix => hc ?_
  have hfirst : ∀ search : Search, ∀ word ∈ search.words, word.toList.head? ∈
      [some 'i', some 'e', some 'r'] := by
    intro search
    cases search <;> decide
  have hhead := hfirst search word hword
  obtain ⟨rest, hrest⟩ := hprefix
  cases hletters : word.toList with
  | nil => simp [hletters] at hhead
  | cons d letters =>
    rw [hletters, List.cons_append, List.cons.injEq] at hrest
    rw [hletters, hrest.1] at hhead
    simpa using hhead

/-- A specifier in quotes is read. -/
theorem quoted_apply {close : Char} (hquote : isQuote quote = true) (hclose : isQuote close = true)
    (hne : specifier ≠ []) (hspecifier : ∀ c ∈ specifier, isQuote c = false) (more : List Char) :
    quoted (quote :: (specifier ++ close :: more)) = some (specifier, more) := by
  have hmark {mark : Char} (hmark : isQuote mark = true) (rest : List Char) :
      ∃ read, Scanner.oneOf ["'", "\""] (mark :: rest) = some (read, rest) := by
    simp only [isQuote, Bool.or_eq_true, beq_iff_eq] at hmark
    obtain rfl | rfl := hmark
    · exact ⟨"'", rfl⟩
    · exact ⟨"\"", rfl⟩
  obtain ⟨first, hfirst⟩ := hmark hquote (specifier ++ close :: more)
  obtain ⟨last, hlast⟩ := hmark hclose more
  have hinside : Scanner.run1 (fun c => !isQuote c) (specifier ++ close :: more) =
      some (specifier, close :: more) :=
    Scanner.run1_append hne (by simpa using hspecifier) (by simp [hclose])
  rw [quoted, Scanner.bind_apply, hfirst, Option.bind_some, Scanner.bind_apply, hinside,
    Option.bind_some, Scanner.bind_apply, hlast, Option.bind_some, Scanner.pure_apply]

/-- No specifier is read where there is no quote. -/
theorem quoted_eq_none (hc : isQuote c = false) (more : List Char) : quoted (c :: more) = none := by
  simp only [isQuote, Bool.or_eq_false_iff, beq_eq_false_iff_ne] at hc
  rw [quoted, Scanner.bind_apply, Scanner.oneOf_eq_none]
  · rfl
  · simp [List.cons_prefix_cons, hc.1.symm, hc.2.symm]

/-- What is imported stands between blanks and the word `from`. -/
theorem isClause_named (names : List Char) :
    isClause (' ' :: (names ++ " from ".toList)) = true := by
  have hback : (' ' :: (names ++ " from ".toList)).reverse =
      " morf ".toList ++ (names.reverse ++ [' ']) := by simp
  have hafter : "morf".toList.isPrefixOf?
      ((" morf ".toList ++ (names.reverse ++ [' '])).dropWhile isBlank) =
        some (' ' :: (names.reverse ++ [' '])) := rfl
  rw [isClause]
  simp only [hback, hafter]
  cases names.reverse <;> simp [isBlank]

/-- No clause starts with anything but a blank. -/
theorem isClause_cons (hc : isBlank c = false) (text : List Char) :
    isClause (c :: text) = false := by
  simp [isClause, hc]

/-- No clause ends with anything but a blank. -/
theorem isClause_concat (hc : isBlank c = false) (text : List Char) :
    isClause (text ++ [c]) = false := by
  have hall : (text ++ [c]).all isBlank = false := by simp [hc]
  have hback : (text ++ [c]).reverse = c :: text.reverse := by simp
  cases htext : text ++ [c] with
  | nil => rfl
  | cons first rest =>
    rw [htext] at hall hback
    rw [isClause]
    simp only [hall, hback, List.head?_cons, Option.any_some, hc, Bool.false_and, Bool.false_or]
    split <;> simp

/-- What follows the word of an import or re-export decides whether it is one. -/
theorem staticForm_apply (hword : word ∈ Search.declared.words)
    (hclause : ∀ c ∈ clause, isQuote c = false ∧ c ≠ ';') (hstops : isQuote c = true ∨ c = ';')
    (more : List Char) : staticForm (word.toList ++ (clause ++ c :: more)) =
      if isClause clause then quoted (c :: more) else none := by
  have hlead : Scanner.oneOf ["import", "export"] (word.toList ++ (clause ++ c :: more)) =
      some (word, clause ++ c :: more) := by
    simp only [Search.words, List.mem_cons, List.not_mem_nil, or_false] at hword
    obtain rfl | rfl := hword <;> rfl
  have hrun : Scanner.run (fun c => !isQuote c && c != ';') (clause ++ c :: more) =
      some (clause, c :: more) := by
    refine Scanner.run_append (by simpa using hclause) ?_
    obtain hquote | rfl := hstops <;> simp [*]
  rw [staticForm, Scanner.bind_apply, hlead, Option.bind_some, Scanner.bind_apply, hrun,
    Option.bind_some]
  split <;> rfl

/-- An import or re-export goes on with a blank. -/
theorem staticForm_eq_none (hword : word ∈ Search.declared.words) (hc : isBlank c = false)
    (more : List Char) : staticForm (word.toList ++ c :: more) = none := by
  by_cases hstops : isQuote c = true ∨ c = ';'
  · have h := staticForm_apply hword (List.forall_mem_nil _) hstops more
    rwa [List.nil_append, isClause, if_neg (by simp)] at h
  · have hlead : Scanner.oneOf ["import", "export"] (word.toList ++ c :: more) =
        some (word, c :: more) := by
      simp only [Search.words, List.mem_cons, List.not_mem_nil, or_false] at hword
      obtain rfl | rfl := hword <;> rfl
    rw [not_or, Bool.not_eq_true] at hstops
    rw [staticForm, Scanner.bind_apply, hlead, Option.bind_some, Scanner.bind_apply, Scanner.run,
      Option.bind_some, List.takeWhile_cons_of_pos (by simp [hstops]), isClause_cons hc,
      if_neg (by simp)]
    rfl

/-- A call is read up to its closing parenthesis. -/
theorem callForm_apply (function : String) (hquote : isQuote quote = true) (hne : specifier ≠ [])
    (hspecifier : ∀ c ∈ specifier, isQuote c = false) (more : List Char) :
    callForm function (function.toList ++
      '(' :: quote :: (specifier ++ quote :: ')' :: more)) = some (specifier, more) := by
  have hblanks {c : Char} (hc : isBlank c = false) (rest : List Char) :
      Scanner.blanks (c :: rest) = some ([], c :: rest) :=
    Scanner.run_append (List.forall_mem_nil _) (stops_cons.mpr hc)
  have hopen (rest : List Char) : Scanner.exactly "(" ('(' :: rest) = some ((), rest) := rfl
  have hclose (rest : List Char) : Scanner.exactly ")" (')' :: rest) = some ((), rest) := rfl
  simp only [callForm, Scanner.bind_apply, Scanner.exactly_append, Option.bind_some,
    hblanks (show isBlank '(' = false from by decide), hopen,
    hblanks (apart_of_isQuote hquote).1, quoted_apply hquote hquote hne hspecifier,
    hblanks (show isBlank ')' = false from by decide), hclose, Scanner.pure_apply]

/-- A text is made of blanks alone, or it is cut at its first character that is none. -/
theorem blank_or_exists_cons (text : List Char) : (∀ c ∈ text, isBlank c = true) ∨
    ∃ blanks c rest, (∀ c ∈ blanks, isBlank c = true) ∧ isBlank c = false ∧
      text = blanks ++ c :: rest := by
  by_cases hall : ∀ c ∈ text, isBlank c = true
  · exact .inl hall
  · exact .inr (exists_eq_append_cons (by simpa using hall))

/-- Up to the first quote, a call consists of the function, a parenthesis, and blanks around it. -/
theorem exists_of_callForm {function : String} {part : List Char} {found : List Char × List Char}
    (hfunction : quote ∉ function.toList) (hquote : isQuote quote = true)
    (hpart : ∀ c ∈ part, isQuote c = false)
    (hread : callForm function (part ++ quote :: more) = some found) :
    ∃ before after, (∀ c ∈ before, isBlank c = true) ∧ (∀ c ∈ after, isBlank c = true) ∧
      part = function.toList ++ (before ++ '(' :: after) := by
  have hblanks {blanks rest : List Char} {c : Char} (hall : ∀ c ∈ blanks, isBlank c = true)
      (hc : isBlank c = false) :
      Scanner.blanks (blanks ++ c :: rest) = some (blanks, c :: rest) :=
    Scanner.run_append hall (stops_cons.mpr hc)
  have hquoteBlank := (apart_of_isQuote hquote).1
  rw [callForm, Scanner.bind_apply] at hread
  obtain ⟨⟨⟨⟩, behind⟩, hexact, hread⟩ := Option.bind_eq_some_iff.mp hread
  have htext := Scanner.exactly_eq_some.mp hexact
  obtain ⟨inside, rfl⟩ :=
    prefix_of_prefix_append_cons hfunction ⟨behind, htext⟩
  rw [List.append_assoc, List.append_cancel_left_eq] at htext
  subst htext
  rw [List.forall_mem_append] at hpart
  dsimp only at hread
  rw [Scanner.bind_apply] at hread
  obtain hall | ⟨before, c, rest, hbefore, hc, rfl⟩ := blank_or_exists_cons inside
  · rw [hblanks hall hquoteBlank, Option.bind_some, Scanner.bind_apply,
      Scanner.exactly_eq_none_of_stops (c := '(') rfl (by simp [(apart_of_isQuote hquote).2.1])]
      at hread
    cases hread
  · rw [List.append_assoc, List.cons_append, hblanks hbefore hc, Option.bind_some,
      Scanner.bind_apply] at hread
    obtain ⟨⟨⟨⟩, behind⟩, hexact, hread⟩ := Option.bind_eq_some_iff.mp hread
    have hopen := Scanner.exactly_eq_some.mp hexact
    rw [show "(".toList = ['('] from rfl, List.singleton_append, List.cons.injEq] at hopen
    obtain ⟨rfl, rfl⟩ := hopen
    dsimp only at hread
    rw [Scanner.bind_apply] at hread
    obtain hall | ⟨after, d, rest, hafter, hd, rfl⟩ := blank_or_exists_cons rest
    · exact ⟨before, rest, hbefore, hall, rfl⟩
    · rw [List.append_assoc, List.cons_append, hblanks hafter hd, Option.bind_some,
        Scanner.bind_apply, quoted_eq_none (hpart.2 d (by simp))] at hread
      cases hread

end Parts

/-! ### Where the searches find nothing -/

section Refused

variable {quote : Char} {part more : List Char} {search : Search}

/-- A search that finds something at a place starts with one of its words there. -/
theorem exists_word_of_form (hquote : isQuote quote = true)
    (hread : search.form (part ++ quote :: more) ≠ none) :
    ∃ word ∈ search.words, ∃ inside, part = word.toList ++ inside := by
  by_contra hnone
  refine hread (form_eq_none fun word hword hprefix => hnone ⟨word, hword, ?_⟩)
  obtain ⟨inside, rfl⟩ := prefix_of_prefix_append_cons
    ((apart_of_isQuote hquote).2.2.2 search word hword) hprefix
  exact ⟨inside, rfl⟩

/-- A search for calls is one for a function. -/
theorem Search.eq_callForm (hsearch : search ≠ .declared) :
    ∃ function, search.words = [function] ∧ search.form = callForm function := by
  cases search with
  | declared => exact absurd rfl hsearch
  | awaited => exact ⟨_, rfl, rfl⟩
  | required => exact ⟨_, rfl, rfl⟩

/-- No search finds anything inside a specifier. -/
theorem refuses_specifier (hquote : isQuote quote = true)
    (hpart : ∀ c ∈ part, isQuote c = false ∧ isBlank c = false ∧ c ≠ '(') :
    Refuses search.form part (quote :: more) := by
  intro place hne hplace
  have hplain := fun c hc => hpart c (hplace.subset hc)
  by_contra hread
  by_cases hsearch : search = .declared
  · obtain ⟨word, hword, inside, rfl⟩ := exists_word_of_form hquote hread
    subst hsearch
    refine hread ?_
    rw [List.append_assoc]
    cases inside with
    | nil => exact staticForm_eq_none hword (apart_of_isQuote hquote).1 more
    | cons c inside => exact staticForm_eq_none hword (hplain c (by simp)).2.1 _
  · obtain ⟨function, hwords, hform⟩ := Search.eq_callForm hsearch
    obtain ⟨found, hfound⟩ := Option.ne_none_iff_exists'.mp hread
    rw [hform] at hfound
    obtain ⟨before, after, -, -, rfl⟩ := exists_of_callForm
      ((apart_of_isQuote hquote).2.2.2 search function (by simp [hwords])) hquote
      (fun c hc => (hplain c hc).1) hfound
    exact (hplain '(' (by simp)).2.2 rfl

/-- An import or re-export is not found in front of a call's argument. -/
theorem refuses_declared (hquote : isQuote quote = true)
    (hpart : ∀ c ∈ part, isQuote c = false ∧ c ≠ ';') :
    Refuses Search.declared.form (part ++ ['(']) (quote :: more) := by
  intro place hne hplace
  by_contra hread
  obtain ⟨word, hword, inside, rfl⟩ := exists_word_of_form hquote hread
  obtain hnone | ⟨front, hfront, hsuffix⟩ := List.suffix_concat_iff.mp hplace
  · exact hne hnone
  obtain rfl | ⟨clause, c, rfl⟩ := List.eq_nil_or_concat' inside
  · rw [List.append_nil] at hfront
    exact parenthesis_not_mem_words _ _ hword (hfront ▸ by simp)
  · rw [← List.append_assoc] at hfront
    obtain ⟨rfl, hlast⟩ := List.append_inj' hfront rfl
    cases hlast
    have hclause : ∀ c ∈ clause ++ ['('], isQuote c = false ∧ c ≠ ';' := by
      rw [List.forall_mem_append]
      exact ⟨fun c hc => hpart c (hsuffix.subset (by simp [hc])), by decide⟩
    refine hread ?_
    rw [List.append_assoc, Search.form, staticForm_apply hword hclause (.inl hquote),
      isClause_concat (by decide), if_neg (by simp)]

/-- A text that ends with a call of a function ends with no call of another one. -/
theorem eq_of_call {search other : Search} {function word : String}
    {lead left before after : List Char} (hsearch : search.words = [function])
    (hother : other.words = [word]) (hbefore : ∀ c ∈ before, isBlank c = true)
    (hafter : ∀ c ∈ after, isBlank c = true)
    (heq : lead ++ function.toList ++ ['('] = left ++ (word.toList ++ (before ++ '(' :: after))) :
    search = other ∧ lead = left := by
  -- the last characters of both texts agree, and neither is a blank
  have hnone : after = [] := by
    obtain hnone | ⟨inside, c, rfl⟩ := List.eq_nil_or_concat' after
    · exact hnone
    · rw [← List.cons_append, ← List.append_assoc, ← List.append_assoc, ← List.append_assoc] at heq
      obtain ⟨-, hlast⟩ := List.append_inj' heq rfl
      cases hlast
      exact absurd (hafter '(' (by simp)) (by decide)
  subst hnone
  rw [← List.append_assoc, ← List.append_assoc] at heq
  obtain ⟨heq, -⟩ := List.append_inj' heq rfl
  obtain rfl | ⟨before, c, rfl⟩ := List.eq_nil_or_concat' before
  · rw [List.append_nil] at heq
    have hlast := congrArg List.getLast? heq
    cases search <;> cases other <;> cases hsearch <;> cases hother
    · exact ⟨rfl, (List.append_inj' heq rfl).1⟩
    · simp at hlast
    · simp at hlast
    · exact ⟨rfl, (List.append_inj' heq rfl).1⟩
  · have hc := hbefore c (by simp)
    have hlast := congrArg List.getLast? heq
    cases search <;> cases hsearch <;> simp at hlast <;> subst hlast <;> cases hc

/-- A call is found at its own function and nowhere else in front of its argument. -/
theorem refuses_call {other : Search} {function word : String} {lead : List Char}
    (hquote : isQuote quote = true) (hlead : ∀ c ∈ lead, isQuote c = false)
    (hsearch : search.words = [function]) (hother : other.words = [word]) :
    Refuses other.form lead (function.toList ++ '(' :: quote :: more) ∧
      (search ≠ other →
        Refuses other.form (lead ++ function.toList ++ ['(']) (quote :: more)) := by
  have hform : other.form = callForm word := by
    cases other <;> cases hother <;> rfl
  have hfunction : ∀ c ∈ function.toList ++ ['('], isQuote c = false := by
    cases search <;> cases hsearch <;> decide
  have hword := (apart_of_isQuote hquote).2.2.2 other word (by simp [hother])
  constructor
  · intro place hne hplace
    by_contra hread
    obtain ⟨found, hfound⟩ := Option.ne_none_iff_exists'.mp hread
    have htext : place ++ (function.toList ++ '(' :: quote :: more) =
        place ++ function.toList ++ ['('] ++ quote :: more := by simp
    have hpart : ∀ c ∈ place ++ function.toList ++ ['('], isQuote c = false := by
      rw [List.append_assoc, List.forall_mem_append]
      exact ⟨fun c hc => hlead c (hplace.subset hc), hfunction⟩
    rw [hform, htext] at hfound
    obtain ⟨before, after, hbefore, hafter, heq⟩ := exists_of_callForm hword hquote hpart hfound
    rw [← List.nil_append (word.toList ++ _)] at heq
    exact hne (eq_of_call hsearch hother hbefore hafter heq).2
  · intro hdiffer place hne hplace
    by_contra hread
    obtain ⟨found, hfound⟩ := Option.ne_none_iff_exists'.mp hread
    have hpart : ∀ c ∈ place, isQuote c = false := by
      intro c hc
      have hmem := hplace.subset hc
      rw [List.append_assoc, List.mem_append] at hmem
      exact hmem.elim (hlead c) (hfunction c)
    rw [hform] at hfound
    obtain ⟨before, after, hbefore, hafter, rfl⟩ := exists_of_callForm hword hquote hpart hfound
    obtain ⟨left, hleft⟩ := hplace
    exact hdiffer (eq_of_call hsearch hother hbefore hafter hleft.symm).1

/-- No call is found in front of the specifier of an import or re-export. -/
theorem refuses_clause {lead : List Char} (hquote : isQuote quote = true)
    (hlead : ∀ c ∈ lead, isQuote c = false) (hsearch : search ≠ .declared)
    (hend : '(' ∉ lead ∨ ∃ front, lead = front ++ " from ".toList) :
    Refuses search.form lead (quote :: more) := by
  intro place hne hplace
  by_contra hread
  obtain ⟨function, hwords, hform⟩ := Search.eq_callForm hsearch
  obtain ⟨found, hfound⟩ := Option.ne_none_iff_exists'.mp hread
  rw [hform] at hfound
  obtain ⟨before, after, -, hafter, rfl⟩ := exists_of_callForm
    ((apart_of_isQuote hquote).2.2.2 search function (by simp [hwords])) hquote
    (fun c hc => hlead c (hplace.subset hc)) hfound
  obtain hnone | ⟨front, rfl⟩ := hend
  · exact hnone (hplace.subset (by simp))
  · -- behind the parenthesis there are blanks alone, but the text ends with a letter and a blank
    obtain ⟨left, hleft⟩ := hplace
    rw [show " from ".toList = " fro".toList ++ ['m'] ++ [' '] from rfl, ← List.append_assoc,
      ← List.append_assoc] at hleft
    have hletter : 'm' ∈ after := by
      rw [← List.append_assoc, ← List.append_assoc] at hleft
      obtain rfl | ⟨inside, c, rfl⟩ := List.eq_nil_or_concat' after
      · exact absurd (List.append_inj' hleft rfl).2 (by decide)
      · rw [← List.cons_append, ← List.append_assoc] at hleft
        obtain ⟨hleft, -⟩ := List.append_inj' hleft rfl
        obtain rfl | ⟨inside, d, rfl⟩ := List.eq_nil_or_concat' inside
        · exact absurd (List.append_inj' hleft rfl).2 (by decide)
        · rw [← List.cons_append, ← List.append_assoc] at hleft
          have hlast := (List.append_inj' hleft rfl).2
          cases hlast
          simp
    exact absurd (hafter 'm' hletter) (by decide)

end Refused

/-! ### Sequences of statements -/

namespace Statement

variable (s : Statement) {search : Search} {before rest : List Char}

/-- Characters that may stand in front of a specifier. -/
def IsPlain (c : Char) : Prop := isQuote c = false ∧ c ≠ ';'

instance : DecidablePred IsPlain := fun _ => inferInstanceAs (Decidable (_ ∧ _))

/-- The characters in front of a specifier are plain. -/
theorem isPlain_of_mem_inner : ∀ c ∈ s.form.inner, IsPlain c := fun c hc =>
  ⟨s.isQuote_of_mem_inner c hc, s.ne_semicolon_of_mem_inner c hc⟩

/-- An import or re-export is a word with a clause behind it. -/
theorem lead_of_declared (hsearch : s.form.search = .declared) :
    s.form.close = [';'] ∧ ∃ word ∈ Search.declared.words, ∃ clause,
      s.form.lead = word.toList ++ clause ∧ isClause clause = true ∧ (∀ c ∈ clause, IsPlain c) ∧
      ('(' ∉ s.form.lead ∨ ∃ front, s.form.lead = front ++ " from ".toList) := by
  have hinner := s.isPlain_of_mem_inner
  have hclause {names : List Char} (hnames : ∀ c ∈ names, IsPlain c) :
      ∀ c ∈ ' ' :: (names ++ " from ".toList), IsPlain c :=
    List.forall_mem_cons.mpr ⟨by decide, List.forall_mem_append.mpr ⟨hnames, by decide⟩⟩
  cases hform : s.form with
  | plain => exact ⟨rfl, "import", by decide, [' '], rfl, by decide, by decide, .inl (by decide)⟩
  | named names =>
    rw [hform] at hinner
    exact ⟨rfl, "import", by decide, ' ' :: (names ++ " from ".toList), rfl, isClause_named names,
      hclause hinner, .inr ⟨_, rfl⟩⟩
  | reexport names =>
    rw [hform] at hinner
    exact ⟨rfl, "export", by decide, ' ' :: (names ++ " from ".toList), rfl, isClause_named names,
      hclause hinner, .inr ⟨_, rfl⟩⟩
  | awaited name | required name =>
    rw [hform] at hsearch
    cases hsearch

/-- A constant is given the result of a call. -/
theorem lead_of_call (hsearch : s.form.search ≠ .declared) :
    s.form.close = [')', ';'] ∧ ∃ function front, s.form.search.words = [function] ∧
      s.form.lead = front ++ function.toList ++ ['('] ∧
      ∀ c ∈ front ++ function.toList, IsPlain c := by
  have hinner := s.isPlain_of_mem_inner
  cases hform : s.form with
  | plain | named names | reexport names =>
    rw [hform] at hsearch
    exact absurd rfl hsearch
  | awaited name =>
    rw [hform] at hinner
    refine ⟨rfl, "import", "const ".toList ++ name ++ " = await ".toList, rfl, ?_, ?_⟩
    · rw [List.append_assoc, List.append_assoc]
      rfl
    · simp only [List.forall_mem_append]
      exact ⟨⟨⟨by decide, hinner⟩, by decide⟩, by decide⟩
  | required name =>
    rw [hform] at hinner
    refine ⟨rfl, "require", "const ".toList ++ name ++ " = ".toList, rfl, ?_, ?_⟩
    · rw [List.append_assoc, List.append_assoc]
      rfl
    · simp only [List.forall_mem_append]
      exact ⟨⟨⟨by decide, hinner⟩, by decide⟩, by decide⟩

/-- Nothing is found in the specifier and its quotes. -/
theorem refuses_quoted (search : Search) (rest : List Char) :
    Refuses search.form s.quoted rest := by
  have hmark (rest : List Char) : Refuses search.form [s.quote] rest := by
    refine refuses_of_first fun c hc => form_cons_eq_none search ?_
    have hquote := s.isQuote_quote
    simp only [isQuote, Bool.or_eq_true, beq_iff_eq] at hquote
    rw [List.mem_singleton.mp hc]
    obtain h | h := hquote <;> rw [h] <;> decide
  exact (hmark _).append ((refuses_specifier s.isQuote_quote fun c hc =>
    ⟨s.isQuote_of_mem_specifier c hc, s.isBlank_of_mem_specifier c hc,
      (s.ne_parenthesis_of_mem_specifier c hc).1⟩).append (hmark rest))

/-- Nor is anything found behind them. -/
theorem refuses_behind {close : List Char} (hclose : ∀ c ∈ close, c ∉ ['i', 'e', 'r'])
    (search : Search) (rest : List Char) : Refuses search.form (close ++ s.behind) rest := by
  refine refuses_of_first fun c hc => form_cons_eq_none search ?_
  obtain hc | hc := List.mem_append.mp hc
  · exact hclose c hc
  · have hblank := s.isBlank_of_mem_behind c hc
    simp only [List.mem_cons, List.not_mem_nil, or_false]
    rintro (rfl | rfl | rfl) <;> cases hblank

/-- In front of the specifier, nothing is found by a search for other statements. -/
theorem refuses_lead (hsearch : s.form.search ≠ search) (more : List Char) :
    Refuses search.form s.form.lead (s.quote :: more) := by
  by_cases hdeclared : s.form.search = .declared
  · obtain ⟨-, word, hword, clause, hlead, -, hclause, hend⟩ := s.lead_of_declared hdeclared
    have hwords : ∀ word ∈ Search.declared.words, ∀ c ∈ word.toList, isQuote c = false := by decide
    have hquotes : ∀ c ∈ s.form.lead, isQuote c = false := by
      rw [hlead, List.forall_mem_append]
      exact ⟨hwords word hword, fun c hc => (hclause c hc).1⟩
    exact refuses_clause s.isQuote_quote hquotes (hdeclared ▸ Ne.symm hsearch) hend
  · obtain ⟨-, function, front, hwords, hlead, hplain⟩ := s.lead_of_call hdeclared
    rw [hlead]
    by_cases hother : search = .declared
    · rw [hother]
      exact refuses_declared s.isQuote_quote hplain
    · obtain ⟨word, hword, -⟩ := Search.eq_callForm hother
      exact (refuses_call s.isQuote_quote (fun c hc => (hplain c (List.mem_append_left _ hc)).1)
        hwords hword).2 hsearch

/-- The specifier of an import or re-export is found by the search for them. -/
theorem values_of_declared (hdeclared : s.form.search = .declared) (before rest : List Char) :
    (occurrencesFrom Search.declared.form before 0 (s.text ++ rest)).map (·.value) =
      s.specifier ::
        (occurrencesFrom Search.declared.form (s.text.reverse ++ before) 0 rest).map (·.value) := by
  obtain ⟨hclose, word, hword, clause, hlead, hclause, hplain, -⟩ := s.lead_of_declared hdeclared
  have htext : s.text = [] ++ (s.form.lead ++ s.quoted ++ (s.form.close ++ s.behind)) := by
    rw [text, List.nil_append, List.append_assoc]
  rw [htext]
  refine values_of_read (by simp [quoted]) (refuses_of_first (List.forall_mem_nil _)) ?_
    (s.refuses_behind (by rw [hclose]; decide) _ _)
  rw [hlead, List.append_assoc, List.append_assoc, quoted, List.cons_append, Search.form,
    staticForm_apply hword hplain (.inl s.isQuote_quote), if_pos hclause, List.append_assoc,
    List.singleton_append]
  exact quoted_apply s.isQuote_quote s.isQuote_quote s.specifier_ne_nil
    s.isQuote_of_mem_specifier _

/-- The specifier of a call is found by the search for calls of its function. -/
theorem values_of_call (hdeclared : s.form.search ≠ .declared) (before rest : List Char) :
    (occurrencesFrom s.form.search.form before 0 (s.text ++ rest)).map (·.value) =
      s.specifier ::
        (occurrencesFrom s.form.search.form (s.text.reverse ++ before) 0 rest).map (·.value) := by
  obtain ⟨hclose, function, front, hwords, hlead, hplain⟩ := s.lead_of_call hdeclared
  have hform : s.form.search.form = callForm function := by
    cases hform : s.form.search <;> rw [hform] at hwords <;> cases hwords <;> rfl
  have htext : s.text = front ++
      (function.toList ++ '(' :: (s.quoted ++ [')']) ++ ([';'] ++ s.behind)) := by
    rw [text, hlead, hclose]
    simp
  rw [htext]
  refine values_of_read (by simp) ?_ ?_ (s.refuses_behind (by decide) _ _)
  · have hfront : Refuses s.form.search.form front (function.toList ++
        '(' :: s.quote :: (s.specifier ++ s.quote :: ')' :: ([';'] ++ s.behind ++ rest))) :=
      (refuses_call s.isQuote_quote
        (fun c hc => (hplain c (List.mem_append_left _ hc)).1) hwords hwords).1
    simpa [quoted] using hfront
  · have hread := callForm_apply function s.isQuote_quote s.specifier_ne_nil
      s.isQuote_of_mem_specifier ([';'] ++ s.behind ++ rest)
    rw [hform]
    simpa [quoted] using hread

/-- A search for other statements finds nothing in a statement. -/
theorem refuses_text (hsearch : s.form.search ≠ search) (rest : List Char) :
    Refuses search.form s.text rest := by
  have hclose : ∀ c ∈ s.form.close, c ∉ ['i', 'e', 'r'] := by
    cases s.form <;> simp [StatementForm.close]
  exact (s.refuses_lead hsearch _).append
    ((s.refuses_quoted search _).append (s.refuses_behind hclose search rest))

/-- A search finds the specifier of a statement that it is for, and nothing in the text of any other
one. -/
theorem values_text (search : Search) (before rest : List Char) :
    (occurrencesFrom search.form before 0 (s.text ++ rest)).map (·.value) =
      (if s.form.search = search then [s.specifier] else []) ++
        (occurrencesFrom search.form (s.text.reverse ++ before) 0 rest).map (·.value) := by
  by_cases hsearch : s.form.search = search
  · subst hsearch
    rw [if_pos rfl, List.singleton_append]
    by_cases hdeclared : s.form.search = .declared
    · rw [hdeclared]
      exact s.values_of_declared hdeclared before rest
    · exact s.values_of_call hdeclared before rest
  · rw [occurrencesFrom_of_refused (s.refuses_text hsearch rest), if_neg hsearch, List.nil_append]

end Statement

/-- A search finds the specifiers of the statements that it is for, in order. -/
theorem found_moduleText (search : Search) (statements : List Statement) :
    found search.form (moduleText statements).toList = specifiersOf search statements := by
  have hvalues (before : List Char) :
      (occurrencesFrom search.form before 0 (statements.flatMap Statement.text)).map (·.value) =
        (statements.filter (·.form.search = search)).map (·.specifier) := by
    induction statements generalizing before with
    | nil => rfl
    | cons s statements ih =>
      rw [List.flatMap_cons, s.values_text, ih, List.filter_cons]
      by_cases hsearch : s.form.search = search <;> simp [hsearch]
  have hvalues := congrArg (List.map String.ofList) (hvalues [])
  rw [List.map_map, List.map_map] at hvalues
  rw [moduleText, String.toList_ofList]
  exact hvalues

/-- In a module that consists of import statements, the specifiers found are those of the
statements, each once: first those of the imports and re-exports, then those of `import` calls, then
those of `require` calls, each in the order of the text. -/
theorem specifiers_moduleText (statements : List Statement) :
    specifiers (moduleText statements) = specifiersOf .declared statements ++
      specifiersOf .awaited statements ++ specifiersOf .required statements := by
  rw [← found_moduleText, ← found_moduleText, ← found_moduleText]
  rfl

/-- A re-export of names on several lines, and a call on the next one. -/
example :
    moduleText [
      ⟨.reexport "\x7b\n  a,\n\x7d".toList, '\'', "./a".toList, ['\n'], by decide, by decide,
        by decide, by decide, by decide, by decide, by decide, by decide⟩,
      ⟨.required "import1".toList, '"', "b;c".toList, ['\n'], by decide, by decide,
        by decide, by decide, by decide, by decide, by decide, by decide⟩] =
      "export \x7b\n  a,\n\x7d from './a';\nconst import1 = require(\"b;c\");\n" := by
  decide

end Import

end ChangeImpact
