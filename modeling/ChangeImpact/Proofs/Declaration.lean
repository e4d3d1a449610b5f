import ChangeImpact.Export.Extract
import ChangeImpact.Proofs.Marks
import ChangeImpact.Proofs.Words

/-!
# Declarations as they are written

An exported declaration is written as `export`, some words, a name and what follows the name, up to
a closing brace or a semicolon. Where the form has a space there may be any blanks. The parts that
are free text open no comment and hold no further `export`, so that the only `export` of a
declaration is the one at its start.
-/

namespace ChangeImpact.Export

open Text

/-- Blanks between two parts of a declaration. -/
structure Gap where
  chars : List Char
  chars_ne_nil : chars ≠ []
  isBlank_of_mem : ∀ c ∈ chars, isBlank c = true

/-- What starts an export or a comment. -/
def marks : List (List Char) := ["export".toList, "//".toList, "/*".toList]

/-- A text that starts no export and no comment. -/
def Free (text : List Char) : Prop := ∀ mark ∈ marks, Without mark text

instance (text : List Char) : Decidable (Free text) :=
  inferInstanceAs (Decidable (∀ mark ∈ marks, Without mark text))

/-- Characters between the parts of a declaration. -/
def isSeparator (c : Char) : Bool :=
  isBlank c || c == '(' || c == ')' || c == '\x7b' || c == '\x7d' || c == ':' || c == '=' ||
    c == ';'

/-- A part of a declaration in which some characters do not occur. -/
structure Part (excluded : List Char) where
  chars : List Char
  free : Free chars
  not_mem : ∀ c ∈ excluded, c ∉ chars

/-- A part without two characters is made of others. -/
theorem Part.bne_of_mem {first second : Char} (part : Part [first, second]) :
    ∀ c ∈ part.chars, (c != first && c != second) = true := by
  intro c hc
  simp only [Bool.and_eq_true, bne_iff_ne]
  constructor
  · rintro rfl
    exact part.not_mem c (by simp) hc
  · rintro rfl
    exact part.not_mem c (by simp) hc

/-- A blank is none of two characters that are not blank. -/
theorem bne_of_isBlank {first second c : Char} (hfirst : isBlank first = false)
    (hsecond : isBlank second = false) (hc : isBlank c = true) :
    (c != first && c != second) = true := by
  simp only [Bool.and_eq_true, bne_iff_ne]
  constructor
  · rintro rfl
    exact absurd hc (by simp [hfirst])
  · rintro rfl
    exact absurd hc (by simp [hsecond])

/-- The name in a declaration. -/
structure Name where
  chars : List Char
  chars_ne_nil : chars ≠ []
  isWord_of_mem : ∀ c ∈ chars, isWord c = true
  without_export : Without "export".toList chars

/-- The words that declare a constant or a variable. -/
inductive BindingWord
  | constWord
  | letWord
  | varWord
  deriving DecidableEq, Repr

/-- The word as it is written. -/
def BindingWord.text : BindingWord → String
  | constWord => "const"
  | letWord => "let"
  | varWord => "var"

/-- The kind of symbol that the word declares. -/
def BindingWord.kind : BindingWord → SymbolKind
  | constWord => .const
  | letWord | varWord => .variable

/-- The words that stand between `export` and a name. -/
def keywords : List String :=
  ["default", "async", "function", "abstract", "class", "const", "let", "var", "interface", "type",
    "enum"]

/-- Exported declarations. -/
inductive Declaration
  | function (isDefault isAsync : Bool) (name : Name) (params : Part [])
    (returns : Option (Part ['\x7b', ';'])) (body : Part [])
  | classType (isDefault isAbstract : Bool) (name : Name) (body : Part [])
  | binding (word : BindingWord) (name : Name) (type : Option (Part ['=', ';'])) (value : Part [])
  | interface (name : Name) (body : Part [])
  | typeAlias (name : Name) (value : Part [])
  | enum (name : Name) (body : Part [])
  | defaultName (name : Name) (hname : String.ofList name.chars ∉ declarationWords)

/-- The blanks in a declaration. -/
structure Layout where
  /-- Behind a word. -/
  word : String → Gap
  /-- Behind a colon. -/
  colon : Gap
  /-- Between the head of a declaration and its body or value. -/
  head : Gap
  /-- Behind an equals sign. -/
  equals : Gap

/-- One space. -/
def Gap.space : Gap := ⟨[' '], List.cons_ne_nil _ _, by decide⟩

/-- One space at every place. -/
def Layout.spaces : Layout := ⟨fun _ => .space, .space, .space, .space⟩

namespace Declaration

/-- The declared name. -/
def name : Declaration → Name
  | function _ _ name _ _ _ | classType _ _ name _ | binding _ name _ _ | interface name _
  | typeAlias name _ | enum name _ | defaultName name _ => name

/-- Whether the declaration is the default export. -/
def isDefault : Declaration → Bool
  | function isDefault _ _ _ _ _ | classType isDefault _ _ _ => isDefault
  | binding _ _ _ _ | interface _ _ | typeAlias _ _ | enum _ _ => false
  | defaultName _ _ => true

/-- The words between `export` and the name. -/
def words : Declaration → List String
  | function isDefault isAsync _ _ _ _ =>
    (if isDefault then ["default"] else []) ++ (if isAsync then ["async"] else []) ++ ["function"]
  | classType isDefault isAbstract _ _ =>
    (if isDefault then ["default"] else []) ++ (if isAbstract then ["abstract"] else []) ++
      ["class"]
  | binding word _ _ _ => [word.text]
  | interface _ _ => ["interface"]
  | typeAlias _ _ => ["type"]
  | enum _ _ => ["enum"]
  | defaultName _ _ => ["default"]

/-- The number of the pass that finds a declaration. -/
def passNumber : Declaration → ℕ
  | function isDefault _ _ _ _ _ => if isDefault then 0 else 2
  | classType isDefault _ _ _ => if isDefault then 3 else 4
  | binding _ _ _ _ => 5
  | interface _ _ => 6
  | typeAlias _ _ => 7
  | enum _ _ => 8
  | defaultName _ _ => 10

/-- The declared signature of a function. -/
def declaredSignature (params : Part []) (returns : Option (Part ['\x7b', ';'])) : List Char :=
  '(' :: (params.chars ++ ')' :: (returns.map fun type => ": ".toList ++ type.chars).getD [])

/-- The symbol that a declaration exports. -/
def symbol : Declaration → ExportedSymbol
  | function isDefault _ name params returns _ =>
    Export.symbol name.chars .function (some (declaredSignature params returns)) isDefault
  | classType isDefault _ name _ => Export.symbol name.chars .classType none isDefault
  | binding word name type _ => Export.symbol name.chars word.kind (type.map Part.chars) false
  | interface name _ => Export.symbol name.chars .interface none false
  | typeAlias name _ => Export.symbol name.chars .type none false
  | enum name _ => Export.symbol name.chars .enum none false
  | defaultName name _ => Export.symbol name.chars .variable none true

/-- What closes the declaration. -/
def close : Declaration → Char
  | function _ _ _ _ _ _ | classType _ _ _ _ | interface _ _ | enum _ _ => '\x7d'
  | binding _ _ _ _ | typeAlias _ _ | defaultName _ _ => ';'

/-- A type behind a colon, if there is one. -/
def colonType (layout : Layout) {excluded : List Char} : Option (Part excluded) → List Char
  | none => []
  | some type => ':' :: (layout.colon.chars ++ type.chars)

/-- What stands between the parameters of a function and its body. -/
def behindParams (layout : Layout) (returns : Option (Part ['\x7b', ';'])) : List Char :=
  colonType layout returns ++ layout.head.chars

/-- What stands between the name of a declaration and its closing character. -/
def behindName (layout : Layout) : Declaration → List Char
  | function _ _ _ params returns body =>
    '(' :: (params.chars ++ ')' :: (behindParams layout returns ++ '\x7b' :: body.chars))
  | classType _ _ _ body | interface _ body | enum _ body =>
    layout.head.chars ++ '\x7b' :: body.chars
  | binding _ _ type value =>
    colonType layout type ++
      (layout.head.chars ++ '=' :: (layout.equals.chars ++ value.chars))
  | typeAlias _ value => layout.head.chars ++ '=' :: (layout.equals.chars ++ value.chars)
  | defaultName _ _ => []

/-- A word and the blanks behind it. -/
def spacedWord (layout : Layout) (word : String) : List Char :=
  word.toList ++ (layout.word word).chars

/-- What stands behind the words. -/
def named (layout : Layout) (d : Declaration) : List Char :=
  d.name.chars ++ (d.behindName layout ++ [d.close])

/-- The declaration as it is written. -/
def text (layout : Layout) (d : Declaration) : List Char :=
  spacedWord layout "export" ++ (d.words.flatMap (spacedWord layout) ++ d.named layout)

end Declaration

section Free

variable {left right : List Char} {c : Char}

/-- No mark holds a separator. -/
theorem not_mem_of_isSeparator (hc : isSeparator c = true) : ∀ mark ∈ marks, c ∉ mark := by
  have hmarks : ∀ mark ∈ marks, ∀ d ∈ mark, isSeparator d = false := by decide
  intro mark hmark hmem
  rw [hmarks mark hmark c hmem] at hc
  cases hc

/-- The empty text is free of marks. -/
@[simp] theorem free_nil : Free [] := by decide

/-- A separator parts what has to be free. -/
theorem free_append_cons (hc : isSeparator c = true) :
    Free (left ++ c :: right) ↔ Free left ∧ Free right := by
  have hsplit (mark : List Char) (hmark : mark ∈ marks) :
      Without mark (left ++ c :: right) ↔ Without mark left ∧ Without mark right :=
    without_append_cons (not_mem_of_isSeparator hc mark hmark)
  constructor
  · exact fun h => ⟨fun mark hmark => ((hsplit mark hmark).mp (h mark hmark)).1,
      fun mark hmark => ((hsplit mark hmark).mp (h mark hmark)).2⟩
  · exact fun h mark hmark => (hsplit mark hmark).mpr ⟨h.1 mark hmark, h.2 mark hmark⟩

/-- A separator at the start is free. -/
theorem free_cons (hc : isSeparator c = true) : Free (c :: right) ↔ Free right := by
  rw [← List.nil_append (c :: right), free_append_cons hc]
  simp

/-- Blanks at the start hold no mark. -/
theorem without_append_of_blank {mark blanks : List Char} (hmark : mark ∈ marks)
    (hblanks : ∀ c ∈ blanks, isBlank c = true) :
    Without mark (blanks ++ right) ↔ Without mark right := by
  induction blanks with
  | nil => rfl
  | cons c blanks ih =>
    rw [List.forall_mem_cons] at hblanks
    have hc : c ∉ mark := not_mem_of_isSeparator (by simp [isSeparator, hblanks.1]) mark hmark
    rw [List.cons_append, ← List.nil_append (c :: (blanks ++ right)), without_append_cons hc,
      ih hblanks.2]
    exact and_iff_right (free_nil mark hmark)

/-- Blanks at the start are free. -/
theorem free_append_of_blank {blanks : List Char} (hblanks : ∀ c ∈ blanks, isBlank c = true) :
    Free (blanks ++ right) ↔ Free right :=
  forall₂_congr fun _ hmark => without_append_of_blank hmark hblanks

/-- A gap parts what has to be free. -/
theorem free_append_gap (gap : Gap) :
    Free (left ++ (gap.chars ++ right)) ↔ Free left ∧ Free right := by
  obtain ⟨c, blanks, hgap⟩ := List.exists_cons_of_ne_nil gap.chars_ne_nil
  have hblank := gap.isBlank_of_mem
  rw [hgap, List.forall_mem_cons] at hblank
  rw [hgap, List.cons_append, free_append_cons (by simp [isSeparator, hblank.1]),
    free_append_of_blank hblank.2]

/-- Names start no comment. -/
theorem Name.free (name : Name) : Free name.chars := by
  have hslash : '/' ∉ name.chars := fun h => absurd (name.isWord_of_mem _ h) (by decide +kernel)
  have hcomment {mark : List Char} (hmark : '/' ∈ mark) : Without mark name.chars :=
    fun h => hslash (h.subset hmark)
  simp only [Free, marks, List.forall_mem_cons, List.not_mem_nil]
  exact ⟨name.without_export, hcomment (by decide), hcomment (by decide), nofun⟩

end Free

namespace Declaration

variable (layout : Layout) (d : Declaration)

/-- A type behind a colon is free. -/
theorem free_colonType {excluded : List Char} (type : Option (Part excluded)) :
    Free (colonType layout type) := by
  cases type with
  | none => exact free_nil
  | some type =>
    have hcolon : isSeparator ':' = true := by decide
    rw [colonType, free_cons hcolon, free_append_of_blank layout.colon.isBlank_of_mem]
    exact type.free

/-- What follows the name of a declaration is free. -/
theorem free_behindName : Free (d.behindName layout) := by
  have hbody (body : Part []) : Free (layout.head.chars ++ '\x7b' :: body.chars) := by
    rw [free_append_of_blank layout.head.isBlank_of_mem, free_cons (by decide)]
    exact body.free
  have hvalue (value : Part []) :
      Free (layout.head.chars ++ '=' :: (layout.equals.chars ++ value.chars)) := by
    rw [free_append_of_blank layout.head.isBlank_of_mem, free_cons (by decide),
      free_append_of_blank layout.equals.isBlank_of_mem]
    exact value.free
  cases d with
  | function isDefault isAsync name params returns body =>
    rw [behindName, behindParams, free_cons (by decide), free_append_cons (by decide),
      List.append_assoc, free_append_gap, free_cons (by decide)]
    exact ⟨params.free, free_colonType layout returns, body.free⟩
  | binding word name type value =>
    rw [behindName, free_append_gap, free_cons (by decide),
      free_append_of_blank layout.equals.isBlank_of_mem]
    exact ⟨free_colonType layout type, value.free⟩
  | classType isDefault isAbstract name body => exact hbody body
  | interface name body => exact hbody body
  | enum name body => exact hbody body
  | typeAlias name value => exact hvalue value
  | defaultName name hname => exact free_nil

/-- Behind the name stands a separator. -/
theorem behindName_append_close :
    ∃ c rest, d.behindName layout ++ [d.close] = c :: rest ∧ isSeparator c = true := by
  have hhead (rest : List Char) :
      ∃ c rest', layout.head.chars ++ rest = c :: rest' ∧ isSeparator c = true := by
    obtain ⟨c, blanks, hgap⟩ := List.exists_cons_of_ne_nil layout.head.chars_ne_nil
    have hblank := layout.head.isBlank_of_mem c (by simp [hgap])
    exact ⟨c, blanks ++ rest, by rw [hgap]; rfl, by simp [isSeparator, hblank]⟩
  cases d with
  | function isDefault isAsync name params returns body => exact ⟨'(', _, rfl, by decide⟩
  | binding word name type value =>
    cases type with
    | none =>
      rw [behindName, colonType, List.nil_append, List.append_assoc]
      exact hhead _
    | some type => exact ⟨':', _, rfl, by decide⟩
  | classType isDefault isAbstract name body =>
    rw [behindName, List.append_assoc]
    exact hhead _
  | interface name body =>
    rw [behindName, List.append_assoc]
    exact hhead _
  | enum name body =>
    rw [behindName, List.append_assoc]
    exact hhead _
  | typeAlias name value =>
    rw [behindName, List.append_assoc]
    exact hhead _
  | defaultName name hname => exact ⟨';', [], rfl, by decide⟩

/-- A declaration ends with a closing brace or a semicolon. -/
theorem close_eq : d.close = '\x7d' ∨ d.close = ';' := by
  cases d <;> simp [close]

/-- What closes a declaration is a separator. -/
theorem isSeparator_close : isSeparator d.close = true := by
  obtain hclose | hclose := d.close_eq
  · rw [hclose]
    decide
  · rw [hclose]
    decide

/-- The name and what follows it are free. -/
theorem free_named : Free (d.named layout) := by
  obtain ⟨c, rest, hbehind, hc⟩ := d.behindName_append_close layout
  have hfree : Free (d.behindName layout ++ [d.close]) := by
    rw [free_append_cons d.isSeparator_close]
    exact ⟨d.free_behindName layout, free_nil⟩
  rw [hbehind, free_cons hc] at hfree
  rw [named, hbehind, free_append_cons hc]
  exact ⟨d.name.free, hfree⟩

/-- The words of a declaration are among the known ones. -/
theorem words_subset : d.words ⊆ keywords := by
  cases d with
  | function isDefault isAsync =>
    rw [words]
    cases isDefault <;> cases isAsync <;> decide
  | classType isDefault isAbstract =>
    rw [words]
    cases isDefault <;> cases isAbstract <;> decide
  | binding word =>
    rw [words]
    cases word <;> decide
  | interface | typeAlias | enum | defaultName =>
    rw [words]
    decide

/-- A declaration is free behind its first character. -/
theorem exists_text_eq : ∃ front, d.text layout = 'e' :: (front ++ [d.close]) ∧ Free front := by
  have hwords (words : List String) (hfree : ∀ word ∈ words, Free word.toList) :
      Free (words.flatMap (spacedWord layout) ++ d.named layout) := by
    induction words with
    | nil => exact d.free_named layout
    | cons word words ih =>
      rw [List.forall_mem_cons] at hfree
      rw [List.flatMap_cons, spacedWord, List.append_assoc, List.append_assoc, free_append_gap]
      exact ⟨hfree.1, ih hfree.2⟩
  have hkeywords : ∀ word ∈ keywords, Free word.toList := by decide
  have hfree : Free ("xport".toList ++ ((layout.word "export").chars ++
      (d.words.flatMap (spacedWord layout) ++ d.named layout))) := by
    rw [free_append_gap]
    exact ⟨by decide, hwords d.words fun word hword => hkeywords word (d.words_subset hword)⟩
  refine ⟨"xport".toList ++ ((layout.word "export").chars ++
    (d.words.flatMap (spacedWord layout) ++ (d.name.chars ++ d.behindName layout))), ?_, ?_⟩
  · simp only [text, spacedWord, named, List.append_assoc]
    rfl
  · rw [named, ← List.append_assoc, ← List.append_assoc, ← List.append_assoc,
      ← List.append_assoc, free_append_cons d.isSeparator_close] at hfree
    simpa only [List.append_assoc] using hfree.1

end Declaration

end ChangeImpact.Export
