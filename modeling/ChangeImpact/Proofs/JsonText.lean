import ChangeImpact.Json.Printer
import ChangeImpact.Json.Reader
import ChangeImpact.Proofs.PrintedOutput
import ChangeImpact.Proofs.Scanning

/-!
# Written JSON is read back

Every style of writing escapes what may not stand in quotes, and the reader undoes all escapes, a
pair of surrogates included. A value that is written with indentation is therefore read back from
the start of any text that does not go on with more of a number. Numbers that are no integers are
left out.
-/

namespace ChangeImpact.Json

open Text

variable {start : ℕ} {collected rest tail : List Char} {limit : Option ℕ} {style : Style}

/-! ### Texts in quotes -/

/-- A hexadecimal digit has its value. -/
theorem hexValue?_digitChar : ∀ d < 16, hexValue? (Nat.digitChar d) = some d := by decide

/-- Hexadecimal digits with zeros in front, up to a width. -/
def hexDigits (width n : ℕ) : List Char :=
  List.replicate (width - (Nat.toDigits 16 n).length) '0' ++ Nat.toDigits 16 n

/-- The last digit is written behind the others. -/
theorem hexDigits_succ {width : ℕ} (hwidth : 0 < width) (n : ℕ) :
    hexDigits (width + 1) n = hexDigits width (n / 16) ++ [Nat.digitChar (n % 16)] := by
  by_cases hsmall : n < 16
  · obtain ⟨width, rfl⟩ := Nat.exists_eq_succ_of_ne_zero hwidth.ne'
    rw [hexDigits, hexDigits, Nat.div_eq_of_lt hsmall, Nat.mod_eq_of_lt hsmall,
      Nat.toDigits_of_lt_base hsmall, Nat.toDigits_of_lt_base (by decide)]
    exact congrArg (· ++ [Nat.digitChar n]) List.replicate_succ'
  · rw [hexDigits, hexDigits, Nat.toDigits_of_base_le (by decide) (by omega), List.length_append,
      List.length_singleton, Nat.add_sub_add_right, List.append_assoc]

/-- A code unit is written with four hexadecimal digits. -/
theorem unitEscape_eq {n : ℕ} (hn : n < 0x10000) :
    unitEscape n = ['\\', 'u', Nat.digitChar (n / 16 / 16 / 16),
      Nat.digitChar (n / 16 / 16 % 16), Nat.digitChar (n / 16 % 16), Nat.digitChar (n % 16)] := by
  have hfirst : hexDigits 1 (n / 16 / 16 / 16) = [Nat.digitChar (n / 16 / 16 / 16)] := by
    rw [hexDigits, Nat.toDigits_of_lt_base (by omega)]
    rfl
  have hdigits : unitEscape n = '\\' :: 'u' :: hexDigits 4 n := rfl
  rw [hdigits, hexDigits_succ (by decide), hexDigits_succ (by decide), hexDigits_succ (by decide),
    hfirst]
  rfl

/-- The four digits of a code unit are read. -/
theorem hex4?_digitChar {n : ℕ} (hn : n < 0x10000) :
    hex4? (Nat.digitChar (n / 16 / 16 / 16)) (Nat.digitChar (n / 16 / 16 % 16))
      (Nat.digitChar (n / 16 % 16)) (Nat.digitChar (n % 16)) = some n := by
  rw [hex4?, hexValue?_digitChar _ (by omega), hexValue?_digitChar _ (by omega),
    hexValue?_digitChar _ (by omega), hexValue?_digitChar _ (by omega)]
  exact congrArg some (by omega)

/-- An escaped code unit is read as its character. -/
theorem textInside_unitEscape {n : ℕ} (hn : n < 0x10000) (hunit : isHighSurrogate n = false)
    (hne : tail ≠ []) :
    textInside start collected 0 (unitEscape n ++ tail) =
      textInside start (unitChar n :: collected) 0 tail := by
  obtain ⟨c, after, rfl⟩ := List.exists_cons_of_ne_nil hne
  rw [unitEscape_eq hn]
  simp only [List.cons_append, List.nil_append, textInside, hex4?_digitChar hn, hunit]
  rfl

/-- An escaped pair of surrogates is read as the character that it stands for. -/
theorem textInside_pair {high low : ℕ} (hhigh : high < 0x10000) (hlow : low < 0x10000)
    (hhigh' : isHighSurrogate high = true) (hlow' : isLowSurrogate low = true) (hne : tail ≠ []) :
    textInside start collected 0 (unitEscape high ++ unitEscape low ++ tail) =
      textInside start
        (Char.ofNat (0x10000 + (high - 0xD800) * 0x400 + (low - 0xDC00)) :: collected) 0 tail := by
  obtain ⟨c, after, rfl⟩ := List.exists_cons_of_ne_nil hne
  rw [unitEscape_eq hhigh, unitEscape_eq hlow]
  simp only [List.cons_append, List.nil_append, textInside, hex4?_digitChar hhigh, hhigh', if_true,
    pairedUnit?, hex4?_digitChar hlow, hlow']

/-- An escaped character of the basic plane is read. -/
theorem textInside_unitEscape_char {c : Char} (hc : c.toNat < 0x10000) (hne : tail ≠ []) :
    textInside start collected 0 (unitEscape c.toNat ++ tail) =
      textInside start (c :: collected) 0 tail := by
  have hbounds := Utf8.toNat_bounds c
  have hhigh : isHighSurrogate c.toNat = false := by
    simp only [isHighSurrogate, Bool.and_eq_false_iff, decide_eq_false_iff_not]
    omega
  have hlow : isLowSurrogate c.toNat = false := by
    simp only [isLowSurrogate, Bool.and_eq_false_iff, decide_eq_false_iff_not]
    omega
  rw [textInside_unitEscape hc hhigh hne, unitChar, hhigh, hlow]
  simp

/-- A character that needs no escape is read as it is. -/
theorem textInside_plain {c : Char} (hquote : c ≠ '"') (hbackslash : c ≠ '\\')
    (hcontrol : ¬c.toNat < 0x20) :
    textInside start collected 0 (c :: tail) = textInside start (c :: collected) 0 tail := by
  rw [textInside.eq_def]
  split
  case h_5 heq =>
    obtain ⟨rfl, rfl⟩ := List.cons.inj heq
    rw [if_neg hcontrol]
  all_goals simp_all

/-- A character is read back from the form in which any style writes it. -/
theorem textInside_char (style : Style) (c : Char) (hne : tail ≠ []) :
    textInside start collected 0 (style.char c ++ tail) =
      textInside start (c :: collected) 0 tail := by
  have hbounds := Utf8.toNat_bounds c
  unfold Style.char
  split
  case h_8 hquote hbackslash _ _ _ _ _ =>
    dsimp only
    split_ifs with hcontrol hplain hunit
    · exact textInside_unitEscape_char (by omega) hne
    · exact textInside_plain hquote hbackslash hcontrol
    · exact textInside_unitEscape_char hunit hne
    · rw [textInside_pair (by omega) (by omega) (by simp [isHighSurrogate]; omega)
        (by simp [isLowSurrogate]; omega) hne]
      have hcode : 0x10000 + (0xD800 + (c.toNat - 0x10000) / 0x400 - 0xD800) * 0x400 +
          (0xDC00 + (c.toNat - 0x10000) % 0x400 - 0xDC00) = c.toNat := by omega
      rw [hcode, Char.ofNat_toNat]
  all_goals rfl

/-- A text is read back up to its closing quote. -/
theorem textInside_flatMap (style : Style) (text : List Char) :
    textInside start collected 0 (text.flatMap style.char ++ '"' :: rest) =
      .ok (String.ofList (collected.reverse ++ text), rest) := by
  induction text generalizing collected with
  | nil => simp [textInside]
  | cons c text ih =>
    rw [List.flatMap_cons, List.append_assoc, textInside_char style c (by simp), ih]
    simp

/-- A quoted text is read back behind its opening quote. -/
theorem textInside_quoted (style : Style) (s : String) (rest : List Char) :
    ∃ inside, style.quoted s ++ rest = '"' :: inside ∧
      ∀ start, textInside start [] 0 inside = .ok (s, rest) := by
  refine ⟨s.toList.flatMap style.char ++ '"' :: rest, by simp [Style.quoted], fun start => ?_⟩
  rw [textInside_flatMap]
  simp

/-! ### Integers -/

/-- Characters that go on with a number. -/
def goesOn (c : Char) : Bool := isAsciiDigit c || c == '.' || c == 'e' || c == 'E'

/-- Numbers are printed in ASCII digits. -/
theorem isAsciiDigit_of_mem_decimal {n : ℕ} {c : Char} (hc : c ∈ decimal n) :
    isAsciiDigit c = true := by
  obtain ⟨hlow, hhigh⟩ := toNat_of_mem_decimal hc
  simp only [isAsciiDigit, Bool.and_eq_true, decide_eq_true_eq, Char.le_def, UInt32.le_iff_toNat_le]
  exact ⟨hlow, Nat.le_of_lt_succ hhigh⟩

/-- Only the numeral of zero starts with a zero. -/
theorem head?_decimal {n : ℕ} (hn : 0 < n) : (decimal n).head? ≠ some '0' := by
  induction n using Nat.strongRecOn with
  | _ n ih =>
    by_cases hsmall : n < 10
    · rw [decimal, Nat.toDigits_of_lt_base hsmall]
      have hall : ∀ d < 10, 0 < d → [Nat.digitChar d].head? ≠ some '0' := by decide
      exact hall n hsmall hn
    · rw [decimal, Nat.toDigits_of_base_le (by decide) (by omega),
        List.head?_append_of_ne_nil _ Nat.toDigits_ne_nil]
      exact ih (n / 10) (by omega) (by omega)

/-- The digits of a number are its integer part. -/
theorem integerDigits_decimal (n : ℕ) (hrest : Stops isAsciiDigit rest) :
    integerDigits (decimal n ++ rest) = decimal n := by
  unfold integerDigits
  split
  case h_1 more heq =>
    by_cases hzero : n = 0
    · rw [hzero]
      rfl
    · have hhead := head?_decimal (Nat.pos_of_ne_zero hzero)
      rw [← List.head?_append_of_ne_nil _ (decimal_ne_nil n), heq] at hhead
      exact absurd rfl hhead
  case h_2 => exact takeWhile_append_of_stops (fun _ => isAsciiDigit_of_mem_decimal) hrest

/-- Without a point there is no fraction. -/
theorem fraction_of_stops (hrest : Stops goesOn rest) : fraction rest = (none, rest) := by
  unfold fraction
  split
  · exact absurd (hrest '.' rfl) (by decide)
  · rfl

/-- Without an `e` there is no exponent. -/
theorem exponent_of_stops (hrest : Stops goesOn rest) : exponent rest = (none, rest) := by
  unfold exponent
  split
  case h_1 c more =>
    have hnone := hrest c rfl
    simp only [goesOn, Bool.or_eq_false_iff, beq_eq_false_iff_ne] at hnone
    simp [hnone.1.2, hnone.2]
  case h_2 => rfl

/-- The digits of a number are read up to what does not go on with it. -/
theorem number_decimal {n : ℕ} (hlimit : ∀ most ∈ limit, (decimal n).length ≤ most)
    (hrest : Stops goesOn rest) (whole : List Char) (negative : Bool) :
    number limit whole negative (decimal n ++ rest) =
      .ok (.int (if negative then -(n : ℤ) else n), rest) := by
  have hstops : Stops isAsciiDigit rest := fun c hc => by
    have hnone := hrest c hc
    simp only [goesOn, Bool.or_eq_false_iff] at hnone
    exact hnone.1.1.1
  have hwritten : limit.any (fun most => decide (most < (decimal n).length)) = false := by
    cases limit with
    | none => rfl
    | some most => simpa using hlimit most rfl
  have hvalue : natOf (decimal n) = n := ofDigitValues_decimal n
  unfold number
  simp only [integerDigits_decimal n hstops, List.isEmpty_eq_false_iff.mpr (decimal_ne_nil n),
    List.drop_left, fraction_of_stops hrest, exponent_of_stops hrest, hwritten, hvalue]
  simp

/-- How an integer is written. -/
theorem toList_toString (n : ℤ) :
    (toString n).toList = if n < 0 then '-' :: decimal n.natAbs else decimal n.natAbs := by
  cases n with
  | ofNat m =>
    rw [if_neg (by simp)]
    exact Nat.toList_repr
  | negSucc m =>
    have htext : toString (Int.negSucc m) = "-" ++ Nat.repr (m + 1) := rfl
    rw [if_pos (Int.negSucc_lt_zero m), htext, String.toList_append, Nat.toList_repr]
    rfl

/-- A value that starts with a digit, or with a sign in front of one, is a number. -/
theorem value_digit {c : Char} (hc : isAsciiDigit c = true) (fuel : ℕ) (more : List Char) :
    value limit (fuel + 1) (c :: more) = number limit (c :: more) false (c :: more) ∧
      value limit (fuel + 1) ('-' :: c :: more) =
        number limit ('-' :: c :: more) true (c :: more) := by
  constructor
  · rw [value.eq_def]
    simp only
    split
    case h_11 => rfl
    all_goals
      rename_i heq
      obtain ⟨rfl, -⟩ := List.cons.inj heq
      exact absurd hc (by decide)
  · rw [value.eq_def]
    simp only
    split
    case h_9 heq =>
      cases heq
      exact absurd hc (by decide)
    case h_10 heq =>
      obtain ⟨-, rfl⟩ := List.cons.inj heq
      rfl
    case h_11 hsign => exact absurd rfl (hsign _)
    all_goals
      rename_i heq
      simp at heq

/-- An integer is read back. -/
theorem value_int {n : ℤ} (hlimit : ∀ most ∈ limit, (decimal n.natAbs).length ≤ most)
    (hrest : Stops goesOn rest) (fuel : ℕ) :
    value limit (fuel + 1) ((toString n).toList ++ rest) = .ok (.int n, rest) := by
  obtain ⟨c, more, hdigits⟩ := List.exists_cons_of_ne_nil (decimal_ne_nil n.natAbs)
  have hc : isAsciiDigit c = true := isAsciiDigit_of_mem_decimal (hdigits ▸ List.mem_cons_self)
  have hread := number_decimal hlimit hrest
  rw [hdigits] at hread
  rw [toList_toString, hdigits]
  split_ifs with hnegative
  · have hvalue : -(n.natAbs : ℤ) = n := by omega
    simp only [List.cons_append, (value_digit hc fuel _).2]
    rw [← List.cons_append, hread, if_pos rfl, hvalue]
  · have hvalue : (n.natAbs : ℤ) = n := by omega
    simp only [List.cons_append, (value_digit hc fuel _).1]
    rw [← List.cons_append, hread, if_neg Bool.false_ne_true, hvalue]

/-! ### Values -/

/-- A value that is read back: none of its numbers has a fraction, its integers are within the limit
of digits, and its objects have each name once. -/
inductive Readable (limit : Option ℕ) : Json → Prop
  | null : Readable limit .null
  | bool (b : Bool) : Readable limit (.bool b)
  | int (n : ℤ) (hlimit : ∀ most ∈ limit, (decimal n.natAbs).length ≤ most) :
    Readable limit (.int n)
  | string (s : String) : Readable limit (.string s)
  | list (items : List Json) (hitems : ∀ item ∈ items, Readable limit item) :
    Readable limit (.list items)
  | object (fields : List (String × Json)) (hnames : (fields.map Prod.fst).Nodup)
    (hfields : ∀ field ∈ fields, Readable limit field.2) : Readable limit (.object fields)

/-- Nothing is skipped before a character that is not blank. -/
theorem skipBlanks_cons {c : Char} (hc : isJsonBlank c = false) :
    skipBlanks (c :: rest) = c :: rest := List.dropWhile_cons_of_neg (by simp [hc])

/-- A new line and its indentation are blank. -/
theorem skipBlanks_newline (level : ℕ) {c : Char} (hc : isJsonBlank c = false) :
    skipBlanks (newline level ++ c :: rest) = c :: rest := by
  refine dropWhile_append_of_stops (fun d hd => ?_) (stops_cons.mpr hc)
  rw [newline, List.mem_cons, List.mem_replicate] at hd
  obtain rfl | ⟨-, rfl⟩ := hd <;> rfl

/-- The first character of a written value is no blank, no closing bracket and no mark of an
encoding. -/
theorem exists_indented_eq {v : Json} (hv : Readable limit v) (style : Style) (level : ℕ) :
    ∃ c more, style.indented level v = c :: more ∧ isJsonBlank c = false ∧ c ≠ ']' ∧
      c ≠ '\ufeff' := by
  cases hv with
  | null => exact ⟨'n', "ull".toList, by simp [Style.indented], by decide⟩
  | bool b =>
    cases b
    · exact ⟨'f', "alse".toList, by simp [Style.indented], by decide⟩
    · exact ⟨'t', "rue".toList, by simp [Style.indented], by decide⟩
  | int n =>
    obtain ⟨c, more, hdigits⟩ := List.exists_cons_of_ne_nil (decimal_ne_nil n.natAbs)
    have hc : isAsciiDigit c = true := isAsciiDigit_of_mem_decimal (hdigits ▸ List.mem_cons_self)
    rw [Style.indented, toList_toString, hdigits]
    split_ifs
    · exact ⟨'-', c :: more, rfl, by decide⟩
    · have hapart {d : Char} (hd : isAsciiDigit d = false) : c ≠ d := by
        rintro rfl
        rw [hc] at hd
        cases hd
      refine ⟨c, more, rfl, ?_, hapart (by decide), hapart (by decide)⟩
      simp only [isJsonBlank, Bool.or_eq_false_iff, beq_eq_false_iff_ne]
      exact ⟨⟨⟨hapart (by decide), hapart (by decide)⟩, hapart (by decide)⟩, hapart (by decide)⟩
  | string s =>
    refine ⟨'"', s.toList.flatMap style.char ++ ['"'], ?_, by decide⟩
    rw [Style.indented, Style.quoted, List.cons_append]
  | list items =>
    cases items with
    | nil => exact ⟨'[', _, by rw [Style.indented], by decide⟩
    | cons item rest =>
      exact ⟨'[', _, by simp only [Style.indented, List.cons_append]; rfl, by decide⟩
  | object fields =>
    cases fields with
    | nil => exact ⟨'\x7b', _, by rw [Style.indented], by decide⟩
    | cons field rest =>
      exact ⟨'\x7b', _, by simp only [Style.indented, List.cons_append]; rfl, by decide⟩

/-- A value that is read back from the start of any text behind it. The calls of the reader are
bounded by twice the length of the written value. -/
def ReadBack (limit : Option ℕ) (style : Style) (v : Json) : Prop :=
  ∀ (level fuel : ℕ) (rest : List Char), Stops goesOn rest →
    2 * (style.indented level v).length ≤ fuel →
    value limit fuel (style.indented level v ++ rest) = .ok (v, rest)

/-- A field with a new name comes behind the others. -/
theorem setField_of_not_mem {name : String} {v : Json} {before : List (String × Json)}
    (hname : name ∉ before.map Prod.fst) : setField name v before = before ++ [(name, v)] := by
  induction before with
  | nil => rfl
  | cons field before ih =>
    rw [List.map_cons, List.mem_cons, not_or] at hname
    rw [setField, if_neg (Ne.symm hname.1), ih hname.2, List.cons_append]

section Parts

variable {v : Json} (hv : ReadBack limit style v) (level : ℕ) {fuel : ℕ}
  (hfuel : 2 * (style.indented level v).length ≤ fuel)

include hv hfuel

/-- An item of a list is read up to its end. -/
theorem items_eq (before : List Json) (hrest : Stops goesOn rest) :
    items limit (fuel + 1) before (style.indented level v ++ rest) =
      match skipBlanks rest with
      | ']' :: after => .ok (.list (v :: before).reverse, after)
      | ',' :: more => items limit fuel (v :: before) (skipBlanks more)
      | other => stop .expectedComma other := by
  rw [items, hv level fuel rest hrest hfuel]
  rfl

variable (hreadable : Readable limit v)

include hreadable

/-- A field is read up to the end of its value. -/
theorem fields_eq (name : String) (before : List (String × Json)) (hrest : Stops goesOn rest) :
    fields limit (fuel + 1) before
        (style.quoted name ++ ':' :: ' ' :: (style.indented level v ++ rest)) =
      match skipBlanks rest with
      | '\x7d' :: after => .ok (.object (setField name v before), after)
      | ',' :: more => fields limit fuel (setField name v before) (skipBlanks more)
      | other => stop .expectedComma other := by
  obtain ⟨inside, hname, hread⟩ :=
    textInside_quoted style name (':' :: ' ' :: (style.indented level v ++ rest))
  obtain ⟨c, text, htext, hblank, -⟩ := exists_indented_eq hreadable style level
  have hskip : skipBlanks (' ' :: (style.indented level v ++ rest)) =
      style.indented level v ++ rest := by
    rw [htext, List.cons_append]
    exact skipBlanks_cons hblank
  rw [hname, fields]
  simp only [bind, Except.bind, hread]
  rw [skipBlanks_cons (by decide)]
  simp only
  rewrite [hskip, hv level fuel rest hrest hfuel]
  rfl

end Parts

/-- What follows a value inside of a list or an object does not go on with a number. -/
theorem stops_newline (level : ℕ) : Stops goesOn (newline level ++ rest) := by
  simp [newline, goesOn, isAsciiDigit]

/-- A number stops at a comma. -/
theorem stops_comma : Stops goesOn (',' :: rest) := by simp [goesOn, isAsciiDigit]

/-- A written value is found behind a new line. -/
theorem skipBlanks_indented {v : Json} (hv : Readable limit v) (style : Style) (level : ℕ)
    (rest : List Char) :
    skipBlanks (newline level ++ (style.indented level v ++ rest)) =
      style.indented level v ++ rest := by
  obtain ⟨c, text, htext, hblank, -⟩ := exists_indented_eq hv style level
  rw [htext, List.cons_append, skipBlanks_newline level hblank]

/-- The line break before a quoted text is skipped. -/
theorem skipBlanks_quoted (style : Style) (name : String) (level : ℕ) (rest : List Char) :
    skipBlanks (newline level ++ (style.quoted name ++ rest)) = style.quoted name ++ rest := by
  rw [Style.quoted, List.cons_append, List.cons_append]
  exact skipBlanks_newline level (by decide)

/-- A name is new behind fields that all have different names. -/
theorem not_mem_of_nodup {name : String} {item : Json} {before more : List (String × Json)}
    (hnames : ((before ++ (name, item) :: more).map Prod.fst).Nodup) :
    name ∉ before.map Prod.fst := by
  rw [List.map_append, List.nodup_append] at hnames
  exact fun hmem => hnames.2.2 name hmem name List.mem_cons_self rfl

/-- The items of a list are read back up to the closing bracket. -/
theorem items_indented {item : Json} {more : List Json}
    (hreadable : ∀ other ∈ item :: more, Readable limit other)
    (hback : ∀ other ∈ item :: more, ReadBack limit style other) (level close : ℕ)
    (before : List Json) (fuel : ℕ)
    (hfuel : 2 * (style.indented level item ++ style.indentedItems level more ++ newline close ++
      [']']).length ≤ fuel) (rest : List Char) :
    items limit fuel before (style.indented level item ++ (style.indentedItems level more ++
      (newline close ++ ']' :: rest))) = .ok (.list (before.reverse ++ item :: more), rest) := by
  obtain ⟨fuel, rfl⟩ : ∃ less, fuel = less + 1 := ⟨fuel - 1, by simp at hfuel; omega⟩
  induction more generalizing item before fuel with
  | nil =>
    rw [Style.indentedItems, List.nil_append, items_eq (hback item List.mem_cons_self) level
      (by simp at hfuel; omega) before (stops_newline close), skipBlanks_newline close (by decide)]
    simp
  | cons next more ih =>
    rw [List.forall_mem_cons] at hreadable hback
    rw [Style.indentedItems] at hfuel ⊢
    obtain ⟨fuel, rfl⟩ : ∃ less, fuel = less + 1 := ⟨fuel - 1, by simp at hfuel; omega⟩
    simp only [List.cons_append, List.append_assoc]
    rw [items_eq hback.1 level (by simp at hfuel; omega) before stops_comma,
      skipBlanks_cons (by decide)]
    simp only
    rw [skipBlanks_indented (hreadable.2 next List.mem_cons_self), ih hreadable.2 hback.2]
    · simp
    · simp at hfuel ⊢
      omega

/-- The fields of an object are read back up to the closing brace. -/
theorem fields_indented {name : String} {item : Json} {more : List (String × Json)}
    (hreadable : ∀ other ∈ (name, item) :: more, Readable limit other.2)
    (hback : ∀ other ∈ (name, item) :: more, ReadBack limit style other.2) (level close : ℕ)
    (before : List (String × Json))
    (hnames : ((before ++ (name, item) :: more).map Prod.fst).Nodup) (fuel : ℕ)
    (hfuel : 2 * (style.quoted name ++ ':' :: ' ' :: style.indented level item ++
      style.indentedFields level more ++ newline close ++ ['\x7d']).length ≤ fuel)
    (rest : List Char) :
    fields limit fuel before (style.quoted name ++ ':' :: ' ' :: (style.indented level item ++
      (style.indentedFields level more ++ (newline close ++ '\x7d' :: rest)))) =
        .ok (.object (before ++ (name, item) :: more), rest) := by
  obtain ⟨fuel, rfl⟩ : ∃ less, fuel = less + 1 := ⟨fuel - 1, by simp at hfuel; omega⟩
  induction more generalizing name item before fuel with
  | nil =>
    simp only [List.forall_mem_singleton] at hreadable hback
    rw [Style.indentedFields, List.nil_append, fields_eq hback level (by simp at hfuel; omega)
      hreadable name before (stops_newline close), skipBlanks_newline close (by decide),
      setField_of_not_mem (not_mem_of_nodup hnames)]
    rfl
  | cons next more ih =>
    obtain ⟨other, next⟩ := next
    rw [List.forall_mem_cons] at hreadable hback
    dsimp only at hreadable hback
    rw [Style.indentedFields] at hfuel ⊢
    obtain ⟨fuel, rfl⟩ : ∃ less, fuel = less + 1 := ⟨fuel - 1, by simp at hfuel; omega⟩
    simp only [List.cons_append, List.append_assoc]
    rw [fields_eq hback.1 level (by simp at hfuel; omega) hreadable.1 name before stops_comma,
      skipBlanks_cons (by decide), setField_of_not_mem (not_mem_of_nodup hnames)]
    simp only
    rw [skipBlanks_quoted, ih hreadable.2 hback.2]
    · simp
    · simpa using hnames
    · simp at hfuel ⊢
      omega

/-- The reader makes one call at least for a value. -/
theorem readBack_of_succ {v : Json} (hv : Readable limit v)
    (hread : ∀ (level fuel : ℕ) (rest : List Char), Stops goesOn rest →
      2 * (style.indented level v).length ≤ fuel + 1 →
      value limit (fuel + 1) (style.indented level v ++ rest) = .ok (v, rest)) :
    ReadBack limit style v := by
  intro level fuel rest hrest hfuel
  obtain ⟨c, more, htext, -⟩ := exists_indented_eq hv style level
  obtain ⟨fuel, rfl⟩ : ∃ less, fuel = less + 1 :=
    ⟨fuel - 1, by rw [htext, List.length_cons] at hfuel; omega⟩
  exact hread level fuel rest hrest hfuel

/-- A list whose items are read back is read back. -/
theorem readBack_list {items : List Json} (hitems : ∀ item ∈ items, Readable limit item)
    (hback : ∀ item ∈ items, ReadBack limit style item) : ReadBack limit style (.list items) := by
  refine readBack_of_succ (.list items hitems) fun level fuel rest _ hfuel => ?_
  cases items with
  | nil => rfl
  | cons item more =>
    obtain ⟨c, text, htext, -, hclose, -⟩ :=
      exists_indented_eq (hitems item List.mem_cons_self) style (level + 1)
    have hread := items_indented hitems hback (level + 1) level [] fuel
      (by simp [Style.indented, newline] at hfuel ⊢; omega) rest
    simp only [Style.indented, List.cons_append, List.append_assoc, List.nil_append]
    rw [value, skipBlanks_indented (hitems item List.mem_cons_self)]
    split
    case h_1 after heq =>
      rw [htext, List.cons_append] at heq
      exact absurd (List.cons.inj heq).1 hclose
    case h_2 => exact hread

/-- An object whose fields are read back is read back. -/
theorem readBack_object {fields : List (String × Json)} (hnames : (fields.map Prod.fst).Nodup)
    (hfields : ∀ field ∈ fields, Readable limit field.2)
    (hback : ∀ field ∈ fields, ReadBack limit style field.2) :
    ReadBack limit style (.object fields) := by
  refine readBack_of_succ (.object fields hnames hfields) fun level fuel rest _ hfuel => ?_
  cases fields with
  | nil => rfl
  | cons field more =>
    obtain ⟨name, item⟩ := field
    have hread := fields_indented hfields hback (level + 1) level [] hnames fuel
      (by simp [Style.indented, newline] at hfuel ⊢; omega) rest
    simp only [Style.indented, List.cons_append, List.append_assoc]
    rw [value, skipBlanks_quoted]
    split
    case h_1 after heq =>
      rw [Style.quoted, List.cons_append] at heq
      exact absurd (List.cons.inj heq).1 (by decide)
    case h_2 => exact hread

/-- Every readable value is read back. -/
theorem Readable.readBack {v : Json} (hv : Readable limit v) (style : Style) :
    ReadBack limit style v := by
  induction hv with
  | null => exact readBack_of_succ .null fun _ _ _ _ _ => rfl
  | bool b =>
    refine readBack_of_succ (.bool b) fun _ _ _ _ _ => ?_
    cases b <;> rfl
  | int n hlimit =>
    refine readBack_of_succ (.int n hlimit) fun level fuel rest hrest _ => ?_
    rw [Style.indented]
    exact value_int hlimit hrest fuel
  | string s =>
    refine readBack_of_succ (.string s) fun level fuel rest _ _ => ?_
    obtain ⟨inside, htext, hread⟩ := textInside_quoted style s rest
    rw [Style.indented, htext, value, hread]
    rfl
  | list items hitems ih => exact readBack_list hitems ih
  | object fields hnames hfields ih => exact readBack_object hnames hfields ih

/-- A readable value that is written in any style is read back as the whole of its text. -/
theorem readWithin_write {v : Json} (hv : Readable limit v) (style : Style) :
    readWithin limit (write style v).toList = .ok v := by
  obtain ⟨c, more, htext, hblank, -, hmark⟩ := exists_indented_eq hv style 0
  have hread := hv.readBack style 0 (2 * (style.indented 0 v).length + 2) [] stops_nil (by omega)
  rw [List.append_nil] at hread
  have hwhole : readWhole limit (style.indented 0 v) = .ok v := by
    have hskip : skipBlanks (style.indented 0 v) = style.indented 0 v := by
      rw [htext]
      exact skipBlanks_cons hblank
    unfold readWhole
    split
    case h_1 heq =>
      rw [htext] at heq
      exact absurd (List.cons.inj heq).1 hmark
    case h_2 =>
      rw [hskip, hread]
      rfl
  rw [readWithin, write, String.toList_ofList, hwhole]

/-! ### Integers of too many digits -/

/-- The items of a list are tested one by one. -/
@[simp]
theorem hasShortItems_eq_all (items : List Json) :
    hasShortItems limit items = items.all (hasShort limit) := by
  induction items with
  | nil => rfl
  | cons item items ih => rw [hasShortItems, ih, List.all_cons]

/-- So are the values of fields. -/
@[simp]
theorem hasShortFields_eq_all (fields : List (String × Json)) :
    hasShortFields limit fields = fields.all fun field => hasShort limit field.2 := by
  induction fields with
  | nil => rfl
  | cons field fields ih => rw [hasShortFields, ih, List.all_cons]

/-- What is written within a limit is what is written without one. -/
theorem writeWithin_eq_some_iff {v : Json} {text : String} :
    writeWithin limit style v = some text ↔ hasShort limit v = true ∧ write style v = text := by
  rw [writeWithin]
  split_ifs with hshort <;> simp [hshort]

end ChangeImpact.Json
