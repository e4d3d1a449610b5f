import ChangeImpact.Files.Directory
import ChangeImpact.Proofs.Utf8
import ChangeImpact.Text.Digit

/-!
# Reading printed output

The output of a program that prints lines is read back line by line, as long as no line holds a
character that breaks lines. A number that was printed in decimal digits is read back unless it has
more digits than a number that is read may have.
-/

namespace ChangeImpact

namespace Text

/-- Characters that break lines are blank. -/
theorem isBlank_of_isLineBreak {c : Char} (hc : isLineBreak c = true) : isBlank c = true := by
  simp only [isLineBreak, isBlank, Bool.or_eq_true, Bool.and_eq_true, decide_eq_true_eq,
    beq_iff_eq] at hc ⊢
  omega

/-- The first character of a text breaks a line or belongs to the first one. -/
theorem lines_cons {c : Char} (hreturn : c ≠ '\r') (rest : List Char) :
    lines (c :: rest) = if isLineBreak c then [] :: lines rest else consLine c (lines rest) := by
  rw [lines]
  rintro more rfl
  exact absurd rfl hreturn

/-- A line without breaks is read up to the break behind it. -/
theorem lines_append_break {line : List Char} (hline : ∀ c ∈ line, isLineBreak c = false)
    {mark : Char} (hmark : isLineBreak mark = true) (hreturn : mark ≠ '\r') (rest : List Char) :
    lines (line ++ mark :: rest) = line :: lines rest := by
  induction line with
  | nil => rw [List.nil_append, lines_cons hreturn, if_pos hmark]
  | cons c line ih =>
    rw [List.forall_mem_cons] at hline
    obtain ⟨hc, hline⟩ := hline
    have hfirst : c ≠ '\r' := by
      rintro rfl
      cases hc
    rw [List.cons_append, lines_cons hfirst, hc, ih hline]
    rfl

/-- A line without breaks is read up to its newline. -/
theorem lines_append_newline {line : List Char} (hline : ∀ c ∈ line, isLineBreak c = false)
    (rest : List Char) : lines (line ++ '\n' :: rest) = line :: lines rest :=
  lines_append_break hline rfl (by decide) rest

/-- A text that is not empty has a line. -/
theorem lines_ne_nil {text : List Char} (htext : text ≠ []) : lines text ≠ [] := by
  fun_cases lines text with
  | case1 => exact absurd rfl htext
  | case2 rest => exact List.cons_ne_nil _ _
  | case3 c rest => exact List.cons_ne_nil _ _
  | case4 c rest =>
    cases lines rest with
    | nil => exact List.cons_ne_nil _ _
    | cons first more => exact List.cons_ne_nil _ _

/-- A newline divides the lines before it from those behind it. -/
theorem lines_append_newline_append {text : List Char} (htext : '\r' ∉ text) (rest : List Char) :
    lines (text ++ '\n' :: rest) = lines (text ++ ['\n']) ++ lines rest := by
  induction text with
  | nil => rfl
  | cons c text ih =>
    rw [List.mem_cons, not_or] at htext
    obtain ⟨hc, htext⟩ := htext
    have hsome : lines (text ++ ['\n']) ≠ [] := lines_ne_nil (by simp)
    obtain ⟨first, more, hlines⟩ := List.exists_cons_of_ne_nil hsome
    rw [List.cons_append, List.cons_append, lines_cons (Ne.symm hc), lines_cons (Ne.symm hc),
      ih htext, hlines]
    split_ifs <;> rfl

/-- Lines are made of the characters of the text. -/
theorem mem_of_mem_lines {text line : List Char} {c : Char} (hline : line ∈ lines text)
    (hc : c ∈ line) : c ∈ text := by
  fun_induction lines text generalizing line with
  | case1 => cases hline
  | case2 rest ih =>
    obtain rfl | hline := List.mem_cons.mp hline
    · cases hc
    · exact List.mem_cons_of_mem _ (List.mem_cons_of_mem _ (ih hline hc))
  | case3 d rest _ _ ih =>
    obtain rfl | hline := List.mem_cons.mp hline
    · cases hc
    · exact List.mem_cons_of_mem _ (ih hline hc)
  | case4 d rest _ _ ih =>
    cases hlines : lines rest with
    | nil =>
      rw [hlines, consLine, List.mem_singleton] at hline
      subst hline
      exact List.mem_cons.mpr (.inl (List.mem_singleton.mp hc))
    | cons first more =>
      rw [hlines] at ih hline
      obtain rfl | hline := List.mem_cons.mp hline
      · obtain rfl | hc := List.mem_cons.mp hc
        · exact List.mem_cons_self
        · exact List.mem_cons_of_mem _ (ih List.mem_cons_self hc)
      · exact List.mem_cons_of_mem _ (ih (List.mem_cons_of_mem _ hline) hc)

/-- Printed lines are read back. -/
theorem lines_flatMap_newline {printed : List (List Char)}
    (hprinted : ∀ line ∈ printed, ∀ c ∈ line, isLineBreak c = false) :
    lines (printed.flatMap (· ++ ['\n'])) = printed := by
  induction printed with
  | nil => rfl
  | cons line printed ih =>
    rw [List.forall_mem_cons] at hprinted
    obtain ⟨hline, hprinted⟩ := hprinted
    rw [List.flatMap_cons, List.append_assoc, List.singleton_append,
      lines_append_newline hline, ih hprinted]

/-- A text without carriage returns has unified newlines. -/
theorem unifyNewlines_eq_self {text : List Char} (htext : '\r' ∉ text) :
    unifyNewlines text = text := by
  induction text with
  | nil => rfl
  | cons c text ih =>
    rw [List.mem_cons, not_or] at htext
    obtain ⟨hc, htext⟩ := htext
    rw [unifyNewlines, if_neg (Ne.symm hc), ih htext]
    rintro rest rfl
    exact absurd rfl hc

/-- Text without carriage returns that a program prints is read back. -/
theorem outputText_encode {text : List Char} (htext : '\r' ∉ text) :
    outputText (Utf8.encode text) = String.ofList text := by
  rw [outputText, Utf8.decodeLossy_encode, unifyNewlines_eq_self htext]

/-- The decimal digits of a number. -/
def decimal (n : ℕ) : List Char := Nat.toDigits 10 n

/-- A number has digits. -/
theorem decimal_ne_nil (n : ℕ) : decimal n ≠ [] := Nat.toDigits_ne_nil

/-- Numerals to a base of at most ten consist of ASCII digits. -/
theorem toNat_of_mem_toDigits {base n : ℕ} {c : Char} (hpos : 0 < base) (hten : base ≤ 10)
    (hc : c ∈ Nat.toDigits base n) : 48 ≤ c.toNat ∧ c.toNat < 58 := by
  have hdigit := Nat.isDigit_of_mem_toDigits hpos hten hc
  simp only [Char.isDigit, Bool.and_eq_true, decide_eq_true_eq] at hdigit
  have hlow : 48 ≤ c.toNat := hdigit.1
  have hhigh : c.toNat ≤ 57 := hdigit.2
  omega

/-- Decimal numerals consist of ASCII digits. -/
theorem toNat_of_mem_decimal {n : ℕ} {c : Char} (hc : c ∈ decimal n) :
    48 ≤ c.toNat ∧ c.toNat < 58 :=
  toNat_of_mem_toDigits (by decide) (by decide) hc

/-- An ASCII digit has its distance from zero as its value. -/
theorem decimalValue?_of_ascii {c : Char} (hlow : 48 ≤ c.toNat) (hhigh : c.toNat < 58) :
    decimalValue? c = some (c.toNat - 48) := by
  have hzeros : decimalZeros = 48 :: decimalZeros.tail := rfl
  rw [decimalValue?, hzeros, List.find?_cons_of_pos (by simp [hlow, hhigh])]
  rfl

/-- ASCII digits are decimal digits. -/
theorem isDecimal_of_ascii {c : Char} (hlow : 48 ≤ c.toNat) (hhigh : c.toNat < 58) :
    isDecimal c = true := by
  rw [isDecimal, decimalValue?_of_ascii hlow hhigh]
  rfl

/-- Decimal numerals consist of decimal digits. -/
theorem isDecimal_of_mem_decimal {n : ℕ} {c : Char} (hc : c ∈ decimal n) : isDecimal c = true :=
  isDecimal_of_ascii (toNat_of_mem_decimal hc).1 (toNat_of_mem_decimal hc).2

/-- ASCII digits are not blank. -/
theorem isBlank_of_ascii {c : Char} (hlow : 48 ≤ c.toNat) (hhigh : c.toNat < 58) :
    isBlank c = false := by
  rw [← Bool.not_eq_true]
  simp only [isBlank, Bool.or_eq_true, Bool.and_eq_true, decide_eq_true_eq, beq_iff_eq]
  omega

/-- Decimal numerals have no blanks. -/
theorem isBlank_of_mem_decimal {n : ℕ} {c : Char} (hc : c ∈ decimal n) : isBlank c = false :=
  isBlank_of_ascii (toNat_of_mem_decimal hc).1 (toNat_of_mem_decimal hc).2

/-- The digits of a numeral are read one by one. -/
theorem groupedDigits?_of_ascii {digits : List Char} (hne : digits ≠ [])
    (hdigits : ∀ c ∈ digits, 48 ≤ c.toNat ∧ c.toNat < 58) :
    groupedDigits? digits = some (digits.map fun c => c.toNat - 48) := by
  induction digits with
  | nil => exact absurd rfl hne
  | cons c digits ih =>
    rw [List.forall_mem_cons] at hdigits
    obtain ⟨⟨hlow, hhigh⟩, hdigits⟩ := hdigits
    have hvalue := decimalValue?_of_ascii hlow hhigh
    cases digits with
    | nil => simp [groupedDigits?, hvalue]
    | cons d digits =>
      have hd : d ≠ '_' := by
        rintro rfl
        exact absurd (List.forall_mem_cons.mp hdigits).1 (by decide)
      rw [groupedDigits?, ih (by simp) hdigits, hvalue]
      · rfl
      · simp
      · rintro rest ⟨rfl, -⟩
        exact hd rfl

/-- The digits of a number write it. -/
theorem ofDigitValues_decimal (n : ℕ) :
    ofDigitValues ((decimal n).map fun c => c.toNat - 48) = n := by
  induction n using Nat.strongRecOn with
  | _ n ih =>
    by_cases hsmall : n < 10
    · rw [decimal, Nat.toDigits_of_lt_base hsmall]
      simp [ofDigitValues, Nat.toNat_digitChar_of_lt_ten hsmall]
    · have hlast : n % 10 < 10 := Nat.mod_lt n (by decide)
      have hfront := ih (n / 10) (by omega)
      rw [decimal, Nat.toDigits_of_base_le (by decide) (by omega)]
      rw [decimal] at hfront
      simp only [ofDigitValues, List.map_append, List.foldl_append] at hfront ⊢
      rw [hfront]
      simp only [List.map_cons, List.map_nil, List.foldl_cons, List.foldl_nil,
        Nat.toNat_digitChar_of_lt_ten hlast]
      omega

/-- Padding is blank. -/
theorem isPadding_eq_false {c : Char} (hc : isBlank c = false) : isPadding c = false := by
  simp [isPadding, hc]

/-- Where nothing is blank there is no padding. -/
theorem trimPadding_eq_self {text : List Char} (htext : ∀ c ∈ text, isBlank c = false) :
    trimPadding text = text := by
  have hkeep {part : List Char} (hpart : ∀ c ∈ part, isBlank c = false) :
      part.dropWhile isPadding = part := by
    cases part with
    | nil => rfl
    | cons c part =>
      exact List.dropWhile_cons_of_neg (by simp [isPadding_eq_false (hpart c (by simp))])
  rw [trimPadding, hkeep htext, hkeep fun c hc => htext c (List.mem_reverse.mp hc),
    List.reverse_reverse]

/-- A printed number is read back unless it has too many digits. -/
theorem integer?_decimal (n : ℕ) :
    integer? (decimal n) =
      if (decimal n).length ≤ maxIntegerDigits then some (n : Int) else none := by
  have hdigits : ∀ c ∈ decimal n, 48 ≤ c.toNat ∧ c.toNat < 58 := fun c => toNat_of_mem_decimal
  have hnumeral := groupedDigits?_of_ascii (decimal_ne_nil n) hdigits
  have hvalue := ofDigitValues_decimal n
  rw [integer?, trimPadding_eq_self fun c => isBlank_of_mem_decimal]
  split
  · next heq =>
    have hsign := hdigits '-' (by rw [heq]; exact List.mem_cons_self)
    exact absurd hsign (by decide)
  · next heq =>
    have hsign := hdigits '+' (by rw [heq]; exact List.mem_cons_self)
    exact absurd hsign (by decide)
  · simp only [hnumeral, Option.bind_eq_bind, Option.bind_some, List.length_map, hvalue]
    split <;> rfl

end Text

end ChangeImpact
