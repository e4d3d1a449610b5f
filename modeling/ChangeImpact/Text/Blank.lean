/-!
# Blanks

Which characters are blank, and the operations that rest on the distinction: trimming, the words of
a text, and the text with every run of blanks collapsed to one space.
-/

namespace ChangeImpact.Text

/-- Blank characters: the ASCII controls from tab to carriage return and from 28 to 31, the space,
the next-line control, and the space, line and paragraph separators of Unicode. -/
def isBlank (c : Char) : Bool :=
  let n := c.toNat
  (9 ≤ n && n ≤ 13) || (28 ≤ n && n ≤ 32) || n == 0x85 || n == 0xA0 || n == 0x1680 ||
    (0x2000 ≤ n && n ≤ 0x200A) || n == 0x2028 || n == 0x2029 || n == 0x202F || n == 0x205F ||
    n == 0x3000

/-- The text without the blanks at its start. -/
def trimLeft (text : List Char) : List Char := text.dropWhile isBlank

/-- The text without the blanks at its end. -/
def trimRight (text : List Char) : List Char := (text.reverse.dropWhile isBlank).reverse

/-- The text without the blanks at both ends. -/
def trim (text : List Char) : List Char := trimRight (trimLeft text)

/-- Blanks that may stand around a number: all but the ASCII controls from 28 to 31. -/
def isPadding (c : Char) : Bool := isBlank c && !(28 ≤ c.toNat && c.toNat ≤ 31)

/-- The text without the padding at both ends. -/
def trimPadding (text : List Char) : List Char :=
  ((text.dropWhile isPadding).reverse.dropWhile isPadding).reverse

/-- The maximal runs of characters that are not blank, in order. -/
def words : List Char → List (List Char)
  | [] => []
  | c :: rest =>
    if isBlank c then words rest
    else match rest with
      | [] => [[c]]
      | d :: _ =>
        if isBlank d then [c] :: words rest
        else match words rest with
          | word :: more => (c :: word) :: more
          | [] => [[c]]

/-- The words of the text with one space between neighbours. -/
def collapse (text : List Char) : List Char := [' '].intercalate (words text)

@[simp] theorem words_nil : words [] = [] := rfl

@[simp] theorem collapse_nil : collapse [] = [] := rfl

/-- A blank at the start adds no word. -/
theorem words_cons_of_isBlank {c : Char} (h : isBlank c = true) (rest : List Char) :
    words (c :: rest) = words rest := by
  rw [words.eq_def]
  exact if_pos h

end ChangeImpact.Text
