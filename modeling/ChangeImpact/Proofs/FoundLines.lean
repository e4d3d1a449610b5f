import ChangeImpact.Git.Repository
import ChangeImpact.Proofs.Outcome
import ChangeImpact.Proofs.PrintedOutput
import ChangeImpact.Proofs.Scanning
import Mathlib.Data.List.ReduceOption

/-!
# Reading the matches of a search

A search prints each match on a line: the file, the number and the text of the line that matches,
with colons between them. What is printed is cut at every character that breaks lines, so a match is
read back as it was exactly if its text has no such character. Otherwise the text ends at the first
one, and what stands behind it may be taken for more matches.
-/

namespace ChangeImpact

open Text

/-- A match of a search. Its text may be any line; its file has a name that is printed as it is. -/
structure PrintedMatch where
  file : List Char
  number : ℕ
  text : List Char
  colon_not_mem_file : ':' ∉ file
  unbroken_file : ∀ c ∈ file, isLineBreak c = false
  newline_not_mem_text : '\n' ∉ text
  return_not_mem_text : '\r' ∉ text

namespace PrintedMatch

variable (hit : PrintedMatch)

/-- The file and the number of the line with a text behind them. -/
def columns (text : List Char) : List Char :=
  hit.file ++ ':' :: (decimal hit.number ++ ':' :: text)

/-- What is printed for some matches: a line for each. -/
def printedText (hits : List PrintedMatch) : List Char :=
  hits.flatMap fun hit => hit.columns hit.text ++ ['\n']

/-- The line that a search should find. -/
def foundLine : Git.FoundLine := ⟨String.ofList hit.file, hit.number, String.ofList hit.text⟩

/-- The text up to the first character that breaks lines. -/
def firstPart : List Char := hit.text.takeWhile fun c => !isLineBreak c

/-- The line that a search should find, with its text cut at the first line break. -/
def cutLine : Git.FoundLine := { hit.foundLine with text := String.ofList hit.firstPart }

/-- What the reading of a match depends on. -/
structure IsLegible : Prop where
  numbered : (decimal hit.number).length ≤ maxIntegerDigits
  unbroken : ∀ c ∈ hit.text, isLineBreak c = false

/-! ### Lines of a match -/

/-- There is no carriage return in a line that is printed. -/
theorem return_not_mem_columns {text : List Char} (htext : '\r' ∉ text) :
    '\r' ∉ hit.columns text := by
  have hfile : '\r' ∉ hit.file := fun h => absurd (hit.unbroken_file _ h) (by decide)
  have hnumber : '\r' ∉ decimal hit.number := fun h => absurd (toNat_of_mem_decimal h) (by decide)
  simp [columns, hfile, hnumber, htext]

/-- Only the text can break a line that is printed. -/
theorem unbroken_columns {text : List Char} (htext : ∀ c ∈ text, isLineBreak c = false) :
    ∀ c ∈ hit.columns text, isLineBreak c = false := by
  have hnumber : ∀ c ∈ decimal hit.number, isLineBreak c = false := fun c hc =>
    Bool.eq_false_iff.mpr fun hbreak => by
      have hblank := isBlank_of_isLineBreak hbreak
      rw [isBlank_of_mem_decimal hc] at hblank
      cases hblank
  simp only [columns, List.forall_mem_append, List.forall_mem_cons]
  exact ⟨hit.unbroken_file, by decide, hnumber, by decide, htext⟩

/-- The lines that the printed line of a match is cut into. -/
def pieces : List (List Char) := lines (hit.columns hit.text ++ ['\n'])

/-- A text without line breaks leaves the line in one piece. -/
theorem pieces_of_unbroken (htext : ∀ c ∈ hit.text, isLineBreak c = false) :
    hit.pieces = [hit.columns hit.text] :=
  lines_append_newline (hit.unbroken_columns htext) []

/-- The first piece has the text up to its first line break. -/
theorem exists_pieces_eq : ∃ more, hit.pieces = hit.columns hit.firstPart :: more := by
  by_cases htext : ∃ c ∈ hit.text, (!isLineBreak c) = false
  · obtain ⟨front, mark, behind, hfront, hmark, hsplit⟩ := exists_eq_append_cons htext
    have hstops : Stops (fun c => !isLineBreak c) (mark :: behind) := stops_cons.mpr hmark
    have hfirst : hit.firstPart = front := by
      rw [firstPart, hsplit, takeWhile_append_of_stops hfront hstops]
    have hreturn : mark ≠ '\r' := by
      rintro rfl
      exact hit.return_not_mem_text (by simp [hsplit])
    have hline : hit.columns hit.text ++ ['\n'] =
        hit.columns front ++ mark :: (behind ++ ['\n']) := by
      simp [columns, hsplit]
    have hunbroken : ∀ c ∈ hit.columns front, isLineBreak c = false :=
      hit.unbroken_columns (by simpa using hfront)
    rw [pieces, hline, lines_append_break hunbroken (by simpa using hmark) hreturn, hfirst]
    exact ⟨_, rfl⟩
  · have hunbroken : ∀ c ∈ hit.text, (!isLineBreak c) = true := by simpa using htext
    have hfirst : hit.firstPart = hit.text := List.takeWhile_eq_self_iff.mpr hunbroken
    rw [hit.pieces_of_unbroken (by simpa using hunbroken), hfirst]
    exact ⟨[], rfl⟩

/-- What is printed has no carriage return. -/
theorem return_not_mem_printedText (hits : List PrintedMatch) : '\r' ∉ printedText hits := by
  simp only [printedText, List.mem_flatMap, List.mem_append, not_exists, not_and, not_or]
  exact fun hit _ => ⟨hit.return_not_mem_columns hit.return_not_mem_text, by decide⟩

/-- What is printed is cut into the pieces of the matches. -/
theorem lines_printedText (hits : List PrintedMatch) :
    lines (printedText hits) = hits.flatMap pieces := by
  induction hits with
  | nil => rfl
  | cons hit hits ih =>
    rw [printedText, List.flatMap_cons, List.append_assoc, List.singleton_append,
      lines_append_newline_append (hit.return_not_mem_columns hit.return_not_mem_text),
      ← printedText, ih, List.flatMap_cons, pieces]

end PrintedMatch

namespace Git.Repository

open PrintedMatch

/-- ASCII digits are digits. -/
theorem isDigit_of_mem_decimal {n : ℕ} {c : Char} (hc : c ∈ decimal n) : isDigit c = true := by
  obtain ⟨hlow, hhigh⟩ := toNat_of_mem_decimal hc
  have hranges : digitRanges = 48 :: 58 :: digitRanges.tail.tail := rfl
  rw [isDigit, hranges, inRanges_pair, if_neg (by omega), if_pos hhigh]

/-- A file, a number and a text are read as a found line if the digits of the number can be. -/
theorem foundLine?_columns (hit : PrintedMatch) (text : List Char) :
    foundLine? (hit.columns text) =
      if (decimal hit.number).length ≤ maxIntegerDigits then
        .ok (some ⟨String.ofList hit.file, hit.number, String.ofList text⟩)
      else .error .badNumber := by
  have hcolon : ':' ∉ decimal hit.number := fun h => absurd (toNat_of_mem_decimal h) (by decide)
  have hdigits : ((decimal hit.number).isEmpty || !(decimal hit.number).all isDigit) = false := by
    have hall : (decimal hit.number).all isDigit = true :=
      List.all_eq_true.mpr fun c hc => isDigit_of_mem_decimal hc
    simp [hall, decimal_ne_nil]
  rw [foundLine?, columns, span_append_cons hit.colon_not_mem_file]
  simp only [span_append_cons hcolon, hdigits, Bool.false_eq_true, if_false, integer?_decimal]
  split_ifs <;> rfl

/-- The lines found in some output are those that its lines show. -/
theorem foldlM_foundLine? (printed : List (List Char)) (found : List FoundLine) :
    printed.foldlM (fun found line => (foundLine? line).map fun next => found ++ next.toList)
        found =
      (printed.mapM foundLine?).map fun shown => found ++ shown.reduceOption := by
  induction printed generalizing found with
  | nil => simp [pure, Except.pure, Except.map]
  | cons line printed ih =>
    rw [List.foldlM_cons, List.mapM_cons]
    cases foundLine? line with
    | error fault => rfl
    | ok next =>
      refine (ih (found ++ next.toList)).trans ?_
      cases printed.mapM foundLine? with
      | error fault => rfl
      | ok shown => cases next <;> simp [Except.map, bind, Except.bind, pure, Except.pure]

/-- The pieces of legible matches are their lines, and each is read as its match. -/
theorem mapM_pieces {hits : List PrintedMatch} (hlegible : ∀ hit ∈ hits, hit.IsLegible) :
    (hits.flatMap pieces).mapM foundLine? = .ok (hits.map fun hit => some hit.foundLine) := by
  have hpieces : hits.flatMap pieces = hits.map fun hit => hit.columns hit.text := by
    rw [List.map_eq_flatMap]
    exact List.flatMap_congr fun hit hhit => hit.pieces_of_unbroken (hlegible hit hhit).unbroken
  have hlines : ∀ hit ∈ hits, foundLine? (hit.columns hit.text) = .ok (some hit.foundLine) :=
    fun hit hhit => by rw [foundLine?_columns, if_pos (hlegible hit hhit).numbered, foundLine]
  rw [hpieces, List.mapM_map]
  exact mapM_eq_ok hlines

/-- If all pieces of some matches are read, each match is found with the first part of its text, and
its number can be read. -/
theorem sublist_reduceOption {hits : List PrintedMatch} {shown : List (Option FoundLine)}
    (hshown : (hits.flatMap pieces).mapM foundLine? = .ok shown) :
    (hits.map cutLine).Sublist shown.reduceOption ∧
      ∀ hit ∈ hits, (decimal hit.number).length ≤ maxIntegerDigits := by
  induction hits generalizing shown with
  | nil => exact ⟨List.nil_sublist _, List.forall_mem_nil _⟩
  | cons hit hits ih =>
    obtain ⟨more, hpieces⟩ := hit.exists_pieces_eq
    rw [List.flatMap_cons, hpieces, List.cons_append, List.mapM_cons, List.mapM_append,
      foundLine?_columns, bind_eq_ok_iff] at hshown
    obtain ⟨first, hfirst, hshown⟩ := hshown
    obtain ⟨rest, hrest, hshown⟩ := bind_eq_ok_iff.mp hshown
    obtain ⟨own, -, hrest⟩ := bind_eq_ok_iff.mp hrest
    obtain ⟨others, hothers, hrest⟩ := bind_eq_ok_iff.mp hrest
    cases hrest
    cases hshown
    obtain ⟨hsublist, hnumbers⟩ := ih hothers
    split_ifs at hfirst with hnumber
    cases hfirst
    refine ⟨?_, List.forall_mem_cons.mpr ⟨hnumber, hnumbers⟩⟩
    rw [List.reduceOption_cons_of_some, List.reduceOption_append]
    exact (hsublist.trans (List.sublist_append_right _ _)).cons_cons _

/-- Matches that are cut nowhere have the texts that they should have. -/
theorem unbroken_of_cutLine_eq {hit : PrintedMatch} (hcut : hit.cutLine = hit.foundLine) :
    ∀ c ∈ hit.text, isLineBreak c = false := by
  have htext : hit.firstPart = hit.text := String.ofList_inj.mp (congrArg FoundLine.text hcut)
  simpa using List.takeWhile_eq_self_iff.mp htext

variable {repo : Repository} {pattern : String} {glob : Option String} {hits : List PrintedMatch}
  {err : Bytes}

/-- A search finds what the pieces of its matches show. -/
theorem search_of_output
    (hreply : repo.git (Question.search pattern glob).arguments =
      .ok ⟨0, Utf8.encode (printedText hits), err⟩) :
    repo.search pattern glob =
      .ok (((hits.flatMap pieces).mapM foundLine?).map List.reduceOption) := by
  have hask : repo.ask (.search pattern glob) = .ok ⟨0, Utf8.encode (printedText hits), err⟩ := by
    rw [ask, hreply]
  have htext : Reply.outText ⟨0, Utf8.encode (printedText hits), err⟩ =
      String.ofList (printedText hits) := outputText_encode (return_not_mem_printedText hits)
  have hstatus : ¬(0 : ℤ) = 1 := by decide
  rw [search, hask]
  simp only [bind, Except.bind, hstatus, decide_false, Bool.false_and, Bool.false_eq_true, if_false,
    ne_eq, not_true, htext, String.toList_ofList, lines_printedText, foldlM_foundLine?,
    List.nil_append]
  rfl

/-- A search that prints its matches finds them, each with its whole text and in their order,
exactly if their line numbers can be read and their texts have no line breaks of any kind. If it
finds anything at all, it finds each match up to the first line break of its text. -/
theorem search_matches_iff
    (hreply : repo.git (Question.search pattern glob).arguments =
      .ok ⟨0, Utf8.encode (printedText hits), err⟩) :
    (repo.search pattern glob = .ok (.ok (hits.map foundLine)) ↔ ∀ hit ∈ hits, hit.IsLegible) ∧
      ∀ found, repo.search pattern glob = .ok (.ok found) →
        (hits.map cutLine).Sublist found := by
  rw [search_of_output hreply]
  refine ⟨⟨fun hwhole => ?_, fun hlegible => ?_⟩, fun found hfound => ?_⟩
  · obtain ⟨shown, hshown, hfound⟩ := map_eq_ok_iff.mp (Except.ok.inj hwhole)
    obtain ⟨hsublist, hnumbers⟩ := sublist_reduceOption hshown
    -- as many lines are found as there are matches, so none of them is cut
    rw [hfound] at hsublist
    have hsame : hits.map cutLine = hits.map foundLine := hsublist.eq_of_length (by simp)
    have hcut : ∀ hit ∈ hits, hit.cutLine = hit.foundLine := List.map_inj_left.mp hsame
    exact fun hit hhit => ⟨hnumbers hit hhit, unbroken_of_cutLine_eq (hcut hit hhit)⟩
  · have hfound : (hits.map fun hit => some hit.foundLine).reduceOption = hits.map foundLine := by
      simp [List.reduceOption, List.filterMap_map]
    rw [mapM_pieces hlegible, Except.map, hfound]
  · obtain ⟨shown, hshown, rfl⟩ := map_eq_ok_iff.mp (Except.ok.inj hfound)
    exact (sublist_reduceOption hshown).1

/-- A repository in which git finds some matches. -/
def finding (hits : List PrintedMatch) : Repository where
  root := ⟨".", []⟩
  tree := .empty
  git _ := .ok { out := Utf8.encode (printedText hits) }

/-- Two matches, one with a text that looks like columns and has blanks that break no line, and one
with no text. -/
def columnedMatches : List PrintedMatch :=
  [{ file := "src/a b.ts".toList
     number := 12
     text := "\tf: 3:\u00a0(x) => y".toList
     colon_not_mem_file := by decide
     unbroken_file := by decide
     newline_not_mem_text := by decide
     return_not_mem_text := by decide },
   { file := "é".toList
     number := 10
     text := []
     colon_not_mem_file := by decide
     unbroken_file := by decide
     newline_not_mem_text := by decide
     return_not_mem_text := by decide }]

/-- Both are found with their whole texts. -/
theorem search_columnedMatches : (finding columnedMatches).search "f" none = .ok (.ok
    [⟨"src/a b.ts", 12, "\tf: 3:\u00a0(x) => y"⟩, ⟨"é", 10, ""⟩]) := by
  have hlegible : ∀ hit ∈ columnedMatches, hit.IsLegible := by
    rw [columnedMatches, List.forall_mem_cons, List.forall_mem_singleton]
    exact ⟨⟨by decide, by decide⟩, by decide, by decide⟩
  rw [(search_matches_iff rfl).1.mpr hlegible]
  rfl

/-- A match whose text goes on behind a form feed. -/
def pagedMatch : PrintedMatch where
  file := "a.ts".toList
  number := 1
  text := "x\x0cb.ts:9:y".toList
  colon_not_mem_file := by decide
  unbroken_file := by decide
  newline_not_mem_text := by decide
  return_not_mem_text := by decide

/-- Its text is cut at the form feed, and the rest is taken for another match. -/
theorem search_pagedMatch :
    (finding [pagedMatch]).search "x" none = .ok (.ok [⟨"a.ts", 1, "x"⟩, ⟨"b.ts", 9, "y"⟩]) ∧
      (finding [pagedMatch]).search "x" none ≠ .ok (.ok [pagedMatch.foundLine]) := by
  have hfound : (finding [pagedMatch]).search "x" none =
      .ok (.ok [⟨"a.ts", 1, "x"⟩, ⟨"b.ts", 9, "y"⟩]) := by
    decide +kernel
  refine ⟨hfound, ?_⟩
  rw [hfound]
  decide +kernel

end Git.Repository

end ChangeImpact
