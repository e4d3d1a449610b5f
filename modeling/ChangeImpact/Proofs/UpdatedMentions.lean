import ChangeImpact.Proofs.ReportedLines

/-!
# Mentions of renamed files

A line is reported for a renamed file if the old path stands anywhere on it. Where every mention was
updated, the old path can only stand inside the new one: no such line is reported if the new path
does not contain the old one, and every such line that mentions the new path is reported if it does.
-/

namespace ChangeImpact

open Text

namespace StalenessReport

variable {repo : Git.Repository} {changed : List ChangedFile} {base head doc : String}
  {config : ScanConfig} {number : ℕ} {old new line : List Char}

/-- Wherever the old path stands on a line, it lies inside a place where the new path stands. -/
def IsUpdated (old new line : List Char) : Prop :=
  ∀ n ≤ line.length, old <+: line.drop n →
    ∃ k ≤ n, new <+: line.drop k ∧ n + old.length ≤ k + new.length

/-- Whether a line is updated is checked place by place. -/
instance (old new line : List Char) : Decidable (IsUpdated old new line) :=
  inferInstanceAs (Decidable (∀ n ≤ line.length, old <+: line.drop n →
    ∃ k ≤ n, new <+: line.drop k ∧ n + old.length ≤ k + new.length))

/-- A text that stands inside another one is a part of it. -/
theorem infix_of_prefix_drop {place : List Char} {n : ℕ} (hnew : new <+: place)
    (hold : old <+: place.drop n) (hinside : n + old.length ≤ new.length) : old <:+: new := by
  obtain ⟨rest, rfl⟩ := hnew
  rw [List.drop_append_of_le_length (by omega)] at hold
  have hprefix : old <+: new.drop n := by
    refine List.prefix_of_prefix_length_le hold (List.prefix_append _ rest) ?_
    rw [List.length_drop]
    omega
  exact hprefix.isInfix.trans (List.drop_suffix n new).isInfix

/-- On an updated line the old path stands exactly if the new path does and contains the old one. -/
theorem IsUpdated.infix_iff (hupdated : IsUpdated old new line) :
    old <:+: line ↔ old <:+: new ∧ new <:+: line := by
  constructor
  · rintro ⟨left, right, rfl⟩
    have hhere : old <+: (left ++ old ++ right).drop left.length := by
      rw [List.append_assoc, List.drop_left]
      exact List.prefix_append old right
    obtain ⟨k, hk, hnew, hinside⟩ := hupdated left.length (by simp) hhere
    have hold : old <+: ((left ++ old ++ right).drop k).drop (left.length - k) := by
      rwa [List.drop_drop, Nat.add_sub_cancel' hk]
    exact ⟨infix_of_prefix_drop hnew hold (by omega),
      hnew.isInfix.trans (List.drop_suffix k _).isInfix⟩
  · rintro ⟨hold, hnew⟩
    exact hold.trans hnew

/-- The renamed files are those that came from another path. -/
theorem mem_renamedPaths {old new : String} : (old, new) ∈ renamedPaths changed ↔
    old ≠ "" ∧ ∃ file ∈ changed, file.status = .renamed ∧ file.oldPath = some old ∧
      file.path = new := by
  rw [renamedPaths, List.mem_filterMap]
  constructor
  · rintro ⟨file, hfile, hpaths⟩
    split at hpaths
    · next found hstatus hfound =>
      split_ifs at hpaths with hempty
      cases hpaths
      exact ⟨fun h => hempty (h ▸ rfl), file, hfile, hstatus, hfound, rfl⟩
    · cases hpaths
  · rintro ⟨hne, file, hfile, hstatus, hold, rfl⟩
    exact ⟨file, hfile, by simp [hstatus, hold, hne]⟩

/-- A line of a checked document has the entry of a renamed file exactly if the old path stands on
it. Where every mention of the old path was updated, it has the entry exactly if it mentions the new
path and the new path contains the old one. -/
theorem renamed_mem_references_iff {file : ChangedFile} {old : String} (hfile : file ∈ changed)
    (hstatus : file.status = .renamed) (hold : file.oldPath = some old)
    (hline : IsLine repo head config doc number line) :
    let entry : StaleReference :=
      ⟨doc, number, old, s!"referenced file was renamed to {file.path}"⟩
    let report := ofChanges repo changed base head config
    (entry ∈ report.references ↔ old ≠ "" ∧ old.toList <:+: line) ∧
      (IsUpdated old.toList file.path.toList line →
        (entry ∈ report.references ↔
          old ≠ "" ∧ old.toList <:+: file.path.toList ∧ file.path.toList <:+: line)) := by
  intro entry report
  have hrenamed : (old, file.path) ∈ (Stale.ofChanges repo changed base head).renamed ↔
      old ≠ "" :=
    mem_renamedPaths.trans (and_iff_left ⟨file, hfile, hstatus, hold, rfl⟩)
  have hentry : entry ∈ report.references ↔ old ≠ "" ∧ old.toList <:+: line := by
    rw [hline.mem_references_iff, renamed_mem_onLine_iff, hrenamed]
  refine ⟨hentry, fun hupdated => ?_⟩
  rw [hentry, hupdated.infix_iff]

/-- A line that mentions the old path is reported, and the updated line is not: the new path does
not contain the old one. -/
theorem renamed_mem_references_iff_moved :
    let changed := [changedSource "src/moved.ts" .renamed (some "src/move.ts")]
    let report (document : String) := ofChanges (documented document []) changed "main" "HEAD" {}
    let entry : StaleReference :=
      ⟨"README.md", 1, "src/move.ts", "referenced file was renamed to src/moved.ts"⟩
    entry ∈ (report "See src/move.ts.").references ∧
      IsUpdated "src/move.ts".toList "src/moved.ts".toList "See src/moved.ts.".toList ∧
      entry ∉ (report "See src/moved.ts.").references := by
  intro changed report entry
  have hstale : IsLine (documented "See src/move.ts." []) "HEAD" {} "README.md" 1
      "See src/move.ts.".toList := by decide +kernel
  have hline : IsLine (documented "See src/moved.ts." []) "HEAD" {} "README.md" 1
      "See src/moved.ts.".toList := by decide +kernel
  have hupdated : IsUpdated "src/move.ts".toList "src/moved.ts".toList
      "See src/moved.ts.".toList := by decide +kernel
  have hfile : changedSource "src/moved.ts" .renamed (some "src/move.ts") ∈ changed :=
    List.mem_singleton_self _
  refine ⟨(renamed_mem_references_iff hfile rfl rfl hstale).1.mpr (by decide +kernel), hupdated,
    fun hmem => ?_⟩
  have hinside := ((renamed_mem_references_iff hfile rfl rfl hline).2 hupdated).mp hmem
  exact absurd hinside (by decide +kernel)

/-- Where the new path contains the old one, a line with no mention but the new path is reported. -/
theorem references_of_longer_extension :
    let changed := [changedSource "src/a.tsx" .renamed (some "src/a.ts")]
    let repo := documented "See src/a.tsx." []
    let line := "See src/a.tsx.".toList
    IsLine repo "HEAD" {} "README.md" 1 line ∧
      IsUpdated "src/a.ts".toList "src/a.tsx".toList line ∧
      (ofChanges repo changed "main" "HEAD" {}).references =
        [⟨"README.md", 1, "src/a.ts", "referenced file was renamed to src/a.tsx"⟩] := by
  decide +kernel

end StalenessReport

end ChangeImpact
