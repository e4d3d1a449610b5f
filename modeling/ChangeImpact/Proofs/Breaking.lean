import ChangeImpact.Breaking
import Mathlib.Data.List.Basic

/-!
# Breaking changes file by file

A change set is reported file by file, and a file that git cannot show is skipped. Two comparisons
decide whether a signature changed: that of the symbols, which takes a missing signature for an
empty one, and that of the signatures, which tells the two apart. Every pair of symbols that differs
for the first and is of one kind differs for the second too, so no modified export is dropped.
-/

namespace ChangeImpact

/-- Modified pairs are those of symbols that differ. -/
theorem ExportDiff.differs_of_mem_modified {base head : List ExportedSymbol}
    {pair : ExportedSymbol × ExportedSymbol} (hpair : pair ∈ (ofSymbols base head).modified) :
    differs pair.1 pair.2 = true := by
  obtain ⟨before, -, hfound⟩ := List.mem_filterMap.mp hpair
  cases hafter : find? head before.key with
  | none => simp [hafter] at hfound
  | some after =>
    simp only [hafter, Option.ite_none_right_eq_some, Option.some.injEq] at hfound
    obtain ⟨hdiffers, rfl⟩ := hfound
    exact hdiffers

/-- Signatures compare as changed exactly if one of them is missing or their collapsed forms
differ. -/
theorem SignatureDiff.changed_compare_iff {base head : Option String} :
    (compare base head).changed = true ↔
      base.map (fun text => Text.collapse text.toList) ≠
        head.map (fun text => Text.collapse text.toList) := by
  cases base with
  | none => cases head <;> simp [compare]
  | some base =>
    cases head with
    | none => simp [compare]
    | some head =>
      simp only [compare, Option.map_some, ne_eq, Option.some.injEq]
      by_cases hsame : Text.collapse base.toList = Text.collapse head.toList
      · simp [hsame]
      · rw [if_neg hsame]
        split <;> simp [hsame]

/-- The signature by which symbols are compared takes a missing one for an empty one. -/
theorem ExportedSymbol.plainSignature_eq (s : ExportedSymbol) :
    s.plainSignature = (s.signature.map fun text => Text.collapse text.toList).getD [] := by
  unfold plainSignature
  cases s.signature <;> rfl

/-- Symbols of one kind that differ have signatures that compare as changed. -/
theorem SignatureDiff.changed_compare_of_differs {before after : ExportedSymbol}
    (hkind : before.kind = after.kind) (hdiffers : ExportDiff.differs before after = true) :
    (compare before.signature after.signature).changed = true := by
  have hplain : before.plainSignature ≠ after.plainSignature := by
    simpa [ExportDiff.differs, hkind] using hdiffers
  rw [changed_compare_iff]
  intro hsame
  apply hplain
  rw [before.plainSignature_eq, after.plainSignature_eq, hsame]

namespace Git.Repository

variable {repo : Repository} {ref path : String}

/-- A file that git shows is there. -/
theorem contentIfAny_of_ok {text : String} (hcontent : repo.content ref path = .ok text) :
    repo.contentIfAny ref path = .ok (some text) := by
  rw [contentIfAny, hcontent]

/-- A file that git does not show is taken to be absent, or asking for it fails. -/
theorem contentIfAny_of_error {fault : Fault} (hcontent : repo.content ref path = .error fault) :
    repo.contentIfAny ref path = .ok none ∨ repo.contentIfAny ref path = .error fault := by
  rw [contentIfAny, hcontent]
  cases fault <;> simp

end Git.Repository

namespace BreakingChange

variable {repo : Git.Repository} {base head : String} {map : Option ReverseMap}
  {file : ChangedFile}

/-- Every modified pair is an alteration: of the type if the kinds differ, else of the signature. -/
theorem alteration?_of_mem_modified {before after : List ExportedSymbol}
    {pair : ExportedSymbol × ExportedSymbol}
    (hpair : pair ∈ (ExportDiff.ofSymbols before after).modified) (path : String)
    (consumers : List String) :
    alteration? path consumers pair = some
      { filePath := path
        kind := if pair.1.kind = pair.2.kind then .changedSignature else .changedType
        symbolName := pair.1.name
        before := pair.1.description
        after := some pair.2.description
        severity := .medium
        consumers := consumers } := by
  by_cases hkind : pair.1.kind = pair.2.kind
  · have hchanged := SignatureDiff.changed_compare_of_differs hkind
      (ExportDiff.differs_of_mem_modified hpair)
    simp [alteration?, hkind, hchanged, BreakingKind.severity]
  · simp [alteration?, hkind, BreakingKind.severity]

/-- A change set is reported file by file. -/
theorem ofChanges_eq_flatMap (changed : List ChangedFile) :
    ofChanges repo base head changed map =
      changed.flatMap fun file => ofChanges repo base head [file] map := by
  induction changed with
  | nil => simp [ofChanges]
  | cons file rest ih =>
    rw [List.flatMap_cons, ← ih]
    by_cases hcandidate : isCandidate file = true
    · simp [ofChanges, hcandidate]
    · simp [ofChanges, hcandidate]

/-- The files that are compared are the modified and deleted modules. -/
theorem isCandidate_iff :
    isCandidate file = true ↔
      (file.status = .modified ∨ file.status = .deleted) ∧
        Path.extension file.path ∈ [".ts", ".tsx", ".js", ".jsx"] := by
  simp only [isCandidate, moduleExtensions, Bool.and_eq_true, Bool.or_eq_true,
    decide_eq_true_eq, List.contains_iff_mem]
  exact and_comm

/-- A file that is compared is reported as its comparison says; a failed one is skipped. -/
theorem ofChanges_singleton (hcandidate : isCandidate file = true) :
    ofChanges repo base head [file] map = (ofFile repo base head map file).toOption.getD [] := by
  simp only [ofChanges, hcandidate, List.filter_cons_of_pos, List.filter_nil,
    List.flatMap_singleton]
  cases ofFile repo base head map file <;> rfl

/-- A file that cannot be shown at the base is skipped. -/
theorem ofFile_of_base_error {fault : Git.Fault}
    (hbase : repo.content base file.path = .error fault) :
    (ofFile repo base head map file).toOption.getD [] = [] := by
  unfold ofFile
  rcases Git.Repository.contentIfAny_of_error hbase with hnone | herror
  · rw [hnone]
    rfl
  · rw [herror]
    rfl

/-- A deleted file loses every export that it has at the base. -/
theorem ofFile_of_deleted {text : String} (hstatus : file.status = .deleted)
    (hbase : repo.content base file.path = .ok text) :
    ofFile repo base head map file =
      .ok (ofDeleted file.path (map.elim [] (·.dependents file.path)) text) := by
  unfold ofFile
  rw [Git.Repository.contentIfAny_of_ok hbase, hstatus]
  cases map <;> rfl

/-- A modified file that cannot be shown at the head is skipped. -/
theorem ofFile_of_head_error {fault : Git.Fault} (hstatus : file.status = .modified)
    (hhead : repo.content head file.path = .error fault) :
    (ofFile repo base head map file).toOption.getD [] = [] := by
  cases hbase : repo.content base file.path with
  | error fault => exact ofFile_of_base_error hbase
  | ok text =>
    unfold ofFile
    rw [Git.Repository.contentIfAny_of_ok hbase, hstatus]
    rcases Git.Repository.contentIfAny_of_error hhead with hnone | herror
    · rw [hnone]
      rfl
    · rw [herror]
      rfl

/-- A modified file that is shown at both refs is compared. -/
theorem ofFile_of_modified {before after : String} (hstatus : file.status = .modified)
    (hbase : repo.content base file.path = .ok before)
    (hhead : repo.content head file.path = .ok after) :
    ofFile repo base head map file =
      .ok (ofModified file.path (map.elim [] (·.dependents file.path)) before after) := by
  unfold ofFile
  rw [Git.Repository.contentIfAny_of_ok hbase, Git.Repository.contentIfAny_of_ok hhead, hstatus]
  cases map <;> rfl

/-- A change set is reported file by file, in its order, and a file that git does not show is
skipped. A deleted module loses all of its exports; a modified one loses the removed exports, and
each modified pair is one change. -/
theorem ofChanges_by_file (repo : Git.Repository) (base head : String) (map : Option ReverseMap) :
    let report := fun changed => ofChanges repo base head changed map
    (∀ changed, report changed = changed.flatMap fun file => report [file]) ∧
      ∀ file : ChangedFile,
        let compared := (file.status = .modified ∨ file.status = .deleted) ∧
          Path.extension file.path ∈ [".ts", ".tsx", ".js", ".jsx"]
        let consumers := map.elim [] (·.dependents file.path)
        let lost := fun symbol : ExportedSymbol => ({
          filePath := file.path
          kind := .removedExport
          symbolName := symbol.name
          before := symbol.description
          after := none
          severity := .high
          consumers := consumers } : BreakingChange)
        let altered := fun pair : ExportedSymbol × ExportedSymbol => ({
          filePath := file.path
          kind := if pair.1.kind = pair.2.kind then .changedSignature else .changedType
          symbolName := pair.1.name
          before := pair.1.description
          after := some pair.2.description
          severity := .medium
          consumers := consumers } : BreakingChange)
        (¬ compared → report [file] = []) ∧
          (∀ fault, repo.content base file.path = .error fault → report [file] = []) ∧
          (∀ fault, file.status = .modified → repo.content head file.path = .error fault →
            report [file] = []) ∧
          (∀ before, compared → file.status = .deleted →
            repo.content base file.path = .ok before →
            report [file] = (Export.symbols before).map lost) ∧
          (∀ before after, compared → file.status = .modified →
            repo.content base file.path = .ok before → repo.content head file.path = .ok after →
            report [file] = (ExportDiff.ofTexts before after).removed.map lost ++
              (ExportDiff.ofTexts before after).modified.map altered) := by
  intro report
  refine ⟨ofChanges_eq_flatMap, fun file => ?_⟩
  intro compared consumers lost altered
  have hskipped (hnot : ¬ compared) : report [file] = [] := by
    have hcandidate : ¬ isCandidate file = true := fun h => hnot (isCandidate_iff.mp h)
    simp [report, ofChanges, hcandidate]
  have hreport (hcompared : compared) :
      report [file] = (ofFile repo base head map file).toOption.getD [] :=
    ofChanges_singleton (isCandidate_iff.mpr hcompared)
  have hunread (hnone : (ofFile repo base head map file).toOption.getD [] = []) :
      report [file] = [] := by
    by_cases hcompared : compared
    · rw [hreport hcompared, hnone]
    · exact hskipped hcompared
  refine ⟨hskipped, fun fault hbase => hunread (ofFile_of_base_error hbase),
    fun fault hstatus hhead => hunread (ofFile_of_head_error hstatus hhead),
    fun before hcompared hstatus hbase => ?_,
    fun before after hcompared hstatus hbase hhead => ?_⟩
  · rw [hreport hcompared, ofFile_of_deleted hstatus hbase]
    rfl
  · rw [hreport hcompared, ofFile_of_modified hstatus hbase hhead]
    have haltered :
        (ExportDiff.ofTexts before after).modified.filterMap (alteration? file.path consumers) =
          (ExportDiff.ofTexts before after).modified.map altered := by
      rw [← List.filterMap_eq_map]
      refine List.filterMap_congr fun pair hpair => ?_
      exact alteration?_of_mem_modified hpair file.path consumers
    exact congrArg (_ ++ ·) haltered

/-- Beside a file that git cannot show, a modified module still loses its removed export. -/
theorem ofChanges_by_file_removed_export :
    let shown := Text.Utf8.encode "export const n = 1;".toList
    let repo : Git.Repository :=
      { root := ⟨".", []⟩
        tree := .empty
        git := fun arguments =>
          if arguments = ["show", "base:a.ts"] then .ok { out := shown }
          else if arguments = ["show", "head:a.ts"] then .ok {}
          else .error .notPermitted }
    let unread : ChangedFile := { path := "b.ts", status := .deleted, category := .source }
    let read : ChangedFile := { path := "a.ts", status := .modified, category := .source }
    repo.content "base" "a.ts" = .ok "export const n = 1;" ∧ repo.content "head" "a.ts" = .ok "" ∧
      ofChanges repo "base" "head" [unread, read] none =
        [⟨"a.ts", .removedExport, "n", "const n", none, .high, []⟩] := by
  intro shown repo unread read
  have hbase : repo.content "base" "a.ts" = .ok "export const n = 1;" := by rfl
  have hhead : repo.content "head" "a.ts" = .ok "" := by rfl
  obtain ⟨hsplit, hfiles⟩ := ofChanges_by_file repo "base" "head" none
  obtain ⟨-, hunread, -⟩ := hfiles unread
  obtain ⟨-, -, -, -, hread⟩ := hfiles read
  refine ⟨hbase, hhead, (hsplit [unread, read]).trans ?_⟩
  simp only [List.flatMap_cons, List.flatMap_nil, hunread _ rfl,
    hread _ _ (by decide +kernel) rfl hbase hhead]
  decide +kernel

end BreakingChange

end ChangeImpact
