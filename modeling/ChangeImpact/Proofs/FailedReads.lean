import ChangeImpact.Proofs.ReportedLines

/-!
# Names of files that cannot be read

The names that a modified file takes along are found by comparing its two versions. Where git fails
to show one of them, the other files take along the same names as ever. The file itself takes
nothing along if the old version cannot be read. If only the new one cannot, it counts as empty, and
all the exports of the old version are taken along, those that still exist among them.
-/

namespace ChangeImpact

namespace Git.Repository

/-- Git does not give the content of a file, nor does it say that the ref has no such file. -/
def Fails (repo : Repository) (ref path : String) : Prop :=
  ∃ fault, repo.content ref path = .error fault ∧ fault ≠ .missingFile ref path

end Git.Repository

namespace RemovedName

variable {repo failing : Git.Repository} {changed : List ChangedFile} {base head path : String}
  {file : ChangedFile}

/-- The names that a file takes along depend on its two versions alone. -/
theorem ofFile_congr (hversions : ∀ ref ∈ [base, head],
    failing.content ref file.path = repo.content ref file.path) :
    ofFile failing base head file = ofFile repo base head file := by
  have hbase : shown failing base file.path = shown repo base file.path := by
    rw [shown_eq, shown_eq, hversions base (by simp)]
  have hhead : shown failing head file.path = shown repo head file.path := by
    rw [shown_eq, shown_eq, hversions head (by simp)]
  simp only [ofFile, ofDeleted, ofModified, hbase, hhead]

/-- What cannot be read has no exports. -/
theorem exportNames_empty : exportNames "" = [] := rfl

/-- A modified source file whose old version cannot be read takes nothing along. -/
theorem ofFile_of_unread_base (hsource : file.category = .source)
    (hmodified : file.status = .modified) (hbase : shown repo base file.path = none) :
    ofFile repo base head file = [] := by
  simp [ofFile, hsource, hmodified, ofModified, hbase, exportNames_empty]

/-- A modified source file whose new version cannot be read takes all its old exports along. -/
theorem ofFile_of_unread_head (hsource : file.category = .source)
    (hmodified : file.status = .modified) (hhead : shown repo head file.path = none) :
    ofFile repo base head file =
      (exportNames ((shown repo base file.path).getD "")).map fun name => ⟨name, file.path⟩ := by
  simp [ofFile, hsource, hmodified, ofModified, hhead, exportNames_empty]

/-- Where git fails to show a version of a file, the other files take along what they take along
where it does not fail. If the file is a modified source file, it takes nothing along if its old
version is not given, and else, as it is the new version that fails, all the exports of the old
one. -/
theorem ofChanges_of_failure
    (hfails : failing.Fails base path ∨ failing.Fails head path)
    (hothers : ∀ file ∈ changed, file.path ≠ path → ∀ ref ∈ [base, head],
      failing.content ref file.path = repo.content ref file.path) :
    (ofChanges failing changed base head = changed.flatMap fun file =>
      if file.path = path then ofFile failing base head file else ofFile repo base head file) ∧
    ∀ file ∈ changed, file.path = path → file.category = .source → file.status = .modified →
      ((∃ fault, failing.content base path = .error fault) →
        ofFile failing base head file = []) ∧
      ∀ before, failing.content base path = .ok before →
        ofFile failing base head file = (exportNames before).map fun name => ⟨name, path⟩ := by
  constructor
  · refine List.flatMap_congr fun file hfile => ?_
    split_ifs with hpath
    · rfl
    · exact ofFile_congr (hothers file hfile hpath)
  · rintro file - rfl hsource hmodified
    refine ⟨?_, fun before hbefore => ?_⟩
    · rintro ⟨fault, hbase⟩
      refine ofFile_of_unread_base hsource hmodified ?_
      rw [shown_eq, hbase]
      rfl
    · obtain ⟨fault, hbase, -⟩ | ⟨fault, hhead, -⟩ := hfails
      · rw [hbefore] at hbase
        cases hbase
      · have hunread : shown failing head file.path = none := by
          rw [shown_eq, hhead]
          rfl
        have hshown : shown failing base file.path = some before := by
          rw [shown_eq, hbefore]
          rfl
        rw [ofFile_of_unread_head hsource hmodified hunread, hshown, Option.getD_some]

section Example

open StalenessReport

/-- Two modified files, of which the second loses its export. Git shows the new version of the first
one only if it is given. -/
def twoFiles (files : List (String × String × String)) : Git.Repository :=
  documented "" (files ++
    [("main", "a.ts", "export function f() {}\n"), ("main", "b.ts", "export function g() {}\n"),
      ("HEAD", "b.ts", "")])

/-- The file that cannot be read takes its export along, and the other file its own as before. -/
theorem ofChanges_of_failure_head :
    let repo := twoFiles [("HEAD", "a.ts", "export function f() {}\n")]
    let failing := twoFiles []
    let changed := [changedSource "a.ts" .modified none, changedSource "b.ts" .modified none]
    failing.Fails "HEAD" "a.ts" ∧
      (∀ file ∈ changed, file.path ≠ "a.ts" → ∀ ref ∈ ["main", "HEAD"],
        failing.content ref file.path = repo.content ref file.path) ∧
      failing.content "main" "a.ts" = .ok "export function f() {}\n" ∧
      ofFile failing "main" "HEAD" (changedSource "a.ts" .modified none) = [⟨"f", "a.ts"⟩] ∧
      ofChanges failing changed "main" "HEAD" =
        ofFile failing "main" "HEAD" (changedSource "a.ts" .modified none) ++
          ofFile repo "main" "HEAD" (changedSource "b.ts" .modified none) := by
  intro repo failing changed
  have hfails : failing.Fails "HEAD" "a.ts" :=
    ⟨.failed "show HEAD:a.ts" "fatal: unable to read object", by decide +kernel, by decide⟩
  have hothers : ∀ file ∈ changed, file.path ≠ "a.ts" → ∀ ref ∈ ["main", "HEAD"],
      failing.content ref file.path = repo.content ref file.path := by decide +kernel
  have hbase : failing.content "main" "a.ts" = .ok "export function f() {}\n" := by decide +kernel
  obtain ⟨hchanged, hfile⟩ := ofChanges_of_failure (.inr hfails) hothers
  refine ⟨hfails, hothers, hbase, ?_, hchanged.trans (by simp [changed, changedSource])⟩
  rw [(hfile _ List.mem_cons_self rfl rfl rfl).2 _ hbase]
  decide +kernel

/-- Both versions have the same export, but it is removed if git fails to show the new one. -/
theorem ofChanges_of_unread_head :
    let changed := [changedSource "a.ts" .modified none]
    ofChanges (twoFiles [("HEAD", "a.ts", "export function f() {}\n")]) changed "main" "HEAD" = [] ∧
      (twoFiles []).Fails "HEAD" "a.ts" ∧
      ofChanges (twoFiles []) changed "main" "HEAD" = [⟨"f", "a.ts"⟩] := by
  intro changed
  have hfails : (twoFiles []).Fails "HEAD" "a.ts" :=
    ⟨.failed "show HEAD:a.ts" "fatal: unable to read object", by decide +kernel, by decide⟩
  exact ⟨by decide +kernel, hfails, by decide +kernel⟩

end Example

end RemovedName

end ChangeImpact
