import ChangeImpact.Proofs.Breaking
import ChangeImpact.Proofs.DeclaredName
import ChangeImpact.Proofs.Outcome
import ChangeImpact.Proofs.SymbolKeys

/-!
# Removed exports in the documentation check

The exports of a module are found in its text without comments, pass by pass. A declaration that a
pass finds is read by the pattern of the documentation check too, unless a comment, `abstract` or a
dollar sign is in the way. A removed export is therefore looked for unless the new text still
declares its name, be it in a comment.
-/

namespace ChangeImpact

namespace Export

open Text

/-- A symbol that a pass finds in the old text, and of whose name the new one has no symbol, is
counted as removed. -/
theorem exists_mem_removed {before after : String} {symbol : ExportedSymbol}
    {pass : List Char → List ExportedSymbol} (hpass : pass ∈ passes)
    (hsymbol : symbol ∈ pass (withoutComments before.toList))
    (hgone : ∀ other ∈ symbols after, other.name ≠ symbol.name) :
    ∃ removed ∈ (ExportDiff.ofTexts before after).removed, removed.name = symbol.name := by
  have hfound : symbol ∈ passes.flatMap fun pass => pass (withoutComments before.toList) :=
    List.mem_flatMap.mpr ⟨pass, hpass, hsymbol⟩
  obtain ⟨kept, hkept, hkey⟩ := exists_mem_firstByKey hfound
  have hname : kept.name = symbol.name := congrArg Prod.snd hkey
  refine ⟨kept, List.mem_filter.mpr ⟨hkept, ?_⟩, hname⟩
  rw [Option.isNone_iff_eq_none, ExportDiff.find?, List.find?_eq_none]
  intro other hother
  rw [beq_iff_eq]
  intro hsame
  have hnames : other.name = kept.name := congrArg Prod.snd hsame
  exact hgone other hother (hnames.trans hname)

end Export

namespace RemovedName

open Text Export

/-! ### Declarations that the passes find -/

/-- The passes that look for declarations with a name. -/
def declarationPasses : List (List Char → List ExportedSymbol) :=
  [defaultFunctions, functions, defaultClasses, classes, bindings, interfaces, types, enums]

section Passes

variable {place behind after name : List Char} {word : String}

/-- A declaration with a single word behind `export` stands there. -/
theorem introduces_of_spaced {behindExport behindWord : List Char} (hword : word ∈ declaringWords)
    (hexport : exportMark place = some ((), behindExport))
    (hspaced : spaced word behindExport = some ((), behindWord))
    (hname : Scanner.name behindWord = some (name, after)) : Introduces place name after := by
  have hkeyword := declaringWords_subset hword
  have hdefault : "default" ≠ word := by
    rintro rfl
    exact absurd hword (by decide)
  have hasync : "async" ≠ word := by
    rintro rfl
    exact absurd hword (by decide)
  exact ⟨_, _, _, _, false, false, word, hword, hexport,
    attempt_of_keyword hkeyword (by decide) hdefault hspaced,
    attempt_of_keyword hkeyword (by decide) hasync hspaced, hspaced, hname⟩

/-- Behind the word `function` stands a name. -/
theorem steps_of_namedFunction {signature : List Char}
    (hread : namedFunction behind = some ((name, signature), after)) :
    ∃ isAsync behindAsync behindWord behindName,
      Scanner.attempt (spaced "async") behind = some (isAsync, behindAsync) ∧
      spaced "function" behindAsync = some ((), behindWord) ∧
      Scanner.name behindWord = some (name, behindName) := by
  simp only [namedFunction, functionWord, Scanner.bind_apply, Option.bind_eq_some_iff] at hread
  obtain ⟨⟨⟨⟩, behindFunction⟩, ⟨⟨isAsync, behindAsync⟩, hasync, hfunction⟩,
    ⟨gap, behindGap⟩, hgap, ⟨found, behindName⟩, hname, skipped, -, signed, -, hresult⟩ := hread
  cases hresult
  refine ⟨isAsync, behindAsync, behindGap, behindName, hasync, ?_, hname⟩
  rw [spaced, Scanner.bind_apply, hfunction, Option.bind_some, Scanner.bind_apply, hgap]
  rfl

/-- A class whose text has no `abstract` is declared by the word `class`. -/
theorem steps_of_classWord (habstract : Without "abstract".toList behind)
    (hread : classWord behind = some (name, after)) :
    ∃ behindWord, spaced "class" behind = some ((), behindWord) ∧
      Scanner.name behindWord = some (name, after) := by
  simp only [classWord, Scanner.bind_apply, Option.bind_eq_some_iff] at hread
  obtain ⟨⟨isAbstract, behindAbstract⟩, hattempt, ⟨⟨⟩, behindWord⟩, hspaced, hname⟩ := hread
  obtain ⟨-, hread⟩ | ⟨-, rfl⟩ := spaced_of_attempt hattempt
  · obtain ⟨gap, -, -, rfl⟩ := spaced_eq_some hread
    exact absurd (List.prefix_append _ _).isInfix habstract
  · exact ⟨behindWord, hspaced, hname⟩

/-- A default mark is `export` with `default` behind it. -/
theorem steps_of_defaultMark (hread : defaultMark place = some ((), behind)) :
    ∃ behindExport, exportMark place = some ((), behindExport) ∧
      spaced "default" behindExport = some ((), behind) := by
  simp only [defaultMark, Scanner.bind_apply, Option.bind_eq_some_iff] at hread
  obtain ⟨⟨⟨⟩, behindExport⟩, hexport, hdefault⟩ := hread
  exact ⟨behindExport, hexport, hdefault⟩

/-- A default function that is read is declared. -/
theorem introduces_of_defaultFunction {signature : List Char}
    (hread : (defaultMark >>= fun _ => namedFunction) place = some ((name, signature), after)) :
    ∃ behindName, Introduces place name behindName := by
  rw [Scanner.bind_apply, Option.bind_eq_some_iff] at hread
  obtain ⟨⟨⟨⟩, behindDefault⟩, hmark, hfunction⟩ := hread
  obtain ⟨behindExport, hexport, hdefault⟩ := steps_of_defaultMark hmark
  obtain ⟨isAsync, behindAsync, behindWord, behindName, hasync, hspaced, hname⟩ :=
    steps_of_namedFunction hfunction
  exact ⟨behindName, _, _, _, _, true, isAsync, "function", by decide, hexport,
    attempt_of_spaced hdefault, hasync, hspaced, hname⟩

/-- A function that is read is declared: its name is not mistaken for `default`. -/
theorem introduces_of_function {signature : List Char}
    (hread : (exportMark >>= fun _ => namedFunction) place = some ((name, signature), after)) :
    ∃ behindName, Introduces place name behindName := by
  rw [Scanner.bind_apply, Option.bind_eq_some_iff] at hread
  obtain ⟨⟨⟨⟩, behindExport⟩, hexport, hfunction⟩ := hread
  obtain ⟨isAsync, behindAsync, behindWord, behindName, hasync, hspaced, hname⟩ :=
    steps_of_namedFunction hfunction
  have hdefault : Scanner.attempt (spaced "default") behindExport = some (false, behindExport) := by
    obtain ⟨-, hread⟩ | ⟨-, rfl⟩ := spaced_of_attempt hasync
    · exact attempt_of_keyword (by decide) (by decide) (by decide) hread
    · exact attempt_of_keyword (by decide) (by decide) (by decide) hspaced
  exact ⟨behindName, _, _, _, _, false, isAsync, "function", by decide, hexport, hdefault, hasync,
    hspaced, hname⟩

/-- Behind what is read, a text that has no mark has none. -/
theorem without_of_suffix {mark text : List Char} (htext : Without mark text)
    (hbehind : behind <:+ text) : Without mark behind := fun h => htext (h.trans hbehind.isInfix)

/-- A default class that is read is declared, if it is not abstract. -/
theorem introduces_of_defaultClass (habstract : Without "abstract".toList place)
    (hread : (defaultMark >>= fun _ => classWord) place = some (name, after)) :
    Introduces place name after := by
  rw [Scanner.bind_apply, Option.bind_eq_some_iff] at hread
  obtain ⟨⟨⟨⟩, behindDefault⟩, hmark, hclass⟩ := hread
  obtain ⟨behindExport, hexport, hdefault⟩ := steps_of_defaultMark hmark
  have hbehind : behindDefault <:+ place := by
    obtain ⟨gap, -, -, rfl⟩ := spaced_eq_some hdefault
    have hspaced : spaced "export" place = some ((), _) := hexport
    obtain ⟨more, -, -, rfl⟩ := spaced_eq_some hspaced
    exact ⟨"export".toList ++ (more ++ ("default".toList ++ gap)), by simp only [List.append_assoc]⟩
  obtain ⟨behindWord, hspaced, hname⟩ :=
    steps_of_classWord (without_of_suffix habstract hbehind) hclass
  exact ⟨_, _, _, _, true, false, "class", by decide, hexport, attempt_of_spaced hdefault,
    attempt_of_keyword (by decide) (by decide) (by decide) hspaced, hspaced, hname⟩

/-- A class that is read is declared, if it is not abstract. -/
theorem introduces_of_class (habstract : Without "abstract".toList place)
    (hread : (exportMark >>= fun _ => classWord) place = some (name, after)) :
    Introduces place name after := by
  rw [Scanner.bind_apply, Option.bind_eq_some_iff] at hread
  obtain ⟨⟨⟨⟩, behindExport⟩, hexport, hclass⟩ := hread
  have hbehind : behindExport <:+ place := by
    have hspaced : spaced "export" place = some ((), behindExport) := hexport
    obtain ⟨more, -, -, rfl⟩ := spaced_eq_some hspaced
    exact ⟨"export".toList ++ more, by rw [List.append_assoc]⟩
  obtain ⟨behindWord, hspaced, hname⟩ :=
    steps_of_classWord (without_of_suffix habstract hbehind) hclass
  exact introduces_of_spaced (by decide) hexport hspaced hname

/-- A variable that is read is declared. -/
theorem introduces_of_variableForm {type : Option (List Char)}
    (hread : variableForm place = some ((word, name, type), after)) :
    ∃ behindName, Introduces place name behindName := by
  simp only [variableForm, Scanner.bind_apply, Option.bind_eq_some_iff] at hread
  obtain ⟨⟨⟨⟩, behindExport⟩, hexport, ⟨keyword, behindKeyword⟩, hkeyword, ⟨gap, behindGap⟩, hgap,
    ⟨found, behindName⟩, hname, skipped, -, typed, -, hresult⟩ := hread
  cases hresult
  obtain ⟨hmem, hexact⟩ := Scanner.exactly_of_oneOf hkeyword
  have hspaced : spaced keyword behindExport = some ((), behindGap) := by
    rw [spaced, Scanner.bind_apply, hexact, Option.bind_some, Scanner.bind_apply, hgap]
    rfl
  have hwords : ["const", "let", "var"] ⊆ declaringWords := by decide
  exact ⟨behindName, introduces_of_spaced (hwords hmem) hexport hspaced hname⟩

/-- A name that is read behind a declaring word is declared. -/
theorem introduces_of_keywordForm (hword : word ∈ declaringWords)
    (hread : keywordForm word place = some (name, after)) : Introduces place name after := by
  simp only [keywordForm, Scanner.bind_apply, Option.bind_eq_some_iff] at hread
  obtain ⟨⟨⟨⟩, behindExport⟩, hexport, ⟨⟨⟩, behindWord⟩, hspaced, hname⟩ := hread
  exact introduces_of_spaced hword hexport hspaced hname

/-- What a scanner finds is declared in the text, if the scanner reads declarations. -/
theorem exists_introduces_of_found {α : Type} {scan : Scanner α} {text : List Char}
    {found : Occurrence α} (hfound : found ∈ occurrences scan text)
    (hscan : ∀ place, place <:+ text → scan place = some (found.value, found.after) →
      ∃ behindName, Introduces place name behindName) :
    ∃ place after, place <:+ text ∧ Introduces place (String.ofList name).toList after := by
  obtain ⟨place, hplace, hread⟩ := exists_place_of_mem_occurrencesFrom hfound
  obtain ⟨behindName, hintroduces⟩ := hscan place hplace hread
  exact ⟨place, behindName, hplace, by rwa [String.toList_ofList]⟩

/-- A symbol that a pass for declarations finds is declared at some place of the text; that of a
class is, if the text has no `abstract`. -/
theorem exists_introduces_of_mem_pass {text : List Char} {symbol : ExportedSymbol}
    {pass : List Char → List ExportedSymbol} (hpass : pass ∈ declarationPasses)
    (hsymbol : symbol ∈ pass text)
    (habstract : symbol.kind = .classType → Without "abstract".toList text) :
    ∃ place after, place <:+ text ∧ Introduces place symbol.name.toList after := by
  simp only [declarationPasses, List.mem_cons, List.not_mem_nil, or_false] at hpass
  obtain rfl | rfl | rfl | rfl | rfl | rfl | rfl | rfl := hpass
  · obtain ⟨found, hfound, rfl⟩ := List.mem_map.mp hsymbol
    exact exists_introduces_of_found hfound fun place _ => introduces_of_defaultFunction
  · obtain ⟨found, hfound, rfl⟩ := List.mem_map.mp hsymbol
    exact exists_introduces_of_found (List.mem_of_mem_filter hfound) fun place _ =>
      introduces_of_function
  · obtain ⟨found, hfound, rfl⟩ := List.mem_map.mp hsymbol
    exact exists_introduces_of_found hfound fun place hplace hread =>
      ⟨_, introduces_of_defaultClass (without_of_suffix (habstract rfl) hplace) hread⟩
  · obtain ⟨found, hfound, rfl⟩ := List.mem_map.mp hsymbol
    exact exists_introduces_of_found (List.mem_of_mem_filter hfound) fun place hplace hread =>
      ⟨_, introduces_of_class (without_of_suffix (habstract rfl) hplace) hread⟩
  · obtain ⟨found, hfound, rfl⟩ := List.mem_map.mp hsymbol
    exact exists_introduces_of_found hfound fun place _ => introduces_of_variableForm
  · obtain ⟨found, hfound, rfl⟩ := List.mem_map.mp hsymbol
    exact exists_introduces_of_found hfound fun place _ hread =>
      ⟨_, introduces_of_keywordForm (by decide) hread⟩
  · obtain ⟨found, hfound, rfl⟩ := List.mem_map.mp hsymbol
    exact exists_introduces_of_found (List.mem_of_mem_filter hfound) fun place _ hread =>
      ⟨_, introduces_of_keywordForm (by decide) hread⟩
  · obtain ⟨found, hfound, rfl⟩ := List.mem_map.mp hsymbol
    exact exists_introduces_of_found hfound fun place _ hread =>
      ⟨_, introduces_of_keywordForm (by decide) hread⟩

end Passes

/-! ### What is looked for -/

section Modified

variable {repo : Git.Repository} {changed : List ChangedFile} {file : ChangedFile}
  {base head before after : String}

/-- The name of a declaration and the text behind it end the text at its place. -/
theorem Introduces.suffix {place name behind : List Char}
    (hplace : Introduces place name behind) : name ++ behind <:+ place := by
  obtain ⟨behindExport, behindDefault, behindAsync, behindWord, _, _, word, -, hexport, hdefault,
    hasync, hspaced, hname⟩ := hplace
  have hword {word : String} {text rest : List Char} (hread : spaced word text = some ((), rest)) :
      rest <:+ text := by
    obtain ⟨gap, -, -, rfl⟩ := spaced_eq_some hread
    exact ⟨word.toList ++ gap, by rw [List.append_assoc]⟩
  have hoptional {word : String} {isThere : Bool} {text rest : List Char}
      (hread : Scanner.attempt (spaced word) text = some (isThere, rest)) : rest <:+ text := by
    obtain ⟨-, hread⟩ | ⟨-, rfl⟩ := spaced_of_attempt hread
    · exact hword hread
    · exact List.suffix_rfl
  obtain ⟨-, -, -, rfl⟩ := Scanner.run1_eq_some hname
  have hmark : spaced "export" place = some ((), behindExport) := hexport
  exact (hword hspaced).trans ((hoptional hasync).trans ((hoptional hdefault).trans (hword hmark)))

/-- A symbol is plainly declared if a pass for declarations finds it in a text without comments, its
name is an identifier that no dollar sign follows, and, for a class, the text has no `abstract`. -/
structure IsPlain (text : String) (symbol : ExportedSymbol) : Prop where
  found : ∃ pass ∈ declarationPasses, symbol ∈ pass text.toList
  without_comment : withoutComments text.toList = text.toList
  identifier : isIdentifier symbol.name.toList = true
  without_dollar : Without (symbol.name.toList ++ ['$']) text.toList
  without_abstract : symbol.kind = .classType → Without "abstract".toList text.toList

/-- The name of a plainly declared symbol is written out. -/
theorem IsPlain.writesOut {text : String} {symbol : ExportedSymbol} (hplain : IsPlain text symbol) :
    WritesOut text symbol.name := by
  obtain ⟨pass, hpass, hsymbol⟩ := hplain.found
  obtain ⟨place, behind, hplace, hintroduces⟩ :=
    exists_introduces_of_mem_pass hpass hsymbol hplain.without_abstract
  refine ⟨hplain.identifier, place, behind, hplace, hintroduces, fun c hc => ?_⟩
  rw [beq_eq_false_iff_ne]
  rintro rfl
  obtain ⟨more, rfl⟩ : ∃ more, behind = '$' :: more := by
    cases behind with
    | nil => cases hc
    | cons d more =>
      cases hc
      exact ⟨more, rfl⟩
  have hstands : symbol.name.toList ++ ['$'] <:+: symbol.name.toList ++ '$' :: more :=
    ⟨[], more, by simp⟩
  exact hplain.without_dollar (hstands.trans (hintroduces.suffix.trans hplace).isInfix)

/-- Plainly declared symbols of whose names the new text has no symbol are counted as removed. -/
theorem IsPlain.exists_mem_removed {symbol : ExportedSymbol} (hplain : IsPlain before symbol)
    (hgone : ∀ other ∈ Export.symbols after, other.name ≠ symbol.name) :
    ∃ removed ∈ (ExportDiff.ofTexts before after).removed, removed.name = symbol.name := by
  obtain ⟨pass, hpass, hsymbol⟩ := hplain.found
  have hpasses : declarationPasses ⊆ passes := by simp [declarationPasses, passes]
  refine Export.exists_mem_removed (hpasses hpass) ?_ hgone
  rw [hplain.without_comment]
  exact hsymbol

/-- A modified source file that git shows at both refs takes along the names that are found in the
old text and not in the new one. -/
theorem mem_ofFile_iff (hsource : file.category = .source) (hmodified : file.status = .modified)
    (hbefore : repo.content base file.path = .ok before)
    (hafter : repo.content head file.path = .ok after) (name : String) :
    ⟨name, file.path⟩ ∈ ofFile repo base head file ↔
      name ∈ exportNames before ∧ name ∉ exportNames after := by
  rw [ofFile, if_pos hsource, hmodified]
  simp [ofModified, shown, Git.Repository.contentIfAny_of_ok hbefore,
    Git.Repository.contentIfAny_of_ok hafter]

/-- A modified source file that git shows at both refs takes along the names that its old text
declares and the new one does not, comments included. So every export that the old text writes out
is looked for, be it counted as removed or not, unless the new text, comments included, still
declares its name. A plainly declared export is written out, and is counted as removed if the new
version has no export of its name. -/
theorem mem_ofChanges_of_modified (hfile : file ∈ changed) (hsource : file.category = .source)
    (hmodified : file.status = .modified)
    (hbefore : repo.content base file.path = .ok before)
    (hafter : repo.content head file.path = .ok after)
    (hapart : DeclaresApart before) (hapart' : DeclaresApart after) :
    (∀ name, ⟨name, file.path⟩ ∈ ofFile repo base head file ↔
      Declares before name ∧ ¬ Declares after name) ∧
    (∀ name, WritesOut before name →
      (⟨name, file.path⟩ ∈ ofFile repo base head file ↔ ¬ Declares after name) ∧
      (¬ Declares after name → ⟨name, file.path⟩ ∈ ofChanges repo changed base head)) ∧
    ∀ symbol, IsPlain before symbol →
      (∀ other ∈ Export.symbols after, other.name ≠ symbol.name) →
      WritesOut before symbol.name ∧
        ∃ removed ∈ (ExportDiff.ofTexts before after).removed, removed.name = symbol.name := by
  have hnames (name : String) : ⟨name, file.path⟩ ∈ ofFile repo base head file ↔
      Declares before name ∧ ¬ Declares after name := by
    rw [mem_ofFile_iff hsource hmodified hbefore hafter, mem_exportNames_iff hapart,
      mem_exportNames_iff hapart']
  refine ⟨hnames, fun name hwritten => ?_, fun symbol hplain hgone =>
    ⟨hplain.writesOut, hplain.exists_mem_removed hgone⟩⟩
  have hlooked : ⟨name, file.path⟩ ∈ ofFile repo base head file ↔ ¬ Declares after name := by
    rw [hnames]
    exact and_iff_right hwritten.declares
  exact ⟨hlooked, fun hkept => List.mem_flatMap.mpr ⟨file, hfile, hlooked.mpr hkept⟩⟩

/-- Whether a text declares a name is checked place by place. -/
instance (text name : String) : Decidable (Declares text name) :=
  decidable_of_iff
    (∃ place ∈ text.toList.tails, (declaration place).map (·.1) = some name.toList) (by
      simp [Declares, List.mem_tails, Option.map_eq_some_iff])

/-- So is whether no declared name ends like the start of a declaration. -/
instance (text : String) : Decidable (NamesEndApart text) :=
  decidable_of_iff
    (∀ place ∈ text.toList.tails, ∀ read ∈ declaration place, ¬ "export".toList <:+ read.1) (by
      constructor
      · rintro hplaces name ⟨place, behind, hplace, hread⟩
        exact hplaces place ((List.mem_tails _ _).mpr hplace) (name.toList, behind) hread
      · intro hends place hplace read hread
        have hname : (String.ofList read.1).toList = read.1 := String.toList_ofList
        have hapart := hends (String.ofList read.1)
          ⟨place, read.2, (List.mem_tails _ _).mp hplace, by rw [hname]; exact hread⟩
        rwa [hname] at hapart)

/-- A repository with two versions of one file. -/
def versions (before after : String) : Git.Repository where
  root := ⟨".", []⟩
  tree := .empty
  git arguments :=
    if arguments = Git.Question.arguments (.content "main" "a.ts") then
      .ok { out := Text.Utf8.encode before.toList }
    else .ok { out := Text.Utf8.encode after.toList }

/-- That file, as a modified one. -/
def versionsFile : ChangedFile := { path := "a.ts", status := .modified, category := .source }

/-- A function that the new version lacks is counted as removed, and looked for. -/
theorem mem_ofChanges_of_modified_lost :
    let before := "export function f() {}\n"
    let after := "let n = 1;\n"
    (∃ removed ∈ (ExportDiff.ofTexts before after).removed, removed.name = "f") ∧
      ¬ Declares after "f" ∧
      ⟨"f", "a.ts"⟩ ∈ ofChanges (versions before after) [versionsFile] "main" "HEAD" := by
  intro before after
  have hplain : IsPlain before ⟨"f", .function, some "()", false⟩ :=
    ⟨⟨functions, by simp [declarationPasses], by decide +kernel⟩, by decide +kernel, by decide,
      by decide, nofun⟩
  have hbefore : (versions before after).content "main" versionsFile.path = .ok before :=
    eq_ok_of_toOption (by decide +kernel)
  have hafter : (versions before after).content "HEAD" versionsFile.path = .ok after :=
    eq_ok_of_toOption (by decide +kernel)
  have hends : NamesEndApart before := by decide +kernel
  have hends' : NamesEndApart after := by decide +kernel
  have hgone : ∀ other ∈ Export.symbols after, other.name ≠ "f" := by decide +kernel
  have hkept : ¬ Declares after "f" := by decide +kernel
  obtain ⟨-, hlooked, hcounted⟩ :=
    mem_ofChanges_of_modified List.mem_cons_self rfl rfl hbefore hafter
    hends.declaresApart hends'.declaresApart
  obtain ⟨hwritten, hremoved⟩ := hcounted _ hplain hgone
  exact ⟨hremoved, hkept, (hlooked "f" hwritten).2 hkept⟩

/-- A function that the new version has in a comment only is the one removed export, and the new
version has no export at all, but nothing is looked for. -/
theorem ofChanges_of_modified_commented :
    let before := "export function f() {}\n"
    let after := "// export function f() {}\n"
    (versions before after).content "main" versionsFile.path = .ok before ∧
      (versions before after).content "HEAD" versionsFile.path = .ok after ∧
      Path.extension versionsFile.path = ".ts" ∧
      (ExportDiff.ofTexts before after).removed = [⟨"f", .function, some "()", false⟩] ∧
      Export.symbols after = [] ∧
      ofChanges (versions before after) [versionsFile] "main" "HEAD" = [] := by
  refine ⟨eq_ok_of_toOption (by decide +kernel), eq_ok_of_toOption (by decide +kernel),
    by decide +kernel, by decide +kernel, by decide +kernel, by decide +kernel⟩

end Modified

end RemovedName

end ChangeImpact
