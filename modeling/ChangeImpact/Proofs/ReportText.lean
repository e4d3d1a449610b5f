import ChangeImpact.Proofs.JsonText
import ChangeImpact.Record.Decode
import ChangeImpact.Report.Encode

/-!
# Reports are read back as records

The report on one record and the report on a list of records are written in different styles. Both
are read back as the JSON objects of the records, and these are decoded to the records themselves.
This holds of every class of records without fractions, whatever characters their texts hold, as
long as no integer has more digits than are written and read. A list with a longer integer has no
report.
-/

namespace ChangeImpact

open Text

/-! ### Parts of records -/

section Parts

variable {limit : Option ℕ}

/-- A number whose digits are within the limit. -/
def WithinDigits (limit : Option ℕ) (n : ℕ) : Prop := ∀ most ∈ limit, (decimal n).length ≤ most

/-- A natural number is written if its digits are within the limit. -/
@[simp]
theorem isShort_natCast_iff {n : ℕ} : Json.isShort limit (n : ℤ) = true ↔ WithinDigits limit n := by
  cases limit <;> simp [Json.isShort, WithinDigits, decimal]

/-- A text holds no integer, and neither does its absence. -/
@[simp]
theorem hasShort_textOrNull (text : Option String) :
    (Json.textOrNull text).hasShort limit = true := by
  cases text <;> rfl

/-- Texts hold no integer. -/
@[simp]
theorem hasShort_texts (items : List String) : (Json.texts items).hasShort limit = true := by
  simp [Json.texts, Json.hasShort]

/-- A number with few enough digits can be read. -/
theorem readable_nat {n : ℕ} (hn : WithinDigits limit n) : (Encode.nat n).Readable limit :=
  .int n hn

/-- A text, or none, can be read. -/
theorem readable_textOrNull (text : Option String) : (Json.textOrNull text).Readable limit := by
  cases text with
  | none => exact .null
  | some text => exact .string text

/-- A list of texts can be read. -/
theorem readable_texts (items : List String) : (Json.texts items).Readable limit := by
  refine .list _ fun item hitem => ?_
  obtain ⟨text, -, rfl⟩ := List.mem_map.mp hitem
  exact .string text

namespace Validated

/-- A function is applied to a valid value. -/
@[simp]
theorem map_valid {α β : Type} (f : α → β) (x : α) : (valid x).map f = valid (f x) := rfl

/-- A valid function is applied to a valid value. -/
@[simp]
theorem apply_valid {α β : Type} (f : α → β) (x : α) :
    (valid f).apply (valid x) = valid (f x) := rfl

/-- Mapping applies a function to a valid value. -/
@[simp]
theorem fmap_valid {α β : Type} (f : α → β) (x : α) : f <$> valid x = valid (f x) := rfl

/-- A sequence applies a valid function to a valid value. -/
@[simp]
theorem seq_valid {α β : Type} (f : α → β) (x : α) : valid f <*> valid x = valid (f x) := rfl

/-- A valid value has no errors whose place could be extended. -/
@[simp]
theorem under_valid {α : Type} (step : PlaceStep) (x : α) : (valid x).under step = valid x := rfl

end Validated

/-- A field is decoded from the first value that stands under its name. -/
@[simp]
theorem field_cons_self {α : Type} (name other : String) (json : Json)
    (fields : List (String × Json)) (decode : Decoder α) (fallback : Option α) :
    Decoder.field ((name, json) :: fields) name other decode fallback =
      (decode json).under (.field name) := by
  simp [Decoder.field]

/-- A field is looked for behind one with another name. -/
@[simp]
theorem field_cons_of_ne {α : Type} {name other key : String} (hname : name ≠ key)
    (hother : other ≠ key) (json : Json) (fields : List (String × Json)) (decode : Decoder α)
    (fallback : Option α) :
    Decoder.field ((key, json) :: fields) name other decode fallback =
      Decoder.field fields name other decode fallback := by
  simp [Decoder.field, List.lookup_cons, beq_eq_false_iff_ne.mpr hname,
    beq_eq_false_iff_ne.mpr hother]

/-- A text, or none, is decoded. -/
@[simp]
theorem decode_textOrNull (text : Option String) :
    Decoder.optional Decoder.string (Json.textOrNull text) = .valid text := by
  cases text <;> rfl

/-- A number that is large enough is decoded. -/
theorem decode_nat {least n : ℕ} (hleast : least ≤ n) :
    Decoder.intFrom least (Encode.nat n) = .valid n := by
  have hnot : ¬((n : ℤ) < least) := by omega
  simp only [Decoder.intFrom, Encode.nat, Decoder.int, Validated.check, if_neg hnot]
  rfl

/-- Items that are decoded one by one are decoded as a list. -/
theorem decode_list {α : Type} {decode : Decoder α} {toJson : α → Json} {items : List α}
    (hitems : ∀ item ∈ items, decode (toJson item) = .valid item) :
    Decoder.list decode (.list (items.map toJson)) = .valid items := by
  have hfrom (index : ℕ) :
      Decoder.itemsFrom decode index (items.map toJson) = .valid items := by
    induction items generalizing index with
    | nil => rfl
    | cons item items ih =>
      rw [List.forall_mem_cons] at hitems
      rw [List.map_cons, Decoder.itemsFrom, hitems.1, ih hitems.2]
      rfl
  exact hfrom 0

/-- A list of texts is decoded. -/
@[simp]
theorem decode_texts (items : List String) :
    Decoder.list Decoder.string (Json.texts items) = .valid items := decode_list fun _ _ => rfl

/-- A value is found by its name among values with different names. -/
theorem decode_name {α : Type} {all : List α} {name : α → String} {kind : ViolationKind} {value : α}
    (hfind : (all.find? fun other => name other == name value) = some value) :
    Decoder.named all name kind (.string (name value)) = .valid value := by
  simp only [Decoder.named, hfind]

end Parts

/-! ### Records -/

/-- A record whose JSON object is read back and decoded to it. -/
structure ReadsBack {α : Type} [Encode α] [Decode α] (limit : Option ℕ) (record : α) : Prop where
  readable : (encode record).Readable limit
  decode_encode : Decode.of α (encode record) = .valid record

section Records

variable {limit : Option ℕ}

/-- Records that are read back one by one are read back as a list. -/
theorem readable_list {α : Type} [Encode α] [Decode α] {records : List α}
    (hrecords : ∀ record ∈ records, ReadsBack limit record) :
    (Encode.list records).Readable limit := by
  refine .list _ fun item hitem => ?_
  obtain ⟨record, hrecord, rfl⟩ := List.mem_map.mp hitem
  exact (hrecords record hrecord).readable

/-- A list of records that are read back is decoded. -/
theorem decode_records {α : Type} [Encode α] [Decode α] {records : List α}
    (hrecords : ∀ record ∈ records, ReadsBack limit record) :
    Decoder.list (Decode.of α) (Encode.list records) = .valid records :=
  decode_list fun record hrecord => (hrecords record hrecord).decode_encode

/-- A changed file is read back if both counts have few enough digits. -/
theorem readsBack_changedFile {file : ChangedFile} (hadditions : WithinDigits limit file.additions)
    (hdeletions : WithinDigits limit file.deletions) : ReadsBack limit file where
  readable := by
    refine .object _ (by simp) ?_
    simp only [List.forall_mem_cons]
    exact ⟨.string _, .string _, readable_textOrNull _, readable_nat hadditions,
      readable_nat hdeletions, .string _, .string _, List.forall_mem_nil _⟩
  decode_encode := by
    have hstatus : Decoder.named FileStatus.all FileStatus.name .enum (.string file.status.name) =
        .valid file.status := decode_name (by cases file.status <;> decide)
    have hcategory : Decoder.named FileCategory.all FileCategory.name .enum
        (.string file.category.name) = .valid file.category :=
      decode_name (by cases file.category <;> decide)
    rw [Decode.of]
    simp [Decode.decode, encode, Decoder.record, Decode.text, Decode.oneOf,
      Decode.textIfAny, Decode.count, Decoder.string, hstatus, hcategory,
      decode_nat (Nat.zero_le _)]

/-- A symbol is read back. -/
theorem readsBack_symbol (symbol : ExportedSymbol) : ReadsBack limit symbol where
  readable := by
    refine .object _ (by simp) ?_
    simp only [List.forall_mem_cons]
    exact ⟨.string _, .string _, readable_textOrNull _, .bool _, List.forall_mem_nil _⟩
  decode_encode := by
    have hkind : Decoder.named SymbolKind.all SymbolKind.name .enum (.string symbol.kind.name) =
        .valid symbol.kind := decode_name (by cases symbol.kind <;> decide)
    rw [Decode.of]
    simp [Decode.decode, encode, Decoder.record, Decode.text, Decode.oneOf,
      Decode.textIfAny, Decode.flag, Decoder.string, Decoder.bool, hkind]

/-- The exports of a file are read back. -/
theorem readsBack_exports (file : FileExports) : ReadsBack limit file := by
  have hsymbols (symbol) (_ : symbol ∈ file.symbols) : ReadsBack limit symbol :=
    readsBack_symbol symbol
  constructor
  · refine .object _ (by simp) ?_
    simp only [List.forall_mem_cons]
    exact ⟨.string _, readable_list hsymbols, List.forall_mem_nil _⟩
  · rw [Decode.of]
    simp [Decode.decode, encode, Decoder.record, Decode.text, Decode.records, Decoder.string,
      decode_records hsymbols]

/-- A breaking change is read back. -/
theorem readsBack_breakingChange (change : BreakingChange) : ReadsBack limit change where
  readable := by
    refine .object _ (by simp) ?_
    simp only [List.forall_mem_cons]
    exact ⟨.string _, .string _, .string _, .string _, readable_textOrNull _, .string _,
      readable_texts _, List.forall_mem_nil _⟩
  decode_encode := by
    have hkind : Decoder.named BreakingKind.all BreakingKind.name .enum
        (.string change.kind.name) = .valid change.kind :=
      decode_name (by cases change.kind <;> decide)
    have hseverity : Decoder.named Severity.all Severity.name .enum
        (.string change.severity.name) = .valid change.severity :=
      decode_name (by cases change.severity <;> decide)
    rw [Decode.of]
    simp [Decode.decode, encode, Decoder.record, Decode.text, Decode.oneOf, Decode.textIfAny,
      Decode.texts, Decoder.string, hkind, hseverity]

/-- A gap in the coverage is read back. -/
theorem readsBack_gap (gap : CoverageGap) : ReadsBack limit gap where
  readable := by
    refine .object _ (by simp) ?_
    simp only [List.forall_mem_cons]
    exact ⟨.string _, readable_texts _, .bool _, .bool _, List.forall_mem_nil _⟩
  decode_encode := by
    rw [Decode.of]
    simp [Decode.decode, encode, Decoder.record, Decode.text, Decode.texts, Decode.flag,
      Decoder.string, Decoder.bool]

/-- A stale reference is read back if its line number is positive and has few enough digits. -/
theorem readsBack_reference {reference : StaleReference} (hline : 1 ≤ reference.line)
    (hdigits : WithinDigits limit reference.line) : ReadsBack limit reference where
  readable := by
    refine .object _ (by simp) ?_
    simp only [List.forall_mem_cons]
    exact ⟨.string _, readable_nat hdigits, .string _, .string _, List.forall_mem_nil _⟩
  decode_encode := by
    rw [Decode.of]
    simp [Decode.decode, encode, Decoder.record, Decode.text, Decoder.string, decode_nat hline]

/-- A report on references is read back if they all are. -/
theorem readsBack_staleness {report : StalenessReport}
    (hreferences : ∀ reference ∈ report.references, ReadsBack limit reference) :
    ReadsBack limit report where
  readable := by
    refine .object _ (by simp) ?_
    simp only [List.forall_mem_cons]
    exact ⟨readable_list hreferences, readable_texts _, List.forall_mem_nil _⟩
  decode_encode := by
    rw [Decode.of]
    simp [Decode.decode, encode, Decoder.record, Decode.records, Decode.texts,
      decode_records hreferences]

/-- An edge is read back. -/
theorem readsBack_edge (edge : ImpactEdge) : ReadsBack limit edge where
  readable := by
    refine .object _ (by simp) ?_
    simp only [List.forall_mem_cons]
    exact ⟨.string _, .string _, .string _, List.forall_mem_nil _⟩
  decode_encode := by
    have hrelation : Decoder.named [ImpactEdge.relation] id .literal
        (.string ImpactEdge.relation) = .valid ImpactEdge.relation := rfl
    rw [Decode.of]
    simp [Decode.decode, encode, Decoder.record, Decode.text, Decoder.string, hrelation]

/-- A graph is read back. -/
theorem readsBack_impact (graph : ImpactGraph) : ReadsBack limit graph := by
  have hedges (edge) (_ : edge ∈ graph.edges) : ReadsBack limit edge := readsBack_edge edge
  constructor
  · refine .object _ (by simp) ?_
    simp only [List.forall_mem_cons]
    exact ⟨readable_texts _, readable_texts _, readable_list hedges, List.forall_mem_nil _⟩
  · rw [Decode.of]
    simp [Decode.decode, encode, Decoder.record, Decode.texts, Decode.records,
      decode_records hedges]

end Records

/-! ### Integers of records -/

section Integers

variable {limit : Option ℕ}

/-- The integers of a list of records are those of its records. -/
theorem hasShort_list_iff {α : Type} [Encode α] {records : List α} :
    (Encode.list records).hasShort limit = true ↔
      ∀ record ∈ records, (encode record).hasShort limit = true := by
  simp [Encode.list, Json.hasShort]

/-- The integers of a changed file are its line counts. -/
theorem hasShort_changedFile_iff {file : ChangedFile} : (encode file).hasShort limit = true ↔
    WithinDigits limit file.additions ∧ WithinDigits limit file.deletions := by
  simp [encode, Json.hasShort, Encode.nat]

/-- A symbol has no integers. -/
theorem hasShort_symbol (symbol : ExportedSymbol) : (encode symbol).hasShort limit = true := by
  simp [encode, Json.hasShort]

/-- The exports of a file have no integers. -/
theorem hasShort_exports (file : FileExports) : (encode file).hasShort limit = true := by
  have hsymbols : (Encode.list file.symbols).hasShort limit = true :=
    hasShort_list_iff.mpr fun symbol _ => hasShort_symbol symbol
  simp [encode, Json.hasShort, hsymbols]

/-- A breaking change has no integers. -/
theorem hasShort_breakingChange (change : BreakingChange) :
    (encode change).hasShort limit = true := by
  simp [encode, Json.hasShort]

/-- A gap has no integers. -/
theorem hasShort_gap (gap : CoverageGap) : (encode gap).hasShort limit = true := by
  simp [encode, Json.hasShort]

/-- The integer of a stale reference is its line. -/
theorem hasShort_reference_iff {reference : StaleReference} :
    (encode reference).hasShort limit = true ↔ WithinDigits limit reference.line := by
  simp [encode, Json.hasShort, Encode.nat]

/-- The integers of stale documentation are the lines of its references. -/
theorem hasShort_staleness_iff {report : StalenessReport} :
    (encode report).hasShort limit = true ↔
      ∀ reference ∈ report.references, WithinDigits limit reference.line := by
  have hreferences : (Encode.list report.references).hasShort limit = true ↔
      ∀ reference ∈ report.references, (encode reference).hasShort limit = true :=
    hasShort_list_iff
  simp only [hasShort_reference_iff] at hreferences
  rw [← hreferences]
  simp [encode, Json.hasShort]

/-- An edge has no integers. -/
theorem hasShort_edge (edge : ImpactEdge) : (encode edge).hasShort limit = true := by
  simp [encode, Json.hasShort]

/-- A graph has no integers. -/
theorem hasShort_impact (graph : ImpactGraph) : (encode graph).hasShort limit = true := by
  have hedges : (Encode.list graph.edges).hasShort limit = true :=
    hasShort_list_iff.mpr fun edge _ => hasShort_edge edge
  simp [encode, Json.hasShort, hedges]

end Integers

/-! ### Reports -/

/-- The reports on records of a class are read back. Each record's is read as the record's JSON
object if its integers are short; that on a list is written exactly if those of all its records are,
and then read as the list of these same objects. The objects are decoded to the records. -/
structure ReportsReadBack (α : Type) [Encode α] [Decode α] (limit : Option ℕ)
    (admitted short : α → Prop) : Prop where
  record : ∀ record, admitted record → short record →
    Json.readWithin limit (recordReport record).toList = .ok (encode record) ∧
      Decode.of α (encode record) = .valid record
  written : ∀ records : List α, (∃ text, listReportWithin limit records = some text) ↔
    ∀ record ∈ records, short record
  records : ∀ records text, (∀ record ∈ records, admitted record) →
    listReportWithin limit records = some text →
      Json.readWithin limit text.toList = .ok (.list (records.map encode)) ∧
        Decoder.list (Decode.of α) (.list (records.map encode)) = .valid records

/-- Reports are read back if records are, where those with short integers are known. -/
theorem ReportsReadBack.of_readsBack {α : Type} [Encode α] [Decode α] {limit : Option ℕ}
    {admitted short : α → Prop}
    (hshort : ∀ record, (encode record).hasShort limit = true ↔ short record)
    (hrecord : ∀ record, admitted record → short record → ReadsBack limit record) :
    ReportsReadBack α limit admitted short where
  record := fun record hadmitted hlimit =>
    ⟨Json.readWithin_write (hrecord record hadmitted hlimit).readable .record,
      (hrecord record hadmitted hlimit).decode_encode⟩
  written := fun records => by
    have hlist : (Encode.list records).hasShort limit = true ↔
        ∀ record ∈ records, (encode record).hasShort limit = true := hasShort_list_iff
    simp only [hshort] at hlist
    simp only [listReportWithin, Json.writeWithin_eq_some_iff, exists_and_left, exists_eq',
      and_true, hlist]
  records := fun records text hadmitted hreport => by
    obtain ⟨hintegers, rfl⟩ := Json.writeWithin_eq_some_iff.mp hreport
    have hlimit := hasShort_list_iff.mp hintegers
    have hrecords (record) (hmem : record ∈ records) : ReadsBack limit record :=
      hrecord record (hadmitted record hmem) ((hshort record).mp (hlimit record hmem))
    exact ⟨Json.readWithin_write (readable_list hrecords) .ascii, decode_records hrecords⟩

/-- Reports on records without fractions are read back if their integers have no more digits than
are written and read, and the lines of stale references are counted from one. A list with a longer
integer has no report. Without a limit all reports are written and read back. -/
theorem reports_readBack (limit : Option ℕ) :
    ReportsReadBack ChangedFile limit (fun _ => True)
        (fun file => WithinDigits limit file.additions ∧ WithinDigits limit file.deletions) ∧
      ReportsReadBack ExportedSymbol limit (fun _ => True) (fun _ => True) ∧
      ReportsReadBack FileExports limit (fun _ => True) (fun _ => True) ∧
      ReportsReadBack BreakingChange limit (fun _ => True) (fun _ => True) ∧
      ReportsReadBack CoverageGap limit (fun _ => True) (fun _ => True) ∧
      ReportsReadBack StaleReference limit (fun reference => 1 ≤ reference.line)
        (fun reference => WithinDigits limit reference.line) ∧
      ReportsReadBack StalenessReport limit
        (fun report => ∀ reference ∈ report.references, 1 ≤ reference.line)
        (fun report => ∀ reference ∈ report.references, WithinDigits limit reference.line) ∧
      ReportsReadBack ImpactEdge limit (fun _ => True) (fun _ => True) ∧
      ReportsReadBack ImpactGraph limit (fun _ => True) (fun _ => True) := by
  refine ⟨.of_readsBack (fun _ => hasShort_changedFile_iff) ?_,
    .of_readsBack (fun symbol => iff_true_intro (hasShort_symbol symbol)) ?_,
    .of_readsBack (fun file => iff_true_intro (hasShort_exports file)) ?_,
    .of_readsBack (fun change => iff_true_intro (hasShort_breakingChange change)) ?_,
    .of_readsBack (fun gap => iff_true_intro (hasShort_gap gap)) ?_,
    .of_readsBack (fun _ => hasShort_reference_iff) ?_,
    .of_readsBack (fun _ => hasShort_staleness_iff) ?_,
    .of_readsBack (fun edge => iff_true_intro (hasShort_edge edge)) ?_,
    .of_readsBack (fun graph => iff_true_intro (hasShort_impact graph)) ?_⟩
  · exact fun file _ hlimit => readsBack_changedFile hlimit.1 hlimit.2
  · exact fun symbol _ _ => readsBack_symbol symbol
  · exact fun file _ _ => readsBack_exports file
  · exact fun change _ _ => readsBack_breakingChange change
  · exact fun gap _ _ => readsBack_gap gap
  · exact fun reference hline hlimit => readsBack_reference hline hlimit
  · exact fun report hlines hlimit => readsBack_staleness fun reference hmem =>
      readsBack_reference (hlines reference hmem) (hlimit reference hmem)
  · exact fun edge _ _ => readsBack_edge edge
  · exact fun graph _ _ => readsBack_impact graph

/-- A stale reference with texts that each style escapes in its own way. -/
def escapedReference : StaleReference where
  docFile := "d\u0000.md"
  line := 12
  reference := "\"\\"
  reason := "😀\n"

/-- Its line has as many digits as the limit admits. -/
theorem reports_readBack_escaped :
    1 ≤ escapedReference.line ∧ WithinDigits (some 2) escapedReference.line ∧
      Json.readWithin (some 2) (recordReport escapedReference).toList =
        .ok (encode escapedReference) ∧
      ∃ text, listReportWithin (some 2) [escapedReference] = some text ∧
        Json.readWithin (some 2) text.toList = .ok (.list [encode escapedReference]) := by
  have hline : 1 ≤ escapedReference.line := by decide
  have hdigits : WithinDigits (some 2) escapedReference.line := by
    rintro most ⟨⟩
    decide
  obtain ⟨-, -, -, -, -, hreference, -⟩ := reports_readBack (some 2)
  obtain ⟨text, htext⟩ := (hreference.written [escapedReference]).mpr
    (List.forall_mem_singleton.mpr hdigits)
  refine ⟨hline, hdigits, (hreference.record _ hline hdigits).1, text, htext, ?_⟩
  exact (hreference.records _ text (List.forall_mem_singleton.mpr hline) htext).1

/-- The numbers within the usual limit of digits are those below the limit of counts. -/
theorem withinDigits_iff {n : ℕ} : WithinDigits (some maxIntegerDigits) n ↔ n < countLimit := by
  delta countLimit
  rw [Number.pow10, Nat.pow_eq, ← Nat.length_toDigits_le_iff (by decide) (by decide)]
  simp [WithinDigits, decimal]

/-- A file with one added line more than can be written. -/
def endlessFile : ChangedFile where
  path := "a.ts"
  status := .added
  additions := countLimit
  category := .source

/-- There is no report on a list with that file. -/
theorem listReport_endlessFile : listReport [endlessFile] = none := by
  have hlong : ¬ WithinDigits (some maxIntegerDigits) endlessFile.additions :=
    mt withinDigits_iff.mp (lt_irrefl countLimit)
  have hshort : ¬ (Encode.list [endlessFile]).hasShort (some maxIntegerDigits) = true := by
    rw [hasShort_list_iff, List.forall_mem_singleton, hasShort_changedFile_iff]
    exact fun h => hlong h.1
  rw [listReport, listReportWithin, Json.writeWithin, if_neg hshort]

end ChangeImpact
