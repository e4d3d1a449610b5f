import ChangeImpact.Config.File
import ChangeImpact.Proofs.ReportText

/-!
# The text of a configuration

A configuration file holds ASCII characters without carriage returns, so that nothing is lost on the
way through its bytes. A configuration is read back from it as it was written, if it can be written.
-/

namespace ChangeImpact

open Text

/-! ### Newlines in JSON -/

namespace Json

variable {limit : Option ℕ} {style : Style}

/-- No hexadecimal digit is a carriage return. -/
theorem digitChar_ne_carriageReturn : ∀ d < 16, '\r' ≠ Nat.digitChar d := by decide

/-- The escape of a code unit holds no carriage return. -/
theorem not_mem_unitEscape {n : ℕ} (hn : n < 0x10000) : '\r' ∉ unitEscape n := by
  rw [unitEscape_eq hn]
  simp only [List.mem_cons, not_or]
  exact ⟨by decide, by decide, digitChar_ne_carriageReturn _ (by omega),
    digitChar_ne_carriageReturn _ (by omega), digitChar_ne_carriageReturn _ (by omega),
    digitChar_ne_carriageReturn _ (by omega), List.not_mem_nil⟩

/-- A carriage return is always escaped. -/
theorem not_mem_char (style : Style) (c : Char) : '\r' ∉ style.char c := by
  have hbounds := Utf8.toNat_bounds c
  unfold Style.char
  split
  case h_8 hreturn _ _ _ =>
    dsimp only
    split_ifs with hcontrol hplain hunit
    · exact not_mem_unitEscape (by omega)
    · simpa using Ne.symm hreturn
    · exact not_mem_unitEscape hunit
    · rw [List.mem_append, not_or]
      exact ⟨not_mem_unitEscape (by omega), not_mem_unitEscape (by omega)⟩
  all_goals decide

/-- A quoted text holds no carriage return. -/
theorem not_mem_quoted (style : Style) (s : String) : '\r' ∉ style.quoted s := by
  have htext : '\r' ∉ s.toList.flatMap style.char := by
    rw [List.mem_flatMap]
    rintro ⟨c, -, hc⟩
    exact not_mem_char style c hc
  simp [Style.quoted, htext]

/-- A line break with its indentation holds no carriage return. -/
theorem not_mem_newline (level : ℕ) : '\r' ∉ newline level := by
  simp [newline, List.mem_replicate]

/-- A printed number holds no carriage return. -/
theorem not_mem_int (n : ℤ) : '\r' ∉ (toString n).toList := by
  have hdigits : '\r' ∉ decimal n.natAbs := fun hmem =>
    absurd (isAsciiDigit_of_mem_decimal hmem) (by decide)
  rw [toList_toString]
  split_ifs
  · simpa using hdigits
  · exact hdigits

/-- Items hold no carriage return if none of them does. -/
theorem not_mem_indentedItems {items : List Json}
    (hitems : ∀ item ∈ items, ∀ level, '\r' ∉ style.indented level item) (level : ℕ) :
    '\r' ∉ style.indentedItems level items := by
  induction items with
  | nil => simp [Style.indentedItems]
  | cons item items ih =>
    rw [List.forall_mem_cons] at hitems
    simp [Style.indentedItems, not_mem_newline, hitems.1 level, ih hitems.2]

/-- Fields hold no carriage return if none of their values does. -/
theorem not_mem_indentedFields {fields : List (String × Json)}
    (hfields : ∀ field ∈ fields, ∀ level, '\r' ∉ style.indented level field.2) (level : ℕ) :
    '\r' ∉ style.indentedFields level fields := by
  induction fields with
  | nil => simp [Style.indentedFields]
  | cons field fields ih =>
    rw [List.forall_mem_cons] at hfields
    simp [Style.indentedFields, not_mem_newline, not_mem_quoted, hfields.1 level, ih hfields.2]

/-- No carriage return is written. -/
theorem not_mem_indented {v : Json} (hv : Readable limit v) (style : Style) (level : ℕ) :
    '\r' ∉ style.indented level v := by
  induction hv generalizing level with
  | null => simp [Style.indented]
  | bool b => cases b <;> simp [Style.indented]
  | int n => simpa [Style.indented] using not_mem_int n
  | string s => simpa [Style.indented] using not_mem_quoted style s
  | list items hitems ih =>
    cases items with
    | nil => simp [Style.indented]
    | cons item items =>
      rw [List.forall_mem_cons] at ih
      simp [Style.indented, not_mem_newline, ih.1 (level + 1),
        not_mem_indentedItems ih.2 (level + 1)]
  | object fields hnames hfields ih =>
    cases fields with
    | nil => simp [Style.indented]
    | cons field fields =>
      rw [List.forall_mem_cons] at ih
      simp [Style.indented, not_mem_newline, not_mem_quoted, ih.1 (level + 1),
        not_mem_indentedFields ih.2 (level + 1)]

/-- A written value is read back as text from its bytes. -/
theorem readText_write {v : Json} (hv : Readable limit v) (style : Style) :
    readText (Utf8.encode (write style v).toList) = .ok (write style v) := by
  have htext : (write style v).toList = style.indented 0 v := String.toList_ofList
  rw [readText, Utf8.decode_encode, htext]
  exact congrArg (Except.ok ∘ String.ofList) (unifyNewlines_eq_self (not_mem_indented hv style 0))

end Json

/-! ### Configurations -/

namespace ScanConfig

/-- The numbers of a scan configuration can be read if its batch size can. -/
theorem readable_encode {config : ScanConfig} (hbatch : config.batchSize < countLimit) :
    config.encode.Readable (some maxIntegerDigits) := by
  refine .object _ (by simp) ?_
  simp only [List.forall_mem_cons]
  exact ⟨readable_texts _, readable_nat (withinDigits_iff.mpr hbatch), List.forall_mem_nil _⟩

/-- An encoded scan configuration is decoded. -/
theorem decode_encode {config : ScanConfig} (hbatch : 1 ≤ config.batchSize) :
    ScanConfig.decode config.encode = .valid config := by
  have hsize := decode_nat hbatch
  rw [Encode.nat] at hsize
  simp [decode, encode, Decoder.record, hsize]

end ScanConfig

namespace ProjectConfig

/-- The numbers of a configuration can be read if both are small enough. -/
theorem readable_encode {config : ProjectConfig} (hbatch : config.scan.batchSize < countLimit)
    (hdepth : config.maxDepth < countLimit) : config.encode.Readable (some maxIntegerDigits) := by
  refine .object _ (by simp) ?_
  simp only [List.forall_mem_cons]
  refine ⟨ScanConfig.readable_encode hbatch, .object _ (by simp) ?_, List.forall_mem_nil _⟩
  exact List.forall_mem_singleton.mpr (readable_nat (withinDigits_iff.mpr hdepth))

/-- An encoded configuration is decoded. -/
theorem decode_encode {config : ProjectConfig} (hbatch : 1 ≤ config.scan.batchSize) :
    ProjectConfig.decode config.encode = .valid config := by
  have hdepth := decode_nat (Nat.zero_le config.maxDepth)
  rw [Encode.nat] at hdepth
  simp [decode, decodeFields, encode, Decoder.record, decodeImpact,
    ScanConfig.decode_encode hbatch, hdepth]

/-- A configuration can be written if its numbers can. -/
theorem exists_fileText?_iff {config : ProjectConfig} : (∃ text, config.fileText? = some text) ↔
    config.scan.batchSize < countLimit ∧ config.maxDepth < countLimit := by
  have hshort : config.encode.hasShort (some maxIntegerDigits) = true ↔
      config.scan.batchSize < countLimit ∧ config.maxDepth < countLimit := by
    simp [encode, ScanConfig.encode, Json.hasShort, withinDigits_iff]
  simp only [fileText?, Json.writeWithin_eq_some_iff, exists_and_left, exists_eq', and_true, hshort]

/-- The content of a configuration file holds the configuration that was written. -/
theorem ofContent_fileText? {config : ProjectConfig} {text : String}
    (hbatch : 1 ≤ config.scan.batchSize) (htext : config.fileText? = some text) :
    ofContent (Utf8.encode text.toList) = .ok config := by
  obtain ⟨hlimit, hdepth⟩ := exists_fileText?_iff.mp ⟨text, htext⟩
  obtain ⟨-, rfl⟩ := Json.writeWithin_eq_some_iff.mp htext
  have hreadable := readable_encode hlimit hdepth
  have hread : Json.read (Json.write .ascii config.encode).toList = .ok config.encode :=
    Json.readWithin_write hreadable .ascii
  have hdecode := decode_encode hbatch
  rw [ofContent, Json.readText_write hreadable]
  simp only [Except.mapError, bind, Except.bind, hread]
  rw [encode] at hdecode ⊢
  have hfields := congrArg Validated.toExcept hdecode
  exact congrArg (Except.mapError ConfigFault.invalid) hfields

end ProjectConfig

end ChangeImpact
