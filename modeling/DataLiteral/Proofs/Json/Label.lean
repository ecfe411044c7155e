import Mathlib
import DataLiteral.Proofs.Text.Position
import DataLiteral.Source

set_option autoImplicit false

namespace DataLiteral.Source

open Json (Failure)

theorem readJson_error {source : Source} {failure : Failure}
    (failed : Json.read source.text = .error failure) :
    ∃ d, source.readJson = .error d ∧
      d.cause = some (failure.cause.message ++ " at line ".toList ++
        .ofNat (failure.location source.text).line ++ " column ".toList ++
        .ofNat (failure.location source.text).column) ∧
      d.labels = [⟨"parse error here".toList,
        Text.offset source.text (failure.location source.text), 0⟩] := by
  refine ⟨_, by rw [readJson, failed], rfl, ?_⟩
  simp [report, Json.Fault.report, Json.Fault.ofFailure, Diagnostic.labels, Diagnostic.labelText,
    Report.span]

/-- A document that cannot be read is reported with one label. It stands at the byte that the
reported line and column name if, and only if, the characters before that byte on its line are
ASCII. -/
theorem readJson_label {source : Source} {failure : Failure}
    (failed : Json.read source.text = .error failure) :
    ∃ d offset, source.readJson = .error d ∧
      d.cause = some (failure.cause.message ++ " at line ".toList ++
        .ofNat (failure.location source.text).line ++ " column ".toList ++
        .ofNat (failure.location source.text).column) ∧
      d.labels = [⟨"parse error here".toList, offset, 0⟩] ∧
      (offset = Text.byteIndex source.text (failure.location source.text) ↔
        Text.IsAscii (Text.charsBefore source.text (failure.location source.text))) := by
  obtain ⟨d, found, cause, labels⟩ := readJson_error failed
  exact ⟨d, _, found, cause, labels, Text.offset_location_iff source.text _⟩

theorem readJson_label_second_line :
    let source : Source := ⟨"[\"é\",\n  ?]".toList, "values.json".toList⟩
    let failure : Failure := .next .expectedValue "?]".toList
    Json.read source.text = .error failure ∧ failure.location source.text = ⟨2, 3⟩ ∧
      ∃ d, source.readJson = .error d ∧ d.labels = [⟨"parse error here".toList, 9, 0⟩] := by
  intro source failure
  have failed : Json.read source.text = .error failure := by cbv
  have place : failure.location source.text = ⟨2, 3⟩ := by decide
  obtain ⟨d, offset, found, _, labels, exact'⟩ := readJson_label failed
  have blanks : Text.charsBefore source.text ⟨2, 3⟩ = [' ', ' '] := by decide
  have ascii : Text.IsAscii (Text.charsBefore source.text (failure.location source.text)) := by
    rw [place, blanks]
    exact List.forall_mem_cons.mpr ⟨by decide, List.forall_mem_singleton.mpr (by decide)⟩
  have nine : Text.byteIndex source.text (failure.location source.text) = 9 := by
    rw [place]
    decide
  rw [exact'.mpr ascii, nine] at labels
  exact ⟨failed, place, d, found, labels⟩

-- A character of two bytes is one step of the walk, which goes on to the byte after the place.
theorem readJson_label_beyond :
    let source : Source := ⟨"[\"é\" x]".toList, "values.json".toList⟩
    let failure : Failure := .next .expectedItemEnd "x]".toList
    Json.read source.text = .error failure ∧ failure.location source.text = ⟨1, 7⟩ ∧
      Text.byteIndex source.text ⟨1, 7⟩ = 6 ∧
      ∃ d, source.readJson = .error d ∧ d.labels = [⟨"parse error here".toList, 7, 0⟩] := by
  intro source failure
  have failed : Json.read source.text = .error failure := by cbv
  have place : failure.location source.text = ⟨1, 7⟩ := by decide
  have seven : Text.offset source.text ⟨1, 7⟩ = 7 := by decide
  obtain ⟨d, found, _, labels⟩ := readJson_error failed
  rw [place, seven] at labels
  exact ⟨failed, place, by decide, d, found, labels⟩

/-- Wherever the walk ends, the label of a document that cannot be read stands between characters of
the source, and not before the byte that the reported line and column name. It stands at that byte
if the characters before it on its line are ASCII. -/
theorem readJson_label_boundary {source : Source} {failure : Failure}
    (failed : Json.read source.text = .error failure) :
    ∃ d offset, source.readJson = .error d ∧
      d.cause = some (failure.cause.message ++ " at line ".toList ++
        .ofNat (failure.location source.text).line ++ " column ".toList ++
        .ofNat (failure.location source.text).column) ∧
      d.labels = [⟨"parse error here".toList, offset, 0⟩] ∧
      offset ≤ Text.byteSize source.text ∧
      Text.IsBoundary source.text offset ∧
      Text.byteIndex source.text (failure.location source.text) ≤ offset ∧
      (Text.IsAscii (Text.charsBefore source.text (failure.location source.text)) →
        offset = Text.byteIndex source.text (failure.location source.text)) := by
  obtain ⟨d, found, cause, labels⟩ := readJson_error failed
  refine ⟨d, _, found, cause, labels, Text.offset_le _ _, Text.isBoundary_offset _ _, ?_, ?_⟩
  next => exact Text.byteIndex_le_offset source.text (failure.index source.text)
  next => exact (Text.offset_location_iff source.text (failure.index source.text)).mpr

theorem readJson_label_boundary_end :
    let source : Source := ⟨"[\"ééé\"?\n]".toList, "values.json".toList⟩
    let failure : Failure := .next .expectedItemEnd "?\n]".toList
    Json.read source.text = .error failure ∧ failure.location source.text = ⟨1, 10⟩ ∧
      Text.byteIndex source.text ⟨1, 10⟩ = 9 ∧
      ∃ d, source.readJson = .error d ∧ d.labels = [⟨"parse error here".toList, 12, 0⟩] ∧
        12 ≤ Text.byteSize source.text ∧ Text.IsBoundary source.text 12 := by
  intro source failure
  have failed : Json.read source.text = .error failure := by cbv
  have place : failure.location source.text = ⟨1, 10⟩ := by decide
  have twelve : Text.offset source.text ⟨1, 10⟩ = 12 := by decide
  obtain ⟨d, found, _, labels⟩ := readJson_error failed
  obtain ⟨e, offset, found', _, labels', within, boundary, _⟩ := readJson_label_boundary failed
  obtain rfl : d = e := Except.error.inj (found.symm.trans found')
  rw [place, twelve] at labels
  obtain rfl : offset = 12 := by simpa using labels'.symm.trans labels
  exact ⟨failed, place, by decide, d, found, labels, within, boundary⟩

end DataLiteral.Source
