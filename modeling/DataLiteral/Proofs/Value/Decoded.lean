import DataLiteral.Proofs.Json.Decoded
import DataLiteral.Proofs.Toml.Decoded
import DataLiteral.Proofs.Value.Complete
import DataLiteral.Source

set_option autoImplicit false

namespace DataLiteral.Source

theorem readJson_ok {source : Source} {v : Value} (h : source.readJson = .ok v) :
    Json.read source.text = .ok v := by
  unfold readJson at h
  split at h <;> cases h
  assumption

theorem readToml_ok {source : Source} {v : Value} (h : source.readToml = .ok v) :
    Toml.read source.text = .ok v := by
  unfold readToml at h
  split at h <;> cases h
  assumption

/-- A document that is read becomes a literal as a whole. In JSON every number is finite and has
one representation, and nesting is limited. In TOML the outermost value is a record, and there is no
null and no unsigned integer. -/
theorem convertsWhole_of_read {source : Source} {v : Value} :
    (source.readJson = .ok v →
      (∀ w ∈ v.parts, w ≠ .undefined) ∧ (∀ x, .number (.float x) ∈ v.parts → x.isFinite) ∧
        (∀ n, .number (.uint n) ∈ v.parts → Int64.maxValue.toInt < n.toNat) ∧ v.depth ≤ 127 ∧
        v.ConvertsWhole) ∧
    (source.readToml = .ok v →
      (∃ entries, v = .record entries) ∧
        (∀ w ∈ v.parts, w ≠ .undefined ∧ w ≠ .null ∧ ∀ n, w ≠ .number (.uint n)) ∧
        v.ConvertsWhole) := by
  constructor
  next =>
    intro read
    have decoded := Json.decodedWithin_of_read (readJson_ok read)
    have whole := Value.convertsWhole_of_defined fun w member => (decoded.parts w member).isDefined
    refine ⟨?_, fun x => decoded.parts _, fun n => decoded.parts _, decoded.nesting, whole⟩
    rintro w member rfl
    exact decoded.parts _ member
  next =>
    intro read
    obtain ⟨record, configured⟩ := Toml.parts_of_read (readToml_ok read)
    have whole := Value.convertsWhole_of_defined fun w member => (configured w member).isDefined
    refine ⟨record, fun w member => ⟨?_, ?_, fun n => ?_⟩, whole⟩ <;> rintro rfl <;>
      exact configured _ member

theorem convertsWhole_of_read_edges :
    let json : Source := ⟨"\x7b\"a\": [0, -0]\x7d".toList, "values.json".toList⟩
    let toml : Source := ⟨"a = nan".toList, "values.toml".toList⟩
    let fromJson : Value := .record
      [(['a'], .array [.number (.int 0), .number (.float (.zero true))])]
    let fromToml : Value := .record [(['a'], .number (.float .nan))]
    json.readJson = .ok fromJson ∧ fromJson.depth ≤ 127 ∧ fromJson.ConvertsWhole ∧
      toml.readToml = .ok fromToml ∧ fromToml.ConvertsWhole := by
  intro json toml fromJson fromToml
  have readJson : json.readJson = .ok fromJson := by cbv
  have readToml : toml.readToml = .ok fromToml := by cbv
  obtain ⟨_, _, _, nesting, whole⟩ := convertsWhole_of_read.1 readJson
  obtain ⟨_, _, whole'⟩ := convertsWhole_of_read.2 readToml
  exact ⟨readJson, nesting, whole, readToml, whole'⟩

end DataLiteral.Source
