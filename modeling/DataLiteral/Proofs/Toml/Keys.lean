import DataLiteral.Proofs.Toml.Order
import DataLiteral.Proofs.Value.Decoded

set_option autoImplicit false

namespace DataLiteral

namespace Toml

theorem forall₂_itemValues {items : List Item} {values : List Value}
    (h : itemValues items = .ok values) :
    List.Forall₂ (fun item value => item.toValue = .ok value) items values := by
  induction items generalizing values with
  | nil =>
    rw [itemValues] at h
    cases h
    exact .nil
  | cons item rest ih =>
    rw [itemValues] at h
    obtain ⟨value, first, h⟩ := ok_of_bind h
    obtain ⟨values, later, same⟩ := ok_of_bind h
    cases same
    exact .cons first (ih later)

theorem forall₂_entryValues {entries : List (Key × Item)} {values : List (Text × Value)}
    (h : entryValues entries = .ok values) :
    List.Forall₂ (fun entry value => entry.1.name = value.1 ∧ entry.2.toValue = .ok value.2)
      entries values := by
  induction entries generalizing values with
  | nil =>
    rw [entryValues] at h
    cases h
    exact .nil
  | cons entry rest ih =>
    rw [entryValues] at h
    obtain ⟨value, first, h⟩ := ok_of_bind h
    obtain ⟨values, later, same⟩ := ok_of_bind h
    cases same
    exact .cons ⟨rfl, first⟩ (ih later)

section

variable {entries : List (Key × Item)} {values : List (Text × Value)}

theorem keys_entryValues (h : entryValues entries = .ok values) :
    Entries.keys values = entries.map fun entry => entry.1.name := by
  have each := forall₂_entryValues h
  clear h
  induction each with
  | nil => rfl
  | cons first _ ih =>
    rw [List.map_cons, ← ih, first.1]
    rfl

theorem find?_entryValues {name : Text} {w : Value} (h : entryValues entries = .ok values)
    (found : Entries.find? name values = some w) :
    ∃ item, Table.find? name entries = some item ∧ item.toValue = .ok w := by
  have each := forall₂_entryValues h
  clear h
  induction each with
  | nil => cases found
  | cons first _ ih =>
    rw [Entries.find?, ← first.1] at found
    rw [Table.find?]
    split
    next same =>
      rw [if_pos same] at found
      cases found
      exact ⟨_, rfl, first.2⟩
    next other =>
      rw [if_neg other] at found
      exact ih found

theorem getElem?_itemValues {items : List Item} {values : List Value} {index : Nat} {w : Value}
    (h : itemValues items = .ok values) (found : values[index]? = some w) :
    ∃ item, items[index]? = some item ∧ item.toValue = .ok w := by
  rcases getElem?_of_forall₂ (forall₂_itemValues h) index with
    ⟨_, none'⟩ | ⟨item, v, own, value, read⟩
  next =>
    rw [none'] at found
    cases found
  next =>
    rw [value] at found
    cases found
    exact ⟨item, own, read⟩

end

theorem Scalar.at?_ne_record {scalar : Scalar} {v : Value} (h : scalar.toValue? = some v) :
    ∀ address entries, v.at? address ≠ some (.record entries) := by
  cases scalar with
  | integer n =>
    obtain ⟨m, _, rfl⟩ := Option.map_eq_some_iff.mp h
    exact Value.at?_ne_record (by simp) (by simp)
  | hugeFloat => cases h
  | string | float | boolean | datetime =>
    cases h
    exact Value.at?_ne_record (by simp) (by simp)

inductive Item.Gives : Item → Value → Prop
  | value {item : Item} {v : Value} (h : item.toValue = .ok v) : Gives item v
  | root {span : Text.Span} {origin : Origin} {entries : List (Key × Item)}
      {values : List (Text × Value)} (h : entryValues entries = .ok values) :
      Gives (.table span origin entries) (.record values)

namespace Item.Gives

variable {item : Item} {v : Value}

theorem shape (h : item.Gives v) :
    (∃ span origin entries values, item = .table span origin entries ∧ v = .record values ∧
      entryValues entries = .ok values) ∨
    (∃ span ofTables items values, item = .array span ofTables items ∧ v = .array values ∧
      itemValues items = .ok values) ∨
    ∀ address entries, v.at? address ≠ some (.record entries) := by
  cases h with
  | root read => exact .inl ⟨_, _, _, _, rfl, rfl, read⟩
  | value h =>
    cases item with
    | scalar span value =>
      rw [toValue] at h
      exact .inr (.inr (Scalar.at?_ne_record (orUnusable_ok h)))
    | array span ofTables items =>
      rw [toValue] at h
      obtain ⟨values, read, same⟩ := ok_of_bind h
      cases same
      exact .inr (.inl ⟨_, _, _, _, rfl, rfl, read⟩)
    | table span origin entries =>
      rw [toValue] at h
      split at h
      next =>
        obtain ⟨text, _, rfl⟩ := Option.map_eq_some_iff.mp (orUnusable_ok h)
        exact .inr (.inr (Value.at?_ne_record (by simp) (by simp)))
      next =>
        obtain ⟨values, read, same⟩ := ok_of_bind h
        cases same
        exact .inl ⟨_, _, _, _, rfl, rfl, read⟩

theorem keys_at {address : Address} {entries : List (Text × Value)} (h : item.Gives v)
    (found : v.at? address = some (.record entries)) :
    Entries.keys entries = item.view.keys address := by
  induction address generalizing item v with
  | nil =>
    rcases h.shape with ⟨_, _, _, _, rfl, rfl, read⟩ | ⟨_, _, _, _, rfl, rfl, read⟩ | none'
    next =>
      cases found
      exact keys_entryValues read
    next => cases found
    next => exact absurd found (none' _ _)
  | cons place address ih =>
    obtain ⟨w, child, found⟩ := Option.bind_eq_some_iff.mp found
    have step {inner : Item} (own : item.child? place = some inner) (read : inner.toValue = .ok w) :
        Entries.keys entries = item.view.keys (place :: address) := by
      have below := item.below_view place
      rw [own, Option.elim_some] at below
      rw [ih (.value read) found, ← below]
      rfl
    rcases h.shape with ⟨_, _, _, _, rfl, rfl, read⟩ | ⟨_, _, _, _, rfl, rfl, read⟩ | none'
    next =>
      cases place with
      | item index => cases child
      | entry key =>
        obtain ⟨inner, own, value⟩ := find?_entryValues read child
        exact step own value
    next =>
      cases place with
      | entry key => cases child
      | item index =>
        obtain ⟨inner, own, value⟩ := getElem?_itemValues read child
        exact step own value
    next => exact absurd (Value.at?_of_child? child address ▸ found) (none' (place :: address) _)

end Item.Gives

theorem keys_at_of_read {source : Text} {v : Value} (h : read source = .ok v) :
    ∃ statements,
      readStatements (Text.byteSize source) source.length (skipMark source) = .ok statements ∧
        ∀ address entries, v.at? address = some (.record entries) →
          Entries.keys entries = placed (mentions statements) address := by
  obtain ⟨table, built, h⟩ := ok_of_bind h
  obtain ⟨values, converted, same⟩ := ok_of_bind h
  cases same
  obtain ⟨statements, parsed, view⟩ := view_of_readTable built
  have gives : (table.toItem ⟨0, 0⟩).Gives (.record values) := .root converted
  refine ⟨statements, parsed, fun address entries found => ?_⟩
  rw [gives.keys_at found, Table.view_toItem, view]
  rfl

end Toml

namespace Source

variable {source : Source} {v : Value}

/-- In every table of a document, the keys stand in the order in which they are first mentioned,
except that a header of the table's own takes a key to the end. -/
theorem keys_of_readToml (h : source.readToml = .ok v) :
    ∃ statements,
      Toml.readStatements (Text.byteSize source.text) source.text.length
          (Toml.skipMark source.text) = .ok statements ∧
        ∀ address entries, v.at? address = some (.record entries) →
          Entries.keys entries = Toml.placed (Toml.mentions statements) address ∧
            ((∀ before key after,
                Toml.mentions statements =
                  before ++ .table (address ++ [.entry key]) :: after →
                ∀ mention ∈ before, Toml.keyBelow address mention.address ≠ some key) →
              Entries.keys entries = Toml.firstMentions (Toml.mentions statements) address) := by
  obtain ⟨statements, parsed, keys⟩ := Toml.keys_at_of_read (readToml_ok h)
  refine ⟨statements, parsed, fun address entries found => ⟨keys address entries found, ?_⟩⟩
  intro fresh
  rw [keys address entries found, Toml.placed_eq_firstMentions fresh]

theorem readToml_of_table {entries : List (Text × Value)}
    (h : ∃ table, Toml.readTable source.text = .ok table ∧
      Toml.entryValues table.entries = .ok entries) :
    source.readToml = .ok (.record entries) := by
  obtain ⟨table, built, converted⟩ := h
  rw [readToml, Toml.read, built]
  simp only [bind, Except.bind, converted]
  rfl

theorem keys_of_readToml_tables :
    let toml : Source :=
      ⟨"a.b = true\n[p.q]\n[[t]]\n[p]\n[[t]]\nm = []\nl = \"\"".toList, "values.toml".toList⟩
    let v : Value := .record
      [(['a'], .record [(['b'], .boolean true)]),
        (['t'], .array [.record [], .record [(['m'], .array []), (['l'], .string [])]]),
        (['p'], .record [(['q'], .record [])])]
    toml.readToml = .ok v ∧
      ∃ statements,
        Toml.readStatements (Text.byteSize toml.text) toml.text.length
            (Toml.skipMark toml.text) = .ok statements ∧
          Toml.placed (Toml.mentions statements) [] = [['a'], ['t'], ['p']] ∧
          Toml.placed (Toml.mentions statements) [.entry ['t'], .item 1] = [['m'], ['l']] := by
  intro toml v
  have read : toml.readToml = .ok v := by
    refine readToml_of_table ⟨?_, ?table, ?values⟩
    case table =>
      cbv
      rfl
    case values => rfl
  obtain ⟨statements, parsed, keys⟩ := keys_of_readToml read
  exact ⟨read, statements, parsed, (keys [] _ rfl).1.symm,
    (keys [.entry ['t'], .item 1] _ rfl).1.symm⟩

theorem keys_of_readToml_reopened :
    let toml : Source := ⟨"[a.b]\n[c]\n[a]\n".toList, "config.toml".toList⟩
    toml.readToml = .ok (.record [(['c'], .record []), (['a'], .record [(['b'], .record [])])]) ∧
      ∃ statements,
        Toml.readStatements (Text.byteSize toml.text) toml.text.length
            (Toml.skipMark toml.text) = .ok statements ∧
          Toml.firstMentions (Toml.mentions statements) [] = [['a'], ['c']] := by
  intro toml
  refine ⟨readToml_of_table ⟨?_, ?table, ?values⟩, ?_, ?statements, ?first⟩
  case table =>
    cbv
    rfl
  case values => rfl
  case statements =>
    cbv
    rfl
  case first => rfl

end Source

end DataLiteral
