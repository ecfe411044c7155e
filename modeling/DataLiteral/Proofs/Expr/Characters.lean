import DataLiteral.Expr.Print
import DataLiteral.Proofs.Number.Literal

set_option autoImplicit false

namespace DataLiteral

namespace Text

variable {f : Char → Text}

theorem flatMap_of_kept {text : Text} (kept : ∀ c ∈ text, f c = [c]) : text.flatMap f = text := by
  rw [List.flatMap_congr kept, List.flatMap_singleton']

theorem flatMap_intercalate (separator : Text) (texts : List Text) :
    (separator.intercalate texts).flatMap f =
      (separator.flatMap f).intercalate (texts.map (·.flatMap f)) := by
  induction texts with
  | nil => rfl
  | cons text rest ih =>
    cases rest with
    | nil => simp
    | cons next rest =>
      simp only [List.map_cons] at ih
      simp only [List.map_cons, List.intercalate_cons_cons, List.flatMap_append, ih]

theorem notMem_intercalate {c : Char} {separator : Text} {texts : List Text}
    (between : c ∉ separator) (h : ∀ text ∈ texts, c ∉ text) :
    c ∉ separator.intercalate texts := by
  induction texts with
  | nil => exact List.not_mem_nil
  | cons text rest ih =>
    obtain ⟨first, others⟩ := List.forall_mem_cons.mp h
    cases rest with
    | nil => simpa using first
    | cons next rest => simp [List.intercalate_cons_cons, first, between, ih others]

end Text

namespace Number

def isNumeric (c : Char) : Bool :=
  c.isAlphanum || c == '.' || c == '-' || c == '+'

theorem isNumeric_of_isDigit {c : Char} (h : c.isDigit) : isNumeric c := by
  simp [isNumeric, Char.isAlphanum, h]

theorem isNumeric_of_writes {magnitude : Text} {value : ℚ} (h : Decimal.Writes magnitude value) :
    ∀ c ∈ magnitude, isNumeric c := by
  obtain ⟨n, rfl, wellFormed, _⟩ := h
  have digits {text : Text} (h : Decimal.Numeral.IsDigits text) : ∀ c ∈ text, isNumeric c :=
    fun c member => isNumeric_of_isDigit (h.2 c member)
  have fraction : ∀ c ∈ n.fraction, isNumeric c := by
    rcases wellFormed.fraction with none' | ⟨places, shape, isDigits⟩
    next => simp [none']
    next =>
      rw [shape]
      exact List.forall_mem_cons.mpr ⟨rfl, digits isDigits⟩
  have exponent : ∀ c ∈ n.exponent, isNumeric c := by
    rcases wellFormed.exponent with none' | ⟨mark, sign, places, shape, isMark, signs, isDigits⟩
    next => simp [none']
    next =>
      have marks : isNumeric mark := by
        simp only [Decimal.Numeral.isMark, Bool.or_eq_true, beq_iff_eq] at isMark
        rcases isMark with rfl | rfl <;> rfl
      have signed : ∀ c ∈ sign, isNumeric c := by
        rcases signs with rfl | rfl | rfl <;> exact List.all_eq_true.mp rfl
      rw [shape]
      exact List.forall_mem_cons.mpr ⟨marks, List.forall_mem_append.mpr ⟨signed, digits isDigits⟩⟩
  exact List.forall_mem_append.mpr
    ⟨List.forall_mem_append.mpr ⟨digits wellFormed.whole, fraction⟩, exponent⟩

theorem isNumeric_literal (n : Number) : ∀ c ∈ n.literal, isNumeric c := by
  obtain ⟨negative, magnitude, shape, isMagnitude⟩ := literal_eq n
  have unsigned : ∀ c ∈ magnitude, isNumeric c := by
    rcases magnitude_cases isMagnitude with rfl | rfl | ⟨_, value, writes⟩
    next => exact List.all_eq_true.mp rfl
    next => exact List.all_eq_true.mp rfl
    next => exact isNumeric_of_writes writes
  have sign : ∀ c ∈ signText negative, isNumeric c := by
    cases negative <;> exact List.all_eq_true.mp rfl
  rw [shape]
  exact List.forall_mem_append.mpr ⟨sign, unsigned⟩

end Number

theorem notMem_of_isIdentifier {c : Char} {key : Text} (h : isIdentifier key)
    (other : (isWordStart c || c.isDigit) = false) : c ∉ key := by
  cases key with
  | nil => exact List.not_mem_nil
  | cons first rest =>
    simp only [isIdentifier, Bool.and_eq_true, List.all_eq_true] at h
    intro member
    rcases List.mem_cons.mp member with rfl | later
    next => simp [h.1] at other
    next => simp [h.2 c later] at other

namespace Expr

theorem intercalate_map_append (space : Text) {children : List Text} (nonempty : children ≠ []) :
    [','].intercalate (children.map (space ++ ·)) =
      space ++ (',' :: space).intercalate children := by
  induction children with
  | nil => exact absurd rfl nonempty
  | cons child rest ih =>
    cases rest with
    | nil => simp
    | cons next rest =>
      have later := ih (List.cons_ne_nil next rest)
      simp only [List.map_cons, List.intercalate_cons_cons] at later ⊢
      rw [later]
      simp

variable {f : Char → Text} {indent : Indent} {outer : Nat}

theorem flatMap_enclose {b : Brackets} (level : Nat) (multiLine : Bool) (children : List Text)
    (kept : ∀ c ∈ b.opening ++ b.closing ++ b.padding ++ [',', ' '], f c = [c])
    (shifted : ∀ n, ('\n' :: indent.margin n).flatMap f = '\n' :: indent.margin (outer + n)) :
    (b.enclose indent level multiLine children).flatMap f =
      b.enclose indent (outer + level) multiLine (children.map (·.flatMap f)) := by
  simp only [List.forall_mem_append] at kept
  obtain ⟨⟨⟨opening, closing⟩, padding⟩, separator⟩ := kept
  have comma : f ',' = [','] := separator ',' (by simp)
  have space : f ' ' = [' '] := separator ' ' (by simp)
  have shift (n : Nat) (text : Text) : ('\n' :: indent.margin n ++ text).flatMap f =
      '\n' :: indent.margin (outer + n) ++ text.flatMap f := by
    rw [List.flatMap_append, shifted]
  simp only [Brackets.enclose, List.isEmpty_map]
  split
  next =>
    simp only [List.flatMap_append, Text.flatMap_of_kept opening, Text.flatMap_of_kept closing]
  next =>
    split
    next =>
      simp only [List.flatMap_append, Text.flatMap_of_kept opening, Text.flatMap_of_kept closing,
        Text.flatMap_intercalate, List.map_map, Function.comp_def, shift, shifted, Nat.add_assoc]
      simp [comma]
    next =>
      simp only [List.flatMap_append, Text.flatMap_of_kept opening, Text.flatMap_of_kept closing,
        Text.flatMap_of_kept padding, Text.flatMap_intercalate]
      simp [comma, space]

end Expr

end DataLiteral
