import Mathlib.Data.List.Forall2
import DataLiteral.Expr.Print

set_option autoImplicit false

namespace DataLiteral

namespace Layout

/-- Steps that write a text after whatever stands there, and come back to the level that they start
from. -/
def Writes (indent : Indent) (level : Nat) (steps : List Step) (text : Text) : Prop :=
  ∀ before, run ⟨indent, level, before⟩ steps = ⟨indent, level, before ++ text⟩

namespace Writes

variable {indent : Indent} {level : Nat} {first second steps : List Step} {text later : Text}

theorem nil : Writes indent level [] [] := by
  intro before
  simp [run]

theorem append (h : Writes indent level first text) (next : Writes indent level second later) :
    Writes indent level (first ++ second) (text ++ later) := by
  intro before
  simp only [run_append, h before, next (before ++ text), List.append_assoc]

theorem raw (text : Text) : Writes indent level [.raw text] text := by
  intro before
  rfl

theorem newline : Writes indent level [.newline] ('\n' :: indent.margin level) := by
  intro before
  rfl

theorem deeper (h : Writes indent (level + 1) steps text) :
    Writes indent level ([.push] ++ steps ++ [.pop]) text := by
  intro before
  have opened : run ⟨indent, level, before⟩ [.push] = ⟨indent, level + 1, before⟩ := rfl
  simp only [run_append, opened, h before]
  rfl

theorem intercalate {separator : List Step} {between : Text} {children : List (List Step)}
    {texts : List Text} (apart : Writes indent level separator between)
    (h : List.Forall₂ (Writes indent level) children texts) :
    Writes indent level (separator.intercalate children) (between.intercalate texts) := by
  induction h with
  | nil => exact nil
  | @cons child text children texts first rest ih =>
    cases rest with
    | nil => simpa using first
    | cons second others =>
      simp only [List.intercalate_cons_cons]
      exact (first.append apart).append ih

theorem enclose {children : List (List Step)} {texts : List Text} (b : Expr.Brackets)
    (multiLine : Bool)
    (h : List.Forall₂ (Writes indent (Expr.childLevel level multiLine)) children texts) :
    Writes indent level (b.steps multiLine children) (b.enclose indent level multiLine texts) := by
  have empty : children.isEmpty = texts.isEmpty := by cases h <;> rfl
  simp only [Expr.Brackets.steps, Expr.Brackets.enclose, empty]
  split
  next => exact raw _
  next =>
    cases multiLine with
    | false =>
      have children : List.Forall₂ (Writes indent level) children texts := h
      have inside := (raw (b.opening ++ b.padding)).append
        ((intercalate (raw [',', ' ']) children).append (raw (b.padding ++ b.closing)))
      simpa using inside
    | true =>
      have lines : List.Forall₂ (Writes indent (level + 1)) (children.map (.newline :: ·))
          (texts.map ('\n' :: indent.margin (level + 1) ++ ·)) := by
        rw [List.forall₂_map_left_iff, List.forall₂_map_right_iff]
        exact h.imp fun _ _ child => newline.append child
      have inside := (raw b.opening).append
        ((intercalate (raw [',']) lines).deeper.append (newline.append (raw b.closing)))
      simpa using inside

end Writes

end Layout

namespace Expr

open Layout (Writes)

section

variable (indent : Indent) (q : Quote)

mutual

theorem writes_steps (level : Nat) :
    ∀ e : Expr, Writes indent level (e.steps q) (e.textAt indent q level)
  | .null | .boolean true | .boolean false | .number _ | .string _ _ => .raw _
  | .array elements multiLine =>
    .enclose arrayBrackets multiLine (writes_elementSteps (childLevel level multiLine) elements)
  | .object properties multiLine =>
    .enclose objectBrackets multiLine
      (writes_propertySteps (childLevel level multiLine) properties)

theorem writes_elementSteps (level : Nat) : ∀ elements : List Expr,
    List.Forall₂ (Writes indent level) (elementSteps q elements)
      (elementTexts indent q level elements)
  | [] => .nil
  | element :: rest => .cons (writes_steps level element) (writes_elementSteps level rest)

theorem writes_propertySteps (level : Nat) : ∀ properties : List (Text × Expr),
    List.Forall₂ (Writes indent level) (propertySteps q properties)
      (propertyTexts indent q level properties)
  | [] => .nil
  | (key, value) :: rest => by
    have property := (Writes.raw (keyText q key ++ [':', ' '])).append
      (writes_steps level value)
    refine .cons ?_ (writes_propertySteps level rest)
    simpa using property

end

end

theorem run_steps (layout : Layout) (q : Quote) (e : Expr) :
    layout.expr q e = layout.raw (e.textAt layout.indent q layout.level) :=
  writes_steps layout.indent q layout.level e layout.text

/-- Printing is writing where nothing stands yet. -/
theorem text_expr_empty (style : Style) (e : Expr) :
    ((Layout.empty style.indent).expr style.quote e).text = e.print style := by
  rw [run_steps]
  rfl

end Expr

end DataLiteral
