import Mathlib.Order.Bounds.Defs
import DataLiteral.Proofs.Declaration.Documentation

set_option autoImplicit false

namespace DataLiteral.Layout

namespace Step

def written (margin : Text) : Step → Text
  | .line text => margin ++ text ++ ['\n']
  | .raw text => text
  | .newline => '\n' :: margin
  | .indentation => margin
  | .push => []
  | .pop => []
  | .doc entries => Fragment.written margin (.doc entries)
  | .emit fragments => fragments.flatMap (Fragment.written margin)

def shift : Step → Int
  | .push => 1
  | .pop => -1
  | _ => 0

end Step

theorem emit_eq (layout : Layout) (fragments : List Fragment) :
    layout.emit fragments = layout.raw (fragments.flatMap (Fragment.written layout.margin)) := by
  induction fragments generalizing layout with
  | nil => simp [emit, raw]
  | cons fragment rest ih =>
    have next := ih (layout.fragment fragment)
    simp only [fragment_eq] at next
    simpa [emit, fragment_eq, raw, margin] using next

theorem apply_eq (layout : Layout) (step : Step) :
    layout.apply step =
      ⟨layout.indent, (layout.level + step.shift).toNat,
        layout.text ++ step.written layout.margin⟩ := by
  cases step with
  | push => simp [apply, push, Step.shift, Step.written]
  | pop => simp [apply, pop, Step.shift, Step.written]; omega
  | doc entries => simp [apply, doc, fragment_eq, raw, Step.shift, Step.written]
  | emit fragments => simp [apply, emit_eq, raw, Step.shift, Step.written]
  | line | raw | newline | indentation =>
    simp [apply, line, raw, newline, indentation, Step.shift, Step.written]

def balance (steps : List Step) : Int :=
  steps.count .push - steps.count .pop

def balances (steps : List Step) : Set Int :=
  {b | ∃ early, early <+: steps ∧ balance early = b}

theorem balance_cons (step : Step) (rest : List Step) :
    balance (step :: rest) = step.shift + balance rest := by
  cases step <;> simp [balance, Step.shift] <;> omega

theorem isLeast_balances_cons {rest : List Step} {m : Int} (step : Step)
    (least : IsLeast (balances rest) m) :
    IsLeast (balances (step :: rest)) (min 0 (step.shift + m)) := by
  obtain ⟨⟨lowest, inside, rfl⟩, below⟩ := least
  constructor
  next =>
    by_cases negative : step.shift + balance lowest ≤ 0
    next =>
      refine ⟨step :: lowest, List.cons_prefix_cons.mpr ⟨rfl, inside⟩, ?_⟩
      rw [balance_cons, Int.min_eq_right negative]
    next =>
      refine ⟨[], List.nil_prefix, ?_⟩
      rw [Int.min_eq_left (by omega)]
      rfl
  next =>
    rintro b ⟨early, within, rfl⟩
    rcases List.prefix_cons_iff.mp within with rfl | ⟨tail, rfl, later⟩
    next => exact Int.min_le_left 0 _
    next =>
      have bound := below ⟨tail, later, rfl⟩
      simp only [balance_cons]
      omega

-- From a level on, the balance is reflected where it would lead below zero.
theorem level_run (layout : Layout) (steps : List Step) :
    ∃ m, IsLeast (balances steps) m ∧
      ((layout.run steps).level : Int) = max (layout.level + balance steps) (balance steps - m) := by
  induction steps generalizing layout with
  | nil =>
    refine ⟨0, ⟨⟨[], List.nil_prefix, rfl⟩, ?_⟩, ?_⟩
    next =>
      rintro b ⟨early, within, rfl⟩
      rw [List.prefix_nil.mp within]
      exact Int.le_refl 0
    next => simp [run, balance]
  | cons step rest ih =>
    obtain ⟨m, least, reached⟩ := ih (layout.apply step)
    have lowest : m ≤ 0 := least.2 ⟨[], List.nil_prefix, rfl⟩
    refine ⟨_, isLeast_balances_cons step least, ?_⟩
    simp only [apply_eq] at reached
    simp only [run, List.foldl_cons, apply_eq, balance_cons] at reached ⊢
    omega

def prepend (before : Text) (layout : Layout) : Layout :=
  { layout with text := before ++ layout.text }

theorem apply_prepend (before : Text) (layout : Layout) (step : Step) :
    (layout.prepend before).apply step = (layout.apply step).prepend before := by
  simp [apply_eq, prepend, margin]

theorem run_prepend (before : Text) (layout : Layout) (steps : List Step) :
    (layout.prepend before).run steps = (layout.run steps).prepend before := by
  induction steps generalizing layout with
  | nil => rfl
  | cons step rest ih => simpa [run, apply_prepend] using ih (layout.apply step)

theorem text_run (layout : Layout) (steps : List Step) :
    (layout.run steps).text =
      layout.text ++ (run ⟨layout.indent, layout.level, []⟩ steps).text := by
  have written := run_prepend layout.text ⟨layout.indent, layout.level, []⟩ steps
  simpa [prepend] using congrArg Layout.text written

theorem indent_run (layout : Layout) (steps : List Step) :
    (layout.run steps).indent = layout.indent := by
  induction steps generalizing layout with
  | nil => rfl
  | cons step rest ih =>
    have next := ih (layout.apply step)
    simpa [run, apply_eq] using next

theorem run_replicate_push (layout : Layout) (n : Nat) :
    layout.run (List.replicate n .push) = { layout with level := layout.level + n } := by
  induction n generalizing layout with
  | zero => rfl
  | succ n ih =>
    have next := ih layout.push
    simpa [List.replicate_succ, run, apply, push, Nat.add_comm, Nat.add_left_comm] using next

/-- What a sequence of steps comes to. Its level is its balance, less what the balance goes below
zero on the way. Its text is that of any first part, and then what the other part writes from the
level that the first one reached. -/
theorem level_text_run (indent : Indent) :
    (∀ steps, ∃ m, IsLeast (balances steps) m ∧
      (((empty indent).run steps).level : Int) = balance steps - min 0 m) ∧
    ∀ first second, ((empty indent).run (first ++ second)).text =
      ((empty indent).run first).text ++
        ((empty indent).run
          (List.replicate ((empty indent).run first).level .push ++ second)).text := by
  constructor
  next =>
    intro steps
    obtain ⟨m, least, reached⟩ := level_run (empty indent) steps
    have lowest : m ≤ 0 := least.2 ⟨[], List.nil_prefix, rfl⟩
    have final : balance steps ≤ balance steps - m := by omega
    refine ⟨m, least, ?_⟩
    simp only [empty] at reached ⊢
    omega
  next =>
    intro first second
    simp only [run_append, text_run ((empty indent).run first), indent_run, run_replicate_push]
    simp [empty]

example : ((empty .tab).run [.pop, .push, .line ['a']]).text = "\ta\n".toList := by
  decide

end DataLiteral.Layout
