import Mathlib.Data.List.DropRight
import DataLiteral.Declaration.Factory
import DataLiteral.Declaration.TypeAlias

set_option autoImplicit false

namespace DataLiteral

namespace AliasFactory

inductive Event where
  | exported
  | identifier (name : Text)
  | parameter (name : Text)
  | reference (name : Text)
  | declare
  | attach (comments : List Text)
  deriving DecidableEq, Repr

variable {σ μ ι α β γ : Type}

def noted (event : Event) (call : StateM σ β) : StateM (σ × List Event) β :=
  fun (state, events) => ((call.run state).1, (call.run state).2, events ++ [event])

def traced (F : AliasFactory σ μ ι α) : AliasFactory (σ × List Event) μ ι α where
  exported := noted .exported F.exported
  identifier name := noted (.identifier name) (F.identifier name)
  parameter name := noted (.parameter name) (F.parameter name)
  reference name := noted (.reference name) (F.reference name)
  declare modifiers name parameters referenced :=
    noted .declare (F.declare modifiers name parameters referenced)
  attach node comments := noted (.attach comments) (F.attach node comments)

def attachments : Option (List Text) → List Event
  | some (line :: rest) => [.attach (line :: rest)]
  | _ => []

/-- `recorded` does what `plain` does, and puts these events on record. -/
def Traces (recorded : StateM (σ × List Event) β) (plain : StateM σ β) (events : List Event) :
    Prop :=
  ∀ state before,
    recorded.run (state, before) = ((plain.run state).1, (plain.run state).2, before ++ events)

theorem traces_noted (event : Event) (call : StateM σ β) :
    Traces (noted event call) call [event] :=
  fun _ _ => rfl

theorem traces_pure (made : β) : Traces (pure made : StateM (σ × List Event) β) (pure made) [] :=
  fun _ before => by rw [List.append_nil]; rfl

theorem Traces.bind {recorded : StateM (σ × List Event) β} {plain : StateM σ β}
    {recordedNext : β → StateM (σ × List Event) γ} {plainNext : β → StateM σ γ}
    {events later : List Event} (first : Traces recorded plain events)
    (next : ∀ made, Traces (recordedNext made) (plainNext made) later) :
    Traces (recorded >>= recordedNext) (plain >>= plainNext) (events ++ later) := by
  intro state before
  have continued := next (plain.run state).1 (plain.run state).2 (before ++ events)
  rw [StateT.run_bind, first state before, ← List.append_assoc]
  exact continued

theorem traces_parameters (F : AliasFactory σ μ ι α) (parameters : List Text) :
    Traces (parameters.mapM F.traced.parameter) (parameters.mapM F.parameter)
      (parameters.map .parameter) := by
  induction parameters with
  | nil => exact traces_pure []
  | cons p rest ih =>
    rw [List.mapM_cons, List.mapM_cons]
    refine (traces_noted (.parameter p) (F.parameter p)).bind fun made => ?_
    have later := ih.bind fun others => traces_pure (σ := σ) (made :: others)
    rwa [List.append_nil] at later

theorem traces_attachComments (F : AliasFactory σ μ ι α) (node : α)
    (comments : Option (List Text)) :
    Traces (F.traced.attachComments node comments) (F.attachComments node comments)
      (attachments comments) := by
  rcases comments with _ | _ | ⟨line, rest⟩
  next => exact traces_pure node
  next => exact traces_pure node
  next => exact traces_noted _ _

theorem traces_build (F : AliasFactory σ μ ι α) (name referenced : Text) (parameters : List Text)
    (comments : Option (List Text)) :
    Traces (F.traced.build name referenced parameters comments)
      (F.build name referenced parameters comments)
      (.exported :: .identifier name :: (parameters.map .parameter ++
        .reference referenced :: .declare :: attachments comments)) := by
  have shape : Event.exported :: .identifier name :: (parameters.map .parameter ++
      .reference referenced :: .declare :: attachments comments) =
        [.exported] ++ ([.identifier name] ++ (parameters.map .parameter ++
          ([.reference referenced] ++ ([.declare] ++ (attachments comments ++ []))))) := by
    simp
  rw [shape]
  refine (traces_noted _ _).bind fun exported => ?_
  refine (traces_noted _ _).bind fun bound => ?_
  refine (traces_parameters F parameters).bind fun generics => ?_
  refine (traces_noted _ _).bind fun target => ?_
  refine (traces_noted _ _).bind fun node => ?_
  exact (traces_attachComments F node comments).bind fun made => traces_pure _

end AliasFactory

namespace TypeAlias.Draft

open Fragment (docLines)

namespace Call

def names : Call → List Text
  | .parameter name => [name]
  | .parameters names => names
  | .comment _ | .comments _ => []

def added : Call → List Text
  | .comment line => [line]
  | .parameter _ | .parameters _ | .comments _ => []

def setting? : Call → Option (Option (List Text))
  | .comments lines => some lines
  | .parameter _ | .parameters _ | .comment _ => none

def isParameter : Call → Bool
  | .parameter _ | .parameters _ => true
  | .comment _ | .comments _ => false

end Call

/-- What the last call that sets the comments sets them to; if none does, what they are at first. -/
def lastSetting (first : Option (List Text)) (calls : List Call) : Option (List Text) :=
  (calls.filterMap Call.setting?).getLast?.getD first

def linesSince (calls : List Call) : List Text :=
  (calls.rtakeWhile fun call => call.setting?.isNone).flatMap Call.added

-- Comments with some more lines. No lines leave it open whether there are comments.
def extended (comments : Option (List Text)) : List Text → Option (List Text)
  | [] => comments
  | line :: rest => some (comments.getD [] ++ line :: rest)

theorem extended_concat (comments : Option (List Text)) (lines : List Text) (line : Text) :
    extended comments (lines ++ [line]) =
      some ((extended comments lines).getD [] ++ [line]) := by
  cases lines <;> simp [extended]

theorem extended_eq_none (comments : Option (List Text)) (lines : List Text) :
    extended comments lines = none ↔ comments = none ∧ lines = [] := by
  cases lines <;> simp [extended]

theorem lastSetting_concat (first : Option (List Text)) (before : List Call) (call : Call) :
    lastSetting first (before ++ [call]) = call.setting?.getD (lastSetting first before) := by
  cases h : call.setting? <;> simp [lastSetting, h]

theorem linesSince_concat (before : List Call) (call : Call) :
    linesSince (before ++ [call]) =
      if call.setting?.isNone then linesSince before ++ call.added else [] := by
  rw [linesSince, List.rtakeWhile_concat]
  split <;> simp [linesSince]

theorem run_eq (draft : Draft) (calls : List Call) :
    draft.run calls =
      ⟨draft.name, draft.referenced, draft.parameters ++ calls.flatMap Call.names,
        extended (lastSetting draft.comments calls) (linesSince calls)⟩ := by
  induction calls using List.reverseRecOn with
  | nil => simp [run, lastSetting, linesSince, extended]
  | append_singleton before call ih =>
    have step : draft.run (before ++ [call]) = (draft.run before).apply call := List.foldl_concat ..
    rw [step, ih, lastSetting_concat, linesSince_concat]
    cases call with
    | parameter name => simp [apply, Call.names, Call.setting?, Call.added]
    | parameters names => simp [apply, Call.names, Call.setting?, Call.added]
    | comment line => simp [apply, Call.names, Call.setting?, Call.added, extended_concat]
    | comments lines => simp [apply, Call.names, Call.setting?, extended]

theorem apply_comm {a b : Call} (h : a.isParameter ≠ b.isParameter) (draft : Draft) :
    (draft.apply a).apply b = (draft.apply b).apply a := by
  cases a <;> cases b <;> simp [Call.isParameter, apply] at h ⊢

theorem run_apply {call : Call} {calls : List Call}
    (others : ∀ other ∈ calls, call.isParameter ≠ other.isParameter) (draft : Draft) :
    (draft.apply call).run calls = (draft.run calls).apply call := by
  induction calls generalizing draft with
  | nil => rfl
  | cons other rest ih =>
    obtain ⟨first, later⟩ := List.forall_mem_cons.mp others
    have swapped := ih later (draft.apply other)
    rw [← apply_comm first] at swapped
    exact swapped

theorem run_append (draft : Draft) (first second : List Call) :
    draft.run (first ++ second) = (draft.run first).run second :=
  List.foldl_append

theorem run_sorted (first : Bool) (draft : Draft) (calls : List Call) :
    draft.run calls =
      draft.run (calls.filter (·.isParameter == first) ++ calls.filter (·.isParameter != first)) := by
  induction calls generalizing draft with
  | nil => rfl
  | cons call rest ih =>
    have later := ih (draft.apply call)
    by_cases kind : call.isParameter = first
    next =>
      rw [List.filter_cons_of_pos (by simp [kind]), List.filter_cons_of_neg (by simp [kind])]
      exact later
    next =>
      have others : ∀ other ∈ rest.filter (·.isParameter == first),
          call.isParameter ≠ other.isParameter := by
        intro other member same
        exact kind (same.trans (beq_iff_eq.mp (List.mem_filter.mp member).2))
      rw [List.filter_cons_of_neg (by simp [kind]), List.filter_cons_of_pos (by simp [kind]),
        run_append]
      calc draft.run (call :: rest)
          = (draft.apply call).run (rest.filter (·.isParameter == first) ++
              rest.filter (·.isParameter != first)) := later
        _ = ((draft.apply call).run (rest.filter (·.isParameter == first))).run
              (rest.filter (·.isParameter != first)) := run_append _ _ _
        _ = ((draft.run (rest.filter (·.isParameter == first))).apply call).run
              (rest.filter (·.isParameter != first)) := by rw [run_apply others]

theorem build_eq_declaration (draft : Draft) :
    draft.build.1 = ⟨[.exported], draft.name, draft.parameters, draft.referenced,
      docLines (draft.comments.getD [])⟩ := by
  obtain ⟨name, referenced, parameters, comments⟩ := draft
  have kept : parameters.map assembly.parameter = parameters := List.map_id parameters
  simp only [build, AliasAssembly.build, kept]
  rcases comments with _ | _ | ⟨line, rest⟩ <;> rfl

/-- A new draft after a sequence of calls has all parameters that were given, in the order of the
calls, and the comments of the last call that sets them with the lines that were added after it. So
the calls of one kind may all come before those of the other. What is built from it is exported, and
has these parameters and the lines of these comments; in building it, with whatever calls, comments
are attached once if there are any, and never if there are none. -/
theorem build_run (name referenced : Text) (calls : List Call) :
    let draft := (new name referenced).run calls
    let parameters := calls.flatMap Call.names
    let comments := extended (lastSetting none calls) (linesSince calls)
    draft = ⟨name, referenced, parameters, comments⟩ ∧
      (comments = none ↔ lastSetting none calls = none ∧ linesSince calls = []) ∧
      (∀ first : Bool, draft = (new name referenced).run
        (calls.filter (·.isParameter == first) ++ calls.filter (·.isParameter != first))) ∧
      draft.build.1 =
        ⟨[.exported], name, parameters, referenced, docLines (comments.getD [])⟩ ∧
      ∀ {σ μ ι α : Type} (F : AliasFactory σ μ ι α),
        AliasFactory.Traces
          (F.traced.build draft.name draft.referenced draft.parameters draft.comments)
          (F.build draft.name draft.referenced draft.parameters draft.comments)
          (.exported :: .identifier name :: (parameters.map .parameter ++
            .reference referenced :: .declare :: AliasFactory.attachments comments)) := by
  intro draft parameters comments
  have shape : draft = ⟨name, referenced, parameters, comments⟩ :=
    run_eq (new name referenced) calls
  refine ⟨shape, extended_eq_none _ _, fun first => run_sorted first _ calls, ?_, fun F => ?_⟩
  next => rw [build_eq_declaration, shape]
  next =>
    rw [shape]
    exact AliasFactory.traces_build F name referenced parameters comments

end TypeAlias.Draft

end DataLiteral
