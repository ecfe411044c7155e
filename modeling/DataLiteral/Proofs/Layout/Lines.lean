import DataLiteral.Proofs.Layout.Embedding

set_option autoImplicit false

namespace DataLiteral

def isSolid (c : Char) : Bool :=
  c != ' ' && c != '\t' && c != '\n'

theorem isSolid_iff {c : Char} : isSolid c ↔ c ≠ ' ' ∧ c ≠ '\t' ∧ c ≠ '\n' := by
  simp [isSolid, and_assoc]

theorem isSolid_of {p : Char → Bool} {c : Char} (h : p c)
    (blank : p ' ' = false ∧ p '\t' = false ∧ p '\n' = false) : isSolid c := by
  obtain ⟨space, tab, feed⟩ := blank
  refine isSolid_iff.mpr ⟨?_, ?_, ?_⟩ <;> rintro rfl <;> simp_all

namespace Expr

def children : Expr → Nat
  | .array elements _ => elements.length
  | .object properties _ => properties.length
  | _ => 0

def isSpread (e : Expr) : Bool :=
  e.isMultiLine && e.children != 0

/-- A text that tells of each character what is open around it: the composites whose opening bracket
stands before it and whose closing bracket stands behind it, from the innermost on. -/
abbrev Nested := List (Char × List Expr)

def within (around : List Expr) (text : Text) : Nested :=
  text.map fun c => (c, around)

def Brackets.encloseNested (b : Brackets) (indent : Indent) (level : Nat) (multiLine : Bool)
    (around inside : List Expr) (children : List Nested) : Nested :=
  if children.isEmpty then within around (b.opening ++ b.closing)
  else
    let deeper := '\n' :: indent.margin (level + 1)
    let first := if multiLine then deeper else b.padding
    let next := if multiLine then deeper else [' ']
    let last := if multiLine then '\n' :: indent.margin level else b.padding
    within around b.opening ++
      (within inside first ++ ((within inside (',' :: next)).intercalate children ++
        (within inside last ++ within around b.closing)))

mutual

def nestedAt (indent : Indent) (q : Quote) (level : Nat) (around : List Expr) : Expr → Nested
  | .array elements multiLine =>
      let inside := .array elements multiLine :: around
      arrayBrackets.encloseNested indent level multiLine around inside
        (elementsNested indent q (childLevel level multiLine) inside elements)
  | .object properties multiLine =>
      let inside := .object properties multiLine :: around
      objectBrackets.encloseNested indent level multiLine around inside
        (propertiesNested indent q (childLevel level multiLine) inside properties)
  | e => within around (e.textAt indent q level)

def elementsNested (indent : Indent) (q : Quote) (level : Nat) (around : List Expr) :
    List Expr → List Nested
  | [] => []
  | element :: rest =>
      element.nestedAt indent q level around :: elementsNested indent q level around rest

def propertiesNested (indent : Indent) (q : Quote) (level : Nat) (around : List Expr) :
    List (Text × Expr) → List Nested
  | [] => []
  | (key, value) :: rest =>
      (within around (keyText q key ++ [':', ' ']) ++ value.nestedAt indent q level around) ::
        propertiesNested indent q level around rest

end

theorem map_within (around : List Expr) (text : Text) :
    (within around text).map Prod.fst = text := by
  simp [within, Function.comp_def]

theorem map_intercalate {α β : Type} (f : α → β) (separator : List α) (texts : List (List α)) :
    (separator.intercalate texts).map f =
      (separator.map f).intercalate (texts.map (·.map f)) := by
  induction texts with
  | nil => rfl
  | cons text rest ih =>
    cases rest with
    | nil => simp
    | cons next rest =>
      simp only [List.map_cons] at ih
      simp only [List.map_cons, List.intercalate_cons_cons, List.map_append, ih]

theorem map_encloseNested (b : Brackets) (indent : Indent) (level : Nat) (multiLine : Bool)
    (around inside : List Expr) (children : List Nested) :
    (b.encloseNested indent level multiLine around inside children).map Prod.fst =
      b.enclose indent level multiLine (children.map (·.map Prod.fst)) := by
  simp only [Brackets.encloseNested, Brackets.enclose, List.isEmpty_map]
  split
  next => exact map_within around _
  next some' =>
    have nonempty : children.map (·.map Prod.fst) ≠ [] := by simpa using some'
    simp only [List.map_append, map_within, map_intercalate]
    split
    next =>
      simp only [intercalate_map_append _ nonempty]
      simp
    next => simp

section

variable (indent : Indent) (q : Quote)

mutual

theorem map_nestedAt (level : Nat) (around : List Expr) : ∀ e : Expr,
    (e.nestedAt indent q level around).map Prod.fst = e.textAt indent q level
  | .null | .boolean _ | .number _ | .string _ _ => map_within around _
  | .array elements multiLine => by
    rw [nestedAt, map_encloseNested, map_elementsNested, textAt]
  | .object properties multiLine => by
    rw [nestedAt, map_encloseNested, map_propertiesNested, textAt]

theorem map_elementsNested (level : Nat) (around : List Expr) : ∀ elements : List Expr,
    (elementsNested indent q level around elements).map (·.map Prod.fst) =
      elementTexts indent q level elements
  | [] => rfl
  | element :: rest => by
    rw [elementsNested, List.map_cons, map_nestedAt, map_elementsNested, elementTexts]

theorem map_propertiesNested (level : Nat) (around : List Expr) :
    ∀ properties : List (Text × Expr),
      (propertiesNested indent q level around properties).map (·.map Prod.fst) =
        propertyTexts indent q level properties
  | [] => rfl
  | (key, value) :: rest => by
    rw [propertiesNested, List.map_cons, List.map_append, map_within, map_nestedAt,
      map_propertiesNested, propertyTexts]
    simp

end

end

/-- What stands before and behind a line feed: a character that is seen, and as many indents as
composites with lines of their own are open at the next character that is seen. -/
def BreaksWell (indent : Indent) (before after : Nested) : Prop :=
  (∃ earlier c scope, before = earlier ++ [(c, scope)] ∧ isSolid c) ∧
    ∃ space c scope rest, after = space ++ (c, scope) :: rest ∧
      space.map Prod.fst = indent.margin (scope.countP isSpread) ∧ isSolid c

structure IsLaid (indent : Indent) (around : List Expr) (text : Nested) : Prop where
  first : ∃ c rest, text = (c, around) :: rest ∧ isSolid c
  last : ∃ before c scope, text = before ++ [(c, scope)] ∧ isSolid c
  breaks : ∀ before scope after, text = before ++ ('\n', scope) :: after →
    BreaksWell indent before after

structure IsTight (text : Text) : Prop where
  first : ∃ c rest, text = c :: rest ∧ isSolid c
  last : ∃ before c, text = before ++ [c] ∧ isSolid c
  unbroken : '\n' ∉ text

def IsGap (indent : Indent) (around : List Expr) (gap : Text) : Prop :=
  '\n' ∉ gap ∨ gap = '\n' :: indent.margin (around.countP isSpread)

theorem append_eq_append_cons {α : Type} {xs ys before after : List α} {x : α}
    (h : xs ++ ys = before ++ x :: after) :
    (∃ rest, xs = before ++ x :: rest ∧ after = rest ++ ys) ∨
      ∃ rest, before = xs ++ rest ∧ ys = rest ++ x :: after := by
  rcases List.append_eq_append_iff.mp h with ⟨rest, left, right⟩ | ⟨rest, left, right⟩
  next => exact .inr ⟨rest, left, right⟩
  next =>
    cases rest with
    | nil => exact .inr ⟨[], by simp [left], right.symm⟩
    | cons y rest =>
      cases right
      exact .inl ⟨rest, left, rfl⟩

section

variable {indent : Indent} {around scope : List Expr} {first second text : Nested} {gap : Text}

theorem BreaksWell.append_left {before after : Nested} (h : BreaksWell indent before after)
    (more : Nested) : BreaksWell indent (more ++ before) after := by
  obtain ⟨⟨earlier, c, own, rfl, solid⟩, follows⟩ := h
  exact ⟨⟨more ++ earlier, c, own, (List.append_assoc _ _ _).symm, solid⟩, follows⟩

theorem BreaksWell.append_right {before after : Nested} (h : BreaksWell indent before after)
    (more : Nested) : BreaksWell indent before (after ++ more) := by
  obtain ⟨precedes, space, c, own, rest, rfl, margin, solid⟩ := h
  exact ⟨precedes, space, c, own, rest ++ more, by simp, margin, solid⟩

theorem IsTight.isLaid {text : Text} (h : IsTight text) (around : List Expr) :
    IsLaid indent around (within around text) := by
  refine ⟨?_, ?_, ?_⟩
  next =>
    obtain ⟨c, rest, rfl, solid⟩ := h.first
    exact ⟨c, within around rest, rfl, solid⟩
  next =>
    obtain ⟨before, c, rfl, solid⟩ := h.last
    exact ⟨within around before, c, around, List.map_append, solid⟩
  next =>
    intro before own after same
    have member : '\n' ∈ text := by
      rw [← map_within around text, same, List.map_append]
      exact List.mem_append_right _ List.mem_cons_self
    exact absurd member h.unbroken

theorem isTight_singleton {c : Char} (solid : isSolid c) : IsTight [c] := by
  refine ⟨⟨c, [], rfl, solid⟩, ⟨[], c, rfl, solid⟩, ?_⟩
  intro member
  rw [← List.mem_singleton.mp member] at solid
  cases solid

namespace IsLaid

theorem join (h : IsLaid indent around first) (inside : List Expr)
    (between : IsGap indent scope gap) (h' : IsLaid indent scope second) :
    IsLaid indent around (first ++ (within inside gap ++ second)) := by
  refine ⟨?_, ?_, ?_⟩
  next =>
    obtain ⟨c, rest, rfl, solid⟩ := h.first
    exact ⟨c, _, rfl, solid⟩
  next =>
    obtain ⟨before, c, own, rfl, solid⟩ := h'.last
    exact ⟨first ++ (within inside gap ++ before), c, own, by simp, solid⟩
  next =>
    intro before own after same
    rcases append_eq_append_cons same with ⟨rest, shape, rfl⟩ | ⟨rest, rfl, behind⟩
    next => exact (h.breaks before own rest shape).append_right _
    rcases append_eq_append_cons behind with ⟨rest', shape, rfl⟩ | ⟨rest', rfl, shape⟩
    next =>
      have feed : gap = rest.map Prod.fst ++ '\n' :: rest'.map Prod.fst := by
        rw [← map_within inside gap, shape, List.map_append]
        rfl
      rcases between with none' | newline
      next => exact absurd (feed ▸ List.mem_append_right _ List.mem_cons_self) none'
      next =>
        -- A margin has no line feed, so this is the one in front of it.
        rw [newline] at feed
        rcases List.append_eq_cons_iff.mp feed.symm with ⟨none', margin⟩ | ⟨more, _, margin⟩
        next =>
          obtain rfl := List.map_eq_nil_iff.mp none'
          obtain ⟨c, later, rfl, solid⟩ := h'.first
          rw [List.append_nil]
          exact ⟨h.last, rest', c, scope, later, rfl, (List.cons.inj margin).2, solid⟩
        next =>
          have member : '\n' ∈ indent.margin (scope.countP isSpread) :=
            margin ▸ List.mem_append_right more List.mem_cons_self
          exact absurd member (indent.notMem_margin _)
    next => exact ((h'.breaks rest' own after shape).append_left _).append_left _

theorem append (h : IsLaid indent around first) (h' : IsLaid indent scope second) :
    IsLaid indent around (first ++ second) :=
  h.join [] (.inl List.not_mem_nil) h'

theorem intercalate {next : Text} {children : List Nested} (h : IsLaid indent around text)
    (inside : List Expr) (between : IsGap indent scope gap) (between' : IsGap indent scope next)
    (each : ∀ child ∈ children, IsLaid indent scope child) (nonempty : children ≠ []) :
    IsLaid indent around (text ++ (within inside gap ++
      (within inside (',' :: next)).intercalate children)) := by
  induction children generalizing text gap with
  | nil => exact absurd rfl nonempty
  | cons child rest ih =>
    obtain ⟨own, others⟩ := List.forall_mem_cons.mp each
    have joined := h.join inside between own
    cases rest with
    | nil =>
      rw [List.intercalate_singleton]
      exact joined
    | cons second rest =>
      have comma : IsLaid indent inside (within inside [',']) :=
        (isTight_singleton (by decide)).isLaid inside
      have later := ih (joined.append comma) between' others (List.cons_ne_nil _ _)
      simpa [List.intercalate_cons_cons, within] using later

end IsLaid

theorem IsTight.append {text more : Text} (h : IsTight text) (h' : IsTight more) :
    IsTight (text ++ more) := by
  obtain ⟨⟨c, rest, rfl, solid⟩, _, plain⟩ := h
  obtain ⟨_, ⟨before, d, rfl, solid'⟩, plain'⟩ := h'
  refine ⟨⟨c, _, rfl, solid⟩, ⟨c :: rest ++ before, d, by simp, solid'⟩, ?_⟩
  exact List.not_mem_append plain plain'

theorem isLaid_encloseNested {b : Brackets} {level : Nat} {multiLine : Bool}
    {inside : List Expr} {children : List Nested} (opening : IsTight b.opening)
    (closing : IsTight b.closing) (padding : '\n' ∉ b.padding)
    (outer : around.countP isSpread = level)
    (inner : children ≠ [] → inside.countP isSpread = childLevel level multiLine)
    (each : ∀ child ∈ children, IsLaid indent inside child) :
    IsLaid indent around
      (b.encloseNested indent level multiLine around inside children) := by
  unfold Brackets.encloseNested
  split
  next => exact (opening.append closing).isLaid around
  next some' =>
    have nonempty : children ≠ [] := by simpa using some'
    have depth := inner nonempty
    have opens : IsLaid indent around (within around b.opening) := opening.isLaid around
    have closes : IsLaid indent around (within around b.closing) := closing.isLaid around
    cases multiLine with
    | false =>
      have gap : IsGap indent inside [' '] := .inl (by decide)
      have begun := opens.intercalate inside (.inl padding) gap each nonempty
      simpa using begun.join inside (.inl padding) closes
    | true =>
      have gap : IsGap indent inside ('\n' :: indent.margin (level + 1)) :=
        .inr (by rw [depth, childLevel, if_pos rfl])
      have begun := opens.intercalate inside gap gap each nonempty
      simpa using begun.join inside (.inr (by rw [outer])) closes

end

theorem isTight_of_solid {text : Text} (nonempty : text ≠ []) (solid : ∀ c ∈ text, isSolid c) :
    IsTight text := by
  refine ⟨?_, ?_, fun feed => by cases solid '\n' feed⟩
  next =>
    obtain ⟨c, rest, rfl⟩ := List.exists_cons_of_ne_nil nonempty
    exact ⟨c, rest, rfl, solid c List.mem_cons_self⟩
  next =>
    refine ⟨text.dropLast, text.getLast nonempty, (List.dropLast_append_getLast nonempty).symm, ?_⟩
    exact solid _ (List.getLast_mem nonempty)

theorem isTight_delimited {c : Char} {body : Text} (solid : isSolid c) (plain : '\n' ∉ body) :
    IsTight (c :: (body ++ [c])) := by
  have delimiter := (isTight_singleton solid).unbroken
  refine ⟨⟨c, _, rfl, solid⟩, ⟨c :: body, c, rfl, solid⟩, ?_⟩
  exact List.not_mem_append delimiter (List.not_mem_append plain delimiter)

theorem isSolid_quote (q : Quote) : isSolid q.char := by
  cases q <;> rfl

theorem isTight_escape (q : Quote) (text : Text) : IsTight (q.escape text) := by
  refine isTight_delimited (isSolid_quote q) fun feed => notMem_escape q text ?_
  exact List.mem_cons_of_mem _ (List.mem_append_left _ feed)

theorem isTight_verbatim {text : Text} (plain : '\n' ∉ text) (q : Quote) :
    IsTight (q.verbatim text) := by
  rcases Quote.verbatim_cases q text with ⟨d, shape, _⟩ | shape
  next =>
    rw [shape]
    exact isTight_delimited (isSolid_quote d) plain
  next =>
    rw [shape]
    exact isTight_delimited (by decide) (notMem_templateBody plain false)

theorem isTight_literal (n : Number) : IsTight n.literal := by
  have nonempty : n.literal ≠ [] := by
    obtain ⟨negative, magnitude, shape, isMagnitude⟩ := Number.literal_eq n
    rw [shape]
    apply List.append_ne_nil_of_right_ne_nil
    rcases Number.magnitude_cases isMagnitude with rfl | rfl | ⟨_, value, writes⟩
    next => decide
    next => decide
    next =>
      have digit := Number.startsWithDigit_of_writes writes
      rintro rfl
      cases digit
  refine isTight_of_solid nonempty fun c member => ?_
  exact isSolid_of (Number.isNumeric_literal n c member) (by decide)

theorem isTight_keyText (q : Quote) (key : Text) : IsTight (keyText q key) := by
  simp only [keyText]
  split
  next identifier =>
    apply isTight_of_solid
    next => rintro rfl; cases identifier
    next =>
      intro c member
      refine isSolid_iff.mpr ⟨?_, ?_, ?_⟩ <;> rintro rfl <;>
        exact notMem_of_isIdentifier identifier (by decide) member
  next => exact isTight_escape q key

theorem countP_cons_children {e : Expr} (around : List Expr) (h : e.children ≠ 0) :
    (e :: around).countP isSpread = childLevel (around.countP isSpread) e.isMultiLine := by
  rw [List.countP_cons, childLevel, isSpread]
  cases e.isMultiLine <;> simp [h]

section

variable (indent : Indent) (q : Quote)

mutual

theorem isLaid_nestedAt (around : List Expr) : ∀ e : Expr, e.IsUnbroken →
    IsLaid indent around (e.nestedAt indent q (around.countP isSpread) around)
  | .null, _ => by
    have word : IsTight "null".toList :=
      isTight_of_solid (by decide) (List.all_eq_true.mp rfl)
    exact word.isLaid around
  | .boolean true, _ => by
    have word : IsTight "true".toList :=
      isTight_of_solid (by decide) (List.all_eq_true.mp rfl)
    exact word.isLaid around
  | .boolean false, _ => by
    have word : IsTight "false".toList :=
      isTight_of_solid (by decide) (List.all_eq_true.mp rfl)
    exact word.isLaid around
  | .number n, _ => (isTight_literal n).isLaid around
  | .string s false, _ => (isTight_escape q s).isLaid around
  | .string s true, h => (isTight_verbatim (h s List.mem_cons_self) q).isLaid around
  | .array elements multiLine, h => by
    have depth (some' : elements ≠ []) := countP_cons_children (e := .array elements multiLine)
      around (mt List.length_eq_zero_iff.mp some')
    rw [nestedAt]
    refine isLaid_encloseNested (isTight_singleton (by decide)) (isTight_singleton (by decide))
      (by decide) rfl (fun some' => depth ?_) ?_
    next =>
      rintro rfl
      exact some' rfl
    next =>
      exact isLaid_elementsNested _ _ elements depth
        fun s member => h s (List.mem_cons_of_mem _ member)
  | .object properties multiLine, h => by
    have depth (some' : properties ≠ []) := countP_cons_children
      (e := .object properties multiLine) around (mt List.length_eq_zero_iff.mp some')
    rw [nestedAt]
    refine isLaid_encloseNested (isTight_singleton (by decide)) (isTight_singleton (by decide))
      (by decide) rfl (fun some' => depth ?_) ?_
    next =>
      rintro rfl
      exact some' rfl
    next =>
      exact isLaid_propertiesNested _ _ properties depth
        fun s member => h s (List.mem_cons_of_mem _ member)

theorem isLaid_elementsNested (level : Nat) (around : List Expr) : ∀ elements : List Expr,
    (elements ≠ [] → around.countP isSpread = level) →
    (∀ s, .string s true ∈ innerElements elements → '\n' ∉ s) →
      ∀ child ∈ elementsNested indent q level around elements, IsLaid indent around child
  | [], _, _ => List.forall_mem_nil _
  | element :: rest, outer, h => by
    have depth := outer (List.cons_ne_nil element rest)
    have first := isLaid_nestedAt around element
      fun s member => h s (List.mem_append_left (innerElements rest) member)
    have others := isLaid_elementsNested level around rest (fun _ => depth)
      fun s member => h s (List.mem_append_right element.parts member)
    rw [depth] at first
    exact List.forall_mem_cons.mpr ⟨first, others⟩

theorem isLaid_propertiesNested (level : Nat) (around : List Expr) :
    ∀ properties : List (Text × Expr),
      (properties ≠ [] → around.countP isSpread = level) →
      (∀ s, .string s true ∈ innerProperties properties → '\n' ∉ s) →
        ∀ child ∈ propertiesNested indent q level around properties, IsLaid indent around child
  | [], _, _ => List.forall_mem_nil _
  | (key, value) :: rest, outer, h => by
    have depth := outer (List.cons_ne_nil (key, value) rest)
    have first := isLaid_nestedAt around value
      fun s member => h s (List.mem_append_left (innerProperties rest) member)
    have others := isLaid_propertiesNested level around rest (fun _ => depth)
      fun s member => h s (List.mem_append_right value.parts member)
    rw [depth] at first
    refine List.forall_mem_cons.mpr ⟨?_, others⟩
    have label : IsTight (keyText q key ++ [':']) :=
      (isTight_keyText q key).append (isTight_singleton (by decide))
    have property := (label.isLaid around).join around (.inl (by decide : '\n' ∉ [' '])) first
    simpa [within] using property

end

end

/-- A line feed for each child that stands on a line of its own, and one before each bracket that
closes behind such children. -/
def feeds (parts : List Expr) : Nat :=
  ((parts.filter isSpread).map fun part => part.children + 1).sum

theorem feeds_append (first second : List Expr) :
    feeds (first ++ second) = feeds first + feeds second := by
  simp [feeds]

theorem feeds_cons (e : Expr) (rest : List Expr) :
    feeds (e :: rest) = feeds rest + if e.isSpread then e.children + 1 else 0 := by
  cases spread : e.isSpread <;> simp [feeds, spread, Nat.add_comm]

theorem count_intercalate {c : Char} {separator : Text} (apart : c ∉ separator)
    (texts : List Text) :
    (separator.intercalate texts).count c = (texts.map (List.count c)).sum := by
  induction texts with
  | nil => rfl
  | cons text rest ih =>
    cases rest with
    | nil => simp
    | cons next rest =>
      simp only [List.map_cons, List.sum_cons] at ih
      simp [List.intercalate_cons_cons, List.count_eq_zero_of_not_mem apart, ih]

theorem count_enclose {b : Brackets} (plain : '\n' ∉ b.opening ++ b.closing ++ b.padding)
    (indent : Indent) (level : Nat) (multiLine : Bool) (children : List Text) :
    (b.enclose indent level multiLine children).count '\n' =
      (children.map (List.count '\n')).sum +
        if multiLine && children.length != 0 then children.length + 1 else 0 := by
  simp only [List.mem_append, not_or] at plain
  obtain ⟨⟨opening, closing⟩, padding⟩ := plain
  have margin (level : Nat) : ('\n' :: indent.margin level).count '\n' = 1 := by
    simp [List.count_eq_zero_of_not_mem (indent.notMem_margin level)]
  have comma : '\n' ∉ [','] := by decide
  have spaced : '\n' ∉ [',', ' '] := by decide
  unfold Brackets.enclose
  split
  next none' =>
    obtain rfl := List.isEmpty_iff.mp none'
    simp [List.count_eq_zero_of_not_mem opening, List.count_eq_zero_of_not_mem closing]
  next some' =>
    have nonempty : children.length ≠ 0 := by simpa using some'
    have none' := List.count_eq_zero_of_not_mem opening
    have none₁ := List.count_eq_zero_of_not_mem closing
    have none₂ := List.count_eq_zero_of_not_mem padding
    cases multiLine with
    | false => simp [count_intercalate spaced, none', none₁, none₂]
    | true =>
      simp only [if_true, List.count_append, count_intercalate comma, List.map_map,
        Function.comp_def, margin, none', none₁]
      simp [nonempty]
      omega

section

variable (indent : Indent) (q : Quote)

mutual

theorem count_textAt (level : Nat) : ∀ e : Expr, e.IsUnbroken →
    (e.textAt indent q level).count '\n' = feeds e.parts
  | .null, _ | .boolean true, _ | .boolean false, _ => rfl
  | .number n, _ => List.count_eq_zero_of_not_mem (isTight_literal n).unbroken
  | .string s false, _ => List.count_eq_zero_of_not_mem (notMem_escape q s)
  | .string s true, h =>
    List.count_eq_zero_of_not_mem (notMem_verbatim (h s List.mem_cons_self) q)
  | .array elements multiLine, h => by
    have texts := count_elementTexts (childLevel level multiLine) elements
      fun s member => h s (List.mem_cons_of_mem _ member)
    rw [textAt, count_enclose (by decide), texts.1, texts.2, parts, feeds_cons]
    rfl
  | .object properties multiLine, h => by
    have texts := count_propertyTexts (childLevel level multiLine) properties
      fun s member => h s (List.mem_cons_of_mem _ member)
    rw [textAt, count_enclose (by decide), texts.1, texts.2, parts, feeds_cons]
    rfl

theorem count_elementTexts (level : Nat) : ∀ elements : List Expr,
    (∀ s, .string s true ∈ innerElements elements → '\n' ∉ s) →
      ((elementTexts indent q level elements).map (List.count '\n')).sum =
        feeds (innerElements elements) ∧
      (elementTexts indent q level elements).length = elements.length
  | [], _ => ⟨rfl, rfl⟩
  | element :: rest, h => by
    have first := count_textAt level element
      fun s member => h s (List.mem_append_left (innerElements rest) member)
    obtain ⟨total, length⟩ := count_elementTexts level rest
      fun s member => h s (List.mem_append_right element.parts member)
    refine ⟨?_, congrArg Nat.succ length⟩
    rw [elementTexts, List.map_cons, List.sum_cons, first, total, ← feeds_append]
    rfl

theorem count_propertyTexts (level : Nat) : ∀ properties : List (Text × Expr),
    (∀ s, .string s true ∈ innerProperties properties → '\n' ∉ s) →
      ((propertyTexts indent q level properties).map (List.count '\n')).sum =
        feeds (innerProperties properties) ∧
      (propertyTexts indent q level properties).length = properties.length
  | [], _ => ⟨rfl, rfl⟩
  | (key, value) :: rest, h => by
    have first := count_textAt level value
      fun s member => h s (List.mem_append_left (innerProperties rest) member)
    obtain ⟨total, length⟩ := count_propertyTexts level rest
      fun s member => h s (List.mem_append_right value.parts member)
    have label := List.count_eq_zero_of_not_mem (notMem_keyText q key)
    have property : (keyText q key ++ ':' :: ' ' :: textAt indent q level value).count '\n' =
        feeds value.parts := by
      simp [label, first]
    refine ⟨?_, congrArg Nat.succ length⟩
    rw [propertyTexts, List.map_cons, List.sum_cons, property, total, ← feeds_append]
    rfl

end

end

end Expr

namespace Text

variable {separator : Char}

def EndsPiece (separator : Char) (after : Text) : Prop :=
  after = [] ∨ ∃ rest, after = separator :: rest

theorem of_splitOn (text : Text) :
    (∀ piece pieces, splitOn separator text = piece :: pieces →
      ∃ after, text = piece ++ after ∧ EndsPiece separator after) ∧
    ∀ piece ∈ splitOn separator text, ∃ before after, text = before ++ (piece ++ after) ∧
      EndsPiece separator after := by
  induction text with
  | nil =>
    refine ⟨fun piece pieces same => ?_, fun piece member => ?_⟩
    next =>
      cases same
      exact ⟨[], rfl, .inl rfl⟩
    next =>
      obtain rfl := List.mem_singleton.mp member
      exact ⟨[], [], rfl, .inl rfl⟩
  | cons c rest ih =>
    obtain ⟨head, each⟩ := ih
    have later {piece : Text} (member : piece ∈ splitOn separator rest) :
        ∃ before after, c :: rest = before ++ (piece ++ after) ∧ EndsPiece separator after := by
      obtain ⟨before, after, shape, ends⟩ := each piece member
      exact ⟨c :: before, after, congrArg (c :: ·) shape, ends⟩
    rw [splitOn]
    split
    next same =>
      subst same
      refine ⟨fun piece pieces same => ?_, List.forall_mem_cons.mpr ⟨?_, fun _ => later⟩⟩
      next =>
        cases same
        exact ⟨c :: rest, rfl, .inr ⟨rest, rfl⟩⟩
      next => exact ⟨[], c :: rest, rfl, .inr ⟨rest, rfl⟩⟩
    next other =>
      cases shape : splitOn separator rest with
      | nil => exact absurd shape (splitOn_ne_nil separator rest)
      | cons first others =>
        obtain ⟨after, whole, ends⟩ := head first others shape
        refine ⟨fun piece pieces same => ?_, List.forall_mem_cons.mpr ⟨?_, fun _ member => ?_⟩⟩
        next =>
          cases same
          exact ⟨after, congrArg (c :: ·) whole, ends⟩
        next => exact ⟨[], after, congrArg (c :: ·) whole, ends⟩
        next => exact later (shape ▸ List.mem_cons_of_mem first member)

end Text

theorem Indent.margin_eq (indent : Indent) (level : Nat) :
    indent.margin level = (List.replicate level indent.text).flatten := by
  induction level with
  | zero => rfl
  | succ level ih => rw [margin, ih, List.replicate_succ, List.flatten_cons]

namespace Expr

variable {indent : Indent} {around : List Expr} {text : Nested}

theorem last_map {before : Nested} {c d : Char} {scope : List Expr} {first : Text}
    (h : (before ++ [(d, scope)]).map Prod.fst = first ++ [c]) : d = c := by
  rw [List.map_append] at h
  exact List.singleton_inj.mp (List.append_inj_right' h rfl)

theorem IsLaid.last_of_line (h : IsLaid indent around text) {line : Text}
    (member : line ∈ Text.splitOn '\n' (text.map Prod.fst)) {c : Char}
    (last : line.getLast? = some c) : isSolid c := by
  obtain ⟨before, after, whole, ends⟩ := (Text.of_splitOn _).2 line member
  obtain ⟨body, rfl⟩ := List.getLast?_eq_some_iff.mp last
  rcases ends with rfl | ⟨rest, rfl⟩
  next =>
    obtain ⟨earlier, d, scope, rfl, solid⟩ := h.last
    rw [List.append_nil, ← List.append_assoc] at whole
    exact last_map whole ▸ solid
  next =>
    rw [← List.append_assoc] at whole
    obtain ⟨first, second, rfl, left, right⟩ := List.map_eq_append_iff.mp whole
    obtain ⟨⟨feed, scope⟩, second, rfl, rfl, _⟩ := List.map_eq_cons_iff.mp right
    obtain ⟨⟨earlier, d, scope, rfl, solid⟩, _⟩ := h.breaks first scope second rfl
    rw [← List.append_assoc] at left
    exact last_map left ▸ solid

def nested (style : Style) (e : Expr) : Nested :=
  e.nestedAt style.indent style.quote 0 []

/-- The layout of an expression follows from what has its children on lines of their own: from it
the number of line feeds, and the margin behind each of them, where a bracket that closes counts as
outside. No line ends in white space, and the text does not end in a line feed. -/
theorem print_lines {e : Expr} (unbroken : e.IsUnbroken) (style : Style) :
    (e.nested style).map Prod.fst = e.print style ∧
    (e.print style).count '\n' =
      ((e.parts.filter isSpread).map fun part => part.children + 1).sum ∧
    (∀ before scope after, e.nested style = before ++ ('\n', scope) :: after →
      ∃ margin c opened rest, after = margin ++ (c, opened) :: rest ∧
        margin.map Prod.fst =
          (List.replicate (opened.countP isSpread) style.indent.text).flatten ∧
        c ≠ ' ' ∧ c ≠ '\t') ∧
    (∀ line ∈ Text.splitOn '\n' (e.print style),
      line.getLast? ≠ some ' ' ∧ line.getLast? ≠ some '\t') ∧
    (e.print style).getLast? ≠ some '\n' := by
  have text : (e.nested style).map Prod.fst = e.print style := map_nestedAt _ _ 0 [] e
  have laid : IsLaid style.indent [] (e.nested style) := isLaid_nestedAt _ _ [] e unbroken
  refine ⟨text, count_textAt _ _ 0 e unbroken, ?_, ?_, ?_⟩
  next =>
    intro before scope after same
    obtain ⟨_, margin, c, opened, rest, rfl, indents, solid⟩ := laid.breaks before scope after same
    obtain ⟨space, tab, _⟩ := isSolid_iff.mp solid
    exact ⟨margin, c, opened, rest, rfl, indents.trans (Indent.margin_eq _ _), space, tab⟩
  next =>
    intro line member
    rw [← text] at member
    have solid (c : Char) (last : line.getLast? = some c) := laid.last_of_line member last
    exact ⟨fun last => absurd (solid _ last) (by decide),
      fun last => absurd (solid _ last) (by decide)⟩
  next =>
    obtain ⟨before, c, scope, shape, solid⟩ := laid.last
    rw [← text, shape]
    intro last
    obtain ⟨first, whole⟩ := List.getLast?_eq_some_iff.mp last
    rw [last_map whole] at solid
    cases solid

theorem print_lines_mixed :
    let e : Expr := .object
      [("k".toList, .array [.array [.null, .string "\t ".toList true] true, .object [] true] false),
        ("a b".toList, .number (.int 0))] true
    let style : Style := ⟨2, true, .single⟩
    e.IsUnbroken ∧
      e.print style = ("\x7b\n\tk: [[\n\t\tnull,\n\t\t'\t '\n\t], \x7b\x7d],\n" ++
        "\t'a b': 0\n\x7d").toList ∧
      (e.print style).count '\n' = 6 ∧
      ∀ line ∈ Text.splitOn '\n' (e.print style),
        line.getLast? ≠ some ' ' ∧ line.getLast? ≠ some '\t' := by
  intro e style
  have unbroken : e.IsUnbroken := by
    intro s member
    have only : s = "\t ".toList := by
      simpa [e, Expr.parts, Expr.inner, Expr.innerElements, Expr.innerProperties] using member
    simp [only]
  obtain ⟨_, count, _, lines, _⟩ := print_lines unbroken style
  exact ⟨unbroken, by decide +kernel, count, lines⟩

end Expr

end DataLiteral
