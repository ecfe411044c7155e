import Mathlib.Data.Option.Basic
import Mathlib.Data.Prod.Basic
import DataLiteral.Proofs.Value.Complete

set_option autoImplicit false

namespace DataLiteral

namespace Expr

mutual

def inlineArrays : Expr → Expr
  | .array elements _ => .array (inlineElements elements) false
  | .object properties multiLine => .object (inlineProperties properties) multiLine
  | e => e

def inlineElements : List Expr → List Expr
  | [] => []
  | element :: rest => element.inlineArrays :: inlineElements rest

def inlineProperties : List (Text × Expr) → List (Text × Expr)
  | [] => []
  | (key, e) :: rest => (key, e.inlineArrays) :: inlineProperties rest

end

theorem inlineElements_eq (elements : List Expr) :
    inlineElements elements = elements.map inlineArrays := by
  induction elements with
  | nil => rfl
  | cons element rest ih => rw [inlineElements, ih, List.map_cons]

theorem inlineProperties_eq (properties : List (Text × Expr)) :
    inlineProperties properties = properties.map (Prod.map id inlineArrays) := by
  induction properties with
  | nil => rfl
  | cons property rest ih => rw [inlineProperties, ih, List.map_cons]; rfl

theorem inlineArrays_property (key : Text) (e : Option Expr) :
    (e.map (Prod.mk key)).map (Prod.map id inlineArrays) =
      (e.map inlineArrays).map (Prod.mk key) := by
  cases e <;> rfl

end Expr

namespace Value

open DataLiteral.Expr (ofValue)

variable {v : Value}

theorem isDefined_prune (v : Value) : v.prune.isDefined = v.isDefined := by
  cases v <;> rfl

theorem isObjectLike_prune (v : Value) : v.prune.isObjectLike = v.isObjectLike := by
  cases v <;> rfl

theorem isDefined_parts_prune (h : v.isDefined) : ∀ part ∈ v.prune.parts, part.isDefined := by
  induction v using inductionOn with
  | undefined => cases h
  | null | boolean | number | string => simp [prune, parts, inner, isDefined]
  | array items ih =>
    refine forall_parts_array.mpr ⟨rfl, ?_⟩
    simp only [pruneItems_eq, List.forall_mem_map, List.mem_filter]
    exact fun item kept => ih item kept.1 kept.2
  | record entries ih =>
    refine forall_parts_record.mpr ⟨rfl, ?_⟩
    simp only [pruneEntries_eq, List.forall_mem_map, List.mem_filter]
    exact fun entry kept => ih entry kept.1 kept.2

theorem prune_prune (v : Value) : v.prune.prune = v.prune := by
  cases defined : v.isDefined with
  | false => rw [isDefined_eq_false.mp defined]; rfl
  | true => exact prune_eq_self (isDefined_parts_prune defined)

theorem ofValue_prune_snd (v : Value) : (ofValue v.prune).2 = [] := by
  cases defined : v.isDefined with
  | false => rw [isDefined_eq_false.mp defined]; rfl
  | true => exact build_snd_eq_nil _ false (isDefined_parts_prune defined)

section

variable {α β : Type}

theorem filterMap_pruneItems (f : Value → Option β) (nothing : f .undefined = none)
    (items : List Value) :
    (pruneItems items).filterMap f = items.filterMap fun item => f item.prune := by
  induction items with
  | nil => rfl
  | cons item rest ih =>
    rw [pruneItems, List.filterMap_cons, ← ih]
    cases defined : item.isDefined with
    | true => exact List.filterMap_cons
    | false =>
      have blank : f item.prune = none := by rwa [isDefined_eq_false.mp defined]
      rw [blank]
      rfl

theorem filterMap_pruneEntries (f : Text × Value → Option β)
    (nothing : ∀ key, f (key, .undefined) = none) (entries : List (Text × Value)) :
    (pruneEntries entries).filterMap f =
      entries.filterMap fun entry => f (entry.1, entry.2.prune) := by
  induction entries with
  | nil => rfl
  | cons entry rest ih =>
    rw [pruneEntries, List.filterMap_cons, ← ih]
    cases defined : entry.2.isDefined with
    | true => exact List.filterMap_cons
    | false =>
      have blank : f (entry.1, entry.2.prune) = none := by
        rw [isDefined_eq_false.mp defined]
        exact nothing entry.1
      rw [blank]
      rfl

theorem filterMap_eq_filterMap_iff {f g : α → Option β} {xs : List α}
    (kept : ∀ x ∈ xs, (f x).isSome = (g x).isSome) :
    xs.filterMap f = xs.filterMap g ↔ ∀ x ∈ xs, f x = g x := by
  induction xs with
  | nil => simp
  | cons x rest ih =>
    obtain ⟨first, later⟩ := List.forall_mem_cons.mp kept
    rw [List.filterMap_cons, List.filterMap_cons, List.forall_mem_cons, ← ih later]
    cases left : f x <;> cases right : g x <;> simp_all

end

theorem ofValue_prune_array (items : List Value) :
    (ofValue (array items).prune).1 =
      some (.array (items.filterMap fun item => (ofValue item.prune).1)
        (Assembly.startsObjectLike (pruneItems items))) := by
  rw [prune, Expr.ofValue_array, filterMap_pruneItems _ rfl]

theorem ofValue_prune_record (entries : List (Text × Value)) :
    (ofValue (record entries).prune).1 =
      some (.object (entries.filterMap fun entry => (ofValue entry.2.prune).1.map (Prod.mk entry.1))
        true) := by
  rw [prune, Expr.ofValue_record, filterMap_pruneEntries _ fun _ => rfl]

theorem isSome_ofValue_prune (v : Value) : (ofValue v.prune).1.isSome = (ofValue v).1.isSome := by
  rw [ofValue, ofValue, Expr.ofValueWith, Expr.ofValueWith, isSome_build, isSome_build,
    isDefined_prune]

theorem items_prune_iff (items : List Value) :
    (items.filterMap fun item => (ofValue item.prune).1) =
        items.filterMap (fun item => (ofValue item).1) ↔
      ∀ item ∈ items, (ofValue item.prune).1 = (ofValue item).1 :=
  filterMap_eq_filterMap_iff fun item _ => isSome_ofValue_prune item

theorem entries_prune_iff (entries : List (Text × Value)) :
    (entries.filterMap fun entry => (ofValue entry.2.prune).1.map (Prod.mk entry.1)) =
        entries.filterMap (fun entry => (ofValue entry.2).1.map (Prod.mk entry.1)) ↔
      ∀ entry ∈ entries, (ofValue entry.2.prune).1 = (ofValue entry.2).1 := by
  rw [filterMap_eq_filterMap_iff]
  next =>
    refine forall₂_congr fun entry _ => ?_
    exact (Option.map_injective (Prod.mk_right_injective entry.1)).eq_iff
  next =>
    intro entry _
    rw [Option.isSome_map, Option.isSome_map, isSome_ofValue_prune]

theorem inlineArrays_ofValue_prune (v : Value) :
    (ofValue v.prune).1.map Expr.inlineArrays = (ofValue v).1.map Expr.inlineArrays := by
  induction v using inductionOn with
  | undefined | null | boolean | number | string => rfl
  | array items ih =>
    rw [ofValue_prune_array, Expr.ofValue_array]
    simp only [Option.map_some, Expr.inlineArrays, Expr.inlineElements_eq, List.map_filterMap]
    rw [List.filterMap_congr ih]
  | record entries ih =>
    rw [ofValue_prune_record, Expr.ofValue_record]
    simp only [Option.map_some, Expr.inlineArrays, Expr.inlineProperties_eq, List.map_filterMap,
      Expr.inlineArrays_property]
    rw [List.filterMap_congr fun entry member => congrArg _ (ih entry member)]

/-- An array that starts with an undefined item, while its first defined item is laid out like an
object. -/
def HidesLayout : Value → Prop
  | .array items =>
      items.head? = some .undefined ∧
        ∃ first, items.find? isDefined = some first ∧ first.isObjectLike
  | _ => False

theorem startsObjectLike_eq (items : List Value) :
    Assembly.startsObjectLike items = items.head?.any isObjectLike := by
  cases items <;> rfl

theorem startsObjectLike_pruneItems (items : List Value) :
    Assembly.startsObjectLike (pruneItems items) = (items.find? isDefined).any isObjectLike := by
  rw [startsObjectLike_eq, pruneItems_eq, List.head?_map, List.head?_filter]
  cases items.find? isDefined with
  | none => rfl
  | some first => exact isObjectLike_prune first

theorem startsObjectLike_prune_iff (items : List Value) :
    Assembly.startsObjectLike (pruneItems items) = Assembly.startsObjectLike items ↔
      ¬(array items).HidesLayout := by
  rw [startsObjectLike_pruneItems, startsObjectLike_eq]
  cases items with
  | nil => simp [HidesLayout]
  | cons first rest =>
    cases defined : first.isDefined with
    | true =>
      have other : first ≠ .undefined := by
        rintro rfl
        cases defined
      simp [HidesLayout, defined, other]
    | false =>
      obtain rfl := isDefined_eq_false.mp defined
      have line : undefined.isObjectLike = false := rfl
      cases found : rest.find? isDefined <;> simp [HidesLayout, defined, line, found]

theorem ofValue_prune_iff (v : Value) :
    (ofValue v.prune).1 = (ofValue v).1 ↔ ∀ part ∈ v.parts, ¬part.HidesLayout := by
  induction v using inductionOn with
  | undefined | null | boolean | number | string =>
    exact iff_of_true rfl (by simp [parts, inner, HidesLayout])
  | array items ih =>
    rw [ofValue_prune_array, Expr.ofValue_array, Option.some.injEq, Expr.array.injEq,
      items_prune_iff, startsObjectLike_prune_iff, forall_parts_array, and_comm]
    exact and_congr_right fun _ => forall₂_congr ih
  | record entries ih =>
    have plain : ¬(record entries).HidesLayout := id
    rw [ofValue_prune_record, Expr.ofValue_record, Option.some.injEq, Expr.object.injEq,
      entries_prune_iff, forall_parts_record, and_iff_left rfl, and_iff_right plain]
    exact forall₂_congr ih

/-- What is undefined can be left out of a value before: of its literal, that changes the layout of
arrays alone, and of those only where it uncovers a first item that is laid out like an object.
Nothing is left to leave out again, and nothing is reported. -/
theorem ofValue_prune (v : Value) :
    (ofValue v.prune).1.map Expr.inlineArrays = (ofValue v).1.map Expr.inlineArrays ∧
    ((ofValue v.prune).1 = (ofValue v).1 ↔ ∀ part ∈ v.parts, ¬part.HidesLayout) ∧
    v.prune.prune = v.prune ∧ (ofValue v.prune).2 = [] :=
  ⟨inlineArrays_ofValue_prune v, ofValue_prune_iff v, prune_prune v, ofValue_prune_snd v⟩

example :
    (ofValue (array [.undefined, .null])).1 = some (.array [.null] false) ∧
      (ofValue (array [.undefined, .null]).prune).1 = some (.array [.null] true) :=
  ⟨rfl, rfl⟩

end Value

end DataLiteral
