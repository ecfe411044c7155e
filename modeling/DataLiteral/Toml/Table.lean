import DataLiteral.Toml.Statement

set_option autoImplicit false

namespace DataLiteral.Toml

open Text (Span)

/-- What made a table: a header of its own, the header of a table below it, a dotted key, or braces.
The root counts as a table with a header. -/
inductive Origin where
  | header
  | implied
  | dotted
  | inline
  deriving DecidableEq, Repr

inductive Item where
  | scalar (span : Span) (value : Scalar)
  | array (span : Span) (ofTables : Bool) (items : List Item)
  | table (span : Span) (origin : Origin) (entries : List (Key × Item))
  deriving Repr

def Item.span : Item → Span
  | .scalar span _ => span
  | .array span _ _ => span
  | .table span _ _ => span

structure Table where
  origin : Origin
  entries : List (Key × Item)
  deriving Repr

namespace Table

def empty (origin : Origin) : Table :=
  ⟨origin, []⟩

def toItem (table : Table) (span : Span) : Item :=
  .table span table.origin table.entries

def find? (name : Text) : List (Key × Item) → Option Item
  | [] => none
  | (key, item) :: rest => if key.name = name then some item else find? name rest

def replace (name : Text) (item : Item) : List (Key × Item) → List (Key × Item)
  | [] => []
  | (key, old) :: rest =>
      if key.name = name then (key, item) :: rest else (key, old) :: replace name item rest

def erase (name : Text) : List (Key × Item) → List (Key × Item)
  | [] => []
  | (key, item) :: rest => if key.name = name then rest else (key, item) :: erase name rest

def get? (table : Table) (name : Text) : Option Item :=
  find? name table.entries

def push (table : Table) (key : Key) (item : Item) : Table :=
  { table with entries := table.entries ++ [(key, item)] }

-- The table that a path goes on in below an item, and how to put it back. A dotted key cannot
-- enter a table with a header, and nothing enters braces.
def enter? (through : Origin) : Item → Option (Table × (Table → Item))
  | .scalar _ _ => none
  | .table span origin entries =>
      if origin = .inline ∨ (through = .dotted ∧ origin = .header) then none
      else some (⟨origin, entries⟩, fun table => table.toItem span)
  | .array span ofTables items =>
      match ofTables, items.reverse with
      | true, .table last origin entries :: before =>
          some (⟨origin, entries⟩,
            fun table => .array span true (before.reverse ++ [table.toItem last]))
      | _, _ => none

def alter? {α : Type} (through : Origin) (change : Table → Option (Table × α)) :
    List Key → Table → Option (Table × α)
  | [], table => change table
  | key :: path, table =>
      match table.get? key.name with
      | none => do
          let (child, result) ← alter? through change path (empty through)
          return (table.push key (child.toItem key.span), result)
      | some item => do
          let (child, restore) ← enter? through item
          let (child, result) ← alter? through change path child
          return ({ table with entries := replace key.name (restore child) table.entries }, result)

def define? (table : Table) (path : Path) (item : Item) : Option Table :=
  (alter? .dotted (fun parent =>
    if (path.parents ≠ [] ∧ parent.origin ≠ .dotted) ∨ (parent.get? path.key.name).isSome then none
    else some (parent.push path.key item, ())) path.parents table).map Prod.fst

end Table

def orConflict {α : Type} (path : Path) : Option α → Except Failure α
  | some result => .ok result
  | none => .error (.conflict path.key)

def Table.define (table : Table) (path : Path) (item : Item) : Except Failure Table :=
  orConflict path (table.define? path item)

mutual

def Node.toItem : Node → Except Failure Item
  | .scalar span value => .ok (.scalar span value)
  | .unreadable offset => .error (.unreadable offset)
  | .array span items => do
      let items ← nodeItems items
      return .array span false items
  | .braces span entries => do
      let table ← nodeTable (.empty .inline) entries
      return table.toItem span

def nodeItems : List Node → Except Failure (List Item)
  | [] => .ok []
  | node :: rest => do
      let item ← node.toItem
      let items ← nodeItems rest
      return item :: items

def nodeTable (table : Table) : List (Target × Node) → Except Failure Table
  | [] => .ok table
  | (target, node) :: rest => do
      let path ← target.resolve
      let item ← node.toItem
      let table ← table.define path item
      nodeTable table rest

end

end DataLiteral.Toml
