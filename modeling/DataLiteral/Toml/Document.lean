import DataLiteral.Toml.Table

set_option autoImplicit false

namespace DataLiteral.Toml

open Text (Span)

structure Header where
  span : Span
  isArray : Bool
  path : Path
  deriving DecidableEq, Repr

/-- A document as far as it is read: what is complete, and the table still open under its header,
which joins the rest when it ends. -/
structure Document where
  root : Table
  header : Option Header
  current : Table
  deriving Repr

namespace Document

def start : Document :=
  ⟨.empty .header, none, .empty .header⟩

-- Takes out the table that a header opens again. Only a table without a header of its own can be
-- opened, and it keeps what it holds.
def reopen? (key : Key) (parent : Table) : Option (Table × List (Key × Item)) :=
  match parent.get? key.name with
  | none => some (parent, [])
  | some (.table _ .implied entries) =>
      some ({ parent with entries := Table.erase key.name parent.entries }, entries)
  | some _ => none

def openTable (root : Table) (header : Header) : Except Failure Document :=
  if header.isArray then .ok ⟨root, some header, .empty .header⟩
  else do
    let (root, entries) ← orConflict header.path
      (Table.alter? .implied (reopen? header.path.key) header.path.parents root)
    return ⟨root, some header, ⟨.header, entries⟩⟩

def append? (header : Header) (table : Table) (parent : Table) : Option (Table × Unit) :=
  let item := table.toItem header.span
  if header.isArray then
    match parent.get? header.path.key.name with
    | none => some (parent.push header.path.key (.array header.span true [item]), ())
    | some (.array span true items) =>
        some ({ parent with
          entries := Table.replace header.path.key.name (.array span true (items ++ [item]))
            parent.entries }, ())
    | some _ => none
  else some (parent.push header.path.key item, ())

def close (document : Document) : Except Failure Table :=
  match document.header with
  | none => .ok document.current
  | some header =>
      orConflict header.path
        ((Table.alter? .implied (append? header document.current) header.path.parents
          document.root).map Prod.fst)

def add (document : Document) : Statement → Except Failure Document
  | .header span isArray target => do
      let root ← document.close
      let path ← target.resolve
      openTable root ⟨span, isArray, path⟩
  | .definition target node => do
      let path ← target.resolve
      let item ← node.toItem
      let current ← document.current.define path item
      return { document with current := current }

def ofStatements (statements : List Statement) : Except Failure Document :=
  statements.foldlM add start

end Document

end DataLiteral.Toml
