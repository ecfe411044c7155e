import DataLiteral.Text.Basic

set_option autoImplicit false

namespace DataLiteral.Text

structure Span where
  start : Nat
  stop : Nat
  deriving DecidableEq, Repr

/-- A place in a source as reports give it: the line, counted from one, and the bytes between the
start of that line and the place. -/
structure Location where
  line : Nat
  column : Nat
  deriving DecidableEq, Repr

def Location.start : Location := ⟨1, 0⟩

def Location.nextLine (loc : Location) : Location :=
  ⟨loc.line + 1, 0⟩

def Location.advance (loc : Location) (bytes : Nat) : Location :=
  ⟨loc.line, loc.column + bytes⟩

-- The location of a byte index, which may fall inside a character.
def locate (loc : Location) : Text → Nat → Location
  | [], _ => loc
  | c :: rest, index =>
      if index < c.utf8Size then loc.advance index
      else if c = '\n' then locate loc.nextLine rest (index - c.utf8Size)
      else locate (loc.advance c.utf8Size) rest (index - c.utf8Size)

def location (source : Text) (index : Nat) : Location :=
  locate .start source index

structure Cursor where
  line : Nat
  column : Nat
  deriving DecidableEq, Repr

def Cursor.step (cursor : Cursor) (c : Char) : Cursor :=
  if c = '\n' then ⟨cursor.line + 1, 0⟩ else ⟨cursor.line, cursor.column + 1⟩

def Cursor.reached (cursor : Cursor) (loc : Location) : Bool :=
  loc.line ≤ cursor.line + 1 && loc.column ≤ cursor.column + 1

/-- Bytes passed before the walk reaches the location. It counts characters where the location
counts bytes, and stops at the end of the source. -/
def walk (loc : Location) (cursor : Cursor) : Text → Nat
  | [] => 0
  | c :: rest =>
      if cursor.reached loc then 0
      else c.utf8Size + walk loc (cursor.step c) rest

def offset (source : Text) (loc : Location) : Nat :=
  walk loc ⟨0, 0⟩ source

theorem walk_le (loc : Location) (cursor : Cursor) (source : Text) :
    walk loc cursor source ≤ byteSize source := by
  induction source generalizing cursor with
  | nil => simp [walk]
  | cons c rest ih =>
    simp only [walk, byteSize_cons]
    split
    · exact Nat.zero_le _
    · exact Nat.add_le_add_left (ih _) _

theorem offset_le (source : Text) (loc : Location) : offset source loc ≤ byteSize source :=
  walk_le loc ⟨0, 0⟩ source

end DataLiteral.Text
