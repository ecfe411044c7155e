set_option autoImplicit false

namespace DataLiteral

/-- A text is its list of Unicode scalars. Byte offsets are counted in UTF-8. -/
abbrev Text := List Char

namespace Text

def byteSize : Text → Nat
  | [] => 0
  | c :: rest => c.utf8Size + byteSize rest

@[simp] theorem byteSize_nil : byteSize [] = 0 := rfl

@[simp] theorem byteSize_cons (c : Char) (rest : Text) :
    byteSize (c :: rest) = c.utf8Size + byteSize rest := rfl

@[simp] theorem byteSize_append (a b : Text) : byteSize (a ++ b) = byteSize a + byteSize b := by
  induction a with
  | nil => simp
  | cons c rest ih => simp [ih, Nat.add_assoc]

def ofNat (n : Nat) : Text :=
  Nat.toDigits 10 n

def ofInt : Int → Text
  | .ofNat n => ofNat n
  | .negSucc n => '-' :: ofNat (n + 1)

def isBreak (c : Char) : Bool :=
  c == '\n' || c == '\r'

def consFirst (c : Char) : List Text → List Text
  | [] => [[c]]
  | piece :: rest => (c :: piece) :: rest

def splitOn (separator : Char) : Text → List Text
  | [] => [[]]
  | c :: rest =>
      if c = separator then [] :: splitOn separator rest
      else consFirst c (splitOn separator rest)

theorem notMem_consFirst {separator c : Char} {pieces : List Text} (other : c ≠ separator)
    (h : ∀ piece ∈ pieces, separator ∉ piece) :
    ∀ piece ∈ consFirst c pieces, separator ∉ piece := by
  cases pieces with
  | nil => simpa [consFirst] using Ne.symm other
  | cons piece rest =>
    obtain ⟨first, others⟩ := List.forall_mem_cons.mp h
    refine List.forall_mem_cons.mpr ⟨?_, others⟩
    simpa using ⟨Ne.symm other, first⟩

theorem splitOn_ne_nil (separator : Char) (text : Text) : splitOn separator text ≠ [] := by
  cases text with
  | nil => simp [splitOn]
  | cons c rest =>
    simp only [splitOn]
    split
    · simp
    · cases splitOn separator rest <;> simp [consFirst]

/-- The lines of a text: each line feed ends one, together with a carriage return before it. The
last line needs no ending. -/
def lines : Text → List Text
  | [] => []
  | '\n' :: rest => [] :: lines rest
  | '\r' :: '\n' :: rest => [] :: lines rest
  | c :: rest => consFirst c (lines rest)

def trimEnd (c : Char) (text : Text) : Text :=
  (text.reverse.dropWhile (· == c)).reverse

end Text

end DataLiteral
