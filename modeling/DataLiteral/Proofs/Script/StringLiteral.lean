import DataLiteral.Proofs.Script.Units
import DataLiteral.Quote

set_option autoImplicit false

namespace DataLiteral.Script

abbrev Reading (α : Type) := Option (α × Text)

def isHexDigit (c : Char) : Bool :=
  Text.isDigitBelow 16 c

def readHex (count : Nat) (text : Text) : Reading Nat :=
  let digits := text.take count
  if digits.length = count ∧ digits.all isHexDigit then
    some (Text.numeral 16 digits, text.drop count)
  else none

def readBraced (text : Text) : Reading Units :=
  let digits := text.takeWhile isHexDigit
  match text.dropWhile isHexDigit with
  | '\x7d' :: rest =>
      if digits ≠ [] ∧ Text.numeral 16 digits ≤ 0x10ffff then
        some (Units.ofCode (Text.numeral 16 digits), rest)
      else none
  | _ => none

def readUnicode : Text → Reading Units
  | '\x7b' :: rest => readBraced rest
  | text => (readHex 4 text).map fun (n, rest) => ([n], rest)

def singleEscape (c : Char) : Char :=
  if c = 'b' then '\x08'
  else if c = 't' then '\t'
  else if c = 'n' then '\n'
  else if c = 'v' then '\x0b'
  else if c = 'f' then '\x0c'
  else if c = 'r' then '\r'
  else c

def skipLineFeed : Text → Text
  | '\n' :: rest => rest
  | text => text

def isSeparator (c : Char) : Bool :=
  c == '\n' || c == '\u2028' || c == '\u2029'

/-- The value of an escape in strict code, read after its backslash. A line's end after a backslash
has no value; digits other than a lone zero are refused. -/
def readEscape : Text → Reading Units
  | [] => none
  | c :: rest =>
      if c = 'x' then (readHex 2 rest).map fun (n, rest) => ([n], rest)
      else if c = 'u' then readUnicode rest
      else if c = '0' then if Text.startsWithDigit rest then none else some ([0], rest)
      else if c.isDigit then none
      else if c = '\r' then some ([], skipLineFeed rest)
      else if isSeparator c then some ([], rest)
      else some (Text.charUnits (singleEscape c), rest)

def Passes (text after : Text) : Prop :=
  ∃ taken, taken ++ after = text ∧ '\\' ∉ taken

namespace Passes

variable {text middle after : Text}

theorem refl (text : Text) : Passes text text :=
  ⟨[], rfl, List.not_mem_nil⟩

theorem trans (first : Passes text middle) (second : Passes middle after) : Passes text after := by
  obtain ⟨taken, rfl, free⟩ := first
  obtain ⟨later, rfl, freeLater⟩ := second
  refine ⟨taken ++ later, List.append_assoc .., fun member => ?_⟩
  exact (List.mem_append.mp member).elim free freeLater

theorem cons {c : Char} (notBackslash : c ≠ '\\') (text : Text) : Passes (c :: text) text :=
  ⟨[c], rfl, fun member => notBackslash (List.mem_singleton.mp member).symm⟩

theorem length_le (h : Passes text after) : after.length ≤ text.length := by
  obtain ⟨taken, rfl, _⟩ := h
  exact (List.suffix_append taken after).length_le

theorem mem (h : Passes text after) {c : Char} (member : c ∈ after) : c ∈ text := by
  obtain ⟨taken, rfl, _⟩ := h
  exact List.mem_append_right taken member

end Passes

theorem notMem_hexDigits {digits : Text} (h : digits.all isHexDigit) : '\\' ∉ digits := by
  intro member
  have digit := List.all_eq_true.mp h _ member
  cases digit

theorem passes_readHex {count n : Nat} {text rest : Text} (h : readHex count text = some (n, rest)) :
    Passes text rest := by
  simp only [readHex] at h
  split at h
  · next digits =>
    cases h
    exact ⟨_, List.take_append_drop count text, notMem_hexDigits digits.2⟩
  · cases h

theorem passes_readBraced {text rest : Text} {value : Units}
    (h : readBraced text = some (value, rest)) : Passes text rest := by
  simp only [readBraced] at h
  split at h
  · next after shape =>
    have digits : Passes text (text.dropWhile isHexDigit) :=
      ⟨_, List.takeWhile_append_dropWhile, notMem_hexDigits List.all_takeWhile⟩
    rw [shape] at digits
    split at h <;> cases h
    exact digits.trans (.cons (by decide) _)
  · cases h

theorem passes_readUnicode {text rest : Text} {value : Units}
    (h : readUnicode text = some (value, rest)) : Passes text rest := by
  unfold readUnicode at h
  split at h
  · exact (Passes.cons (by decide) _).trans (passes_readBraced h)
  · obtain ⟨⟨n, after⟩, found, same⟩ := Option.map_eq_some_iff.mp h
    cases same
    exact passes_readHex found

theorem passes_skipLineFeed (text : Text) : Passes text (skipLineFeed text) := by
  unfold skipLineFeed
  split
  · exact .cons (by decide) _
  · exact .refl _

theorem passes_readEscape {c : Char} {rest after : Text} {value : Units}
    (h : readEscape (c :: rest) = some (value, after)) : Passes rest after := by
  simp only [readEscape] at h
  split at h
  · obtain ⟨⟨n, left⟩, found, same⟩ := Option.map_eq_some_iff.mp h
    cases same
    exact passes_readHex found
  split at h
  · exact passes_readUnicode h
  split at h
  · split at h <;> cases h
    exact .refl _
  split at h
  · cases h
  split at h
  · cases h
    exact passes_skipLineFeed _
  split at h <;> cases h <;> exact .refl _

theorem readEscape_length {text rest : Text} {value : Units}
    (h : readEscape text = some (value, rest)) : rest.length < text.length := by
  cases text with
  | nil => cases h
  | cons c after => exact Nat.lt_succ_of_le (passes_readEscape h).length_le

def prepend (value : Units) (reading : Reading Units) : Reading Units :=
  reading.map fun (later, rest) => (value ++ later, rest)

def readStringBody (delimiter : Char) : Text → Reading Units
  | [] => none
  | c :: rest =>
      if c = delimiter then some ([], rest)
      else if c = '\\' then
        match _h : readEscape rest with
        | none => none
        | some (value, after) => prepend value (readStringBody delimiter after)
      else if Text.isBreak c then none
      else prepend (Text.charUnits c) (readStringBody delimiter rest)
termination_by text => text.length
decreasing_by
  · have := readEscape_length _h
    simp only [List.length_cons]
    omega
  · simp

def readString (q : Quote) : Text → Reading Units
  | [] => none
  | c :: rest => if c = q.char then readStringBody c rest else none

/-- The value of a template without substitutions, read after its opening backtick. A line's end is
a line feed, however it is written. -/
def readTemplateBody : Text → Reading Units
  | [] => none
  | c :: rest =>
      if c = Quote.backtick then some ([], rest)
      else if c = '\\' then
        match _h : readEscape rest with
        | none => none
        | some (value, after) => prepend value (readTemplateBody after)
      else if Quote.opensSubstitution c rest then none
      else if c = '\r' then prepend ['\n'.toNat] (readTemplateBody (skipLineFeed rest))
      else prepend (Text.charUnits c) (readTemplateBody rest)
termination_by text => text.length
decreasing_by
  · have := readEscape_length _h
    simp only [List.length_cons]
    omega
  · exact Nat.lt_succ_of_le (passes_skipLineFeed rest).length_le
  · simp

def readTemplate : Text → Reading Units
  | [] => none
  | c :: rest => if c = Quote.backtick then readTemplateBody rest else none

end DataLiteral.Script
