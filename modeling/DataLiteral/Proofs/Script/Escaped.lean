import DataLiteral.Proofs.Script.StringLiteral

set_option autoImplicit false

namespace DataLiteral.Script

/-- The value of escaped text: each escape stands for its value, and each line's end for a line
feed. There is none if an escape is refused in strict code. -/
def escapedValue? : Text → Option Units
  | [] => some []
  | c :: rest =>
      if c = '\\' then
        match _h : readEscape rest with
        | none => none
        | some (value, after) => (escapedValue? after).map (value ++ ·)
      else if c = '\r' then (escapedValue? (skipLineFeed rest)).map ('\n'.toNat :: ·)
      else (escapedValue? rest).map (Text.charUnits c ++ ·)
termination_by text => text.length
decreasing_by
  · have := readEscape_length _h
    simp only [List.length_cons]
    omega
  · exact Nat.lt_succ_of_le (passes_skipLineFeed rest).length_le
  · simp

theorem escapedValue?_escape (text : Text) :
    escapedValue? ('\\' :: text) =
      (readEscape text).bind fun (value, after) => (escapedValue? after).map (value ++ ·) := by
  rw [escapedValue?, if_pos rfl]
  split <;> next found => simp [found]

theorem escaped_induction {motive : Text → Prop} (nil : motive []) (last : motive ['\\'])
    (escape : ∀ c rest, (∀ after, Passes rest after → motive after) → motive ('\\' :: c :: rest))
    (plain : ∀ c rest, c ≠ '\\' → (∀ after, Passes rest after → motive after) →
      motive (c :: rest)) (text : Text) : motive text := by
  induction size : text.length using Nat.strongRecOn generalizing text with
  | ind n ih =>
    subst size
    cases text with
    | nil => exact nil
    | cons c rest =>
      by_cases backslash : c = '\\'
      · subst backslash
        cases rest with
        | nil => exact last
        | cons d rest =>
          refine escape d rest fun after passes => ih _ ?_ after rfl
          exact Nat.lt_succ_of_lt (Nat.lt_succ_of_le passes.length_le)
      · refine plain c rest backslash fun after passes => ih _ ?_ after rfl
        exact Nat.lt_succ_of_le passes.length_le

-- What strict code takes as an escape: digits have to be there where they are asked for, and stand
-- for nothing elsewhere, but for a lone zero.
def isEscape (c : Char) (rest : Text) : Bool :=
  if c = 'x' then (readHex 2 rest).isSome
  else if c = 'u' then (readUnicode rest).isSome
  else if c = '0' then !Text.startsWithDigit rest
  else !c.isDigit

def isWellEscaped : Text → Bool
  | [] => true
  | '\\' :: [] => false
  | '\\' :: c :: rest => isEscape c rest && isWellEscaped rest
  | _ :: rest => isWellEscaped rest

theorem isWellEscaped_plain {c : Char} (notBackslash : c ≠ '\\') (rest : Text) :
    isWellEscaped (c :: rest) = isWellEscaped rest := by
  rw [isWellEscaped.eq_4]
  · exact fun same _ => notBackslash same
  · exact fun _ _ same _ => notBackslash same

theorem isWellEscaped_passes {text after : Text} (h : Passes text after) :
    isWellEscaped text = isWellEscaped after := by
  obtain ⟨taken, rfl, free⟩ := h
  induction taken with
  | nil => rfl
  | cons c taken ih =>
    rw [List.mem_cons, not_or] at free
    rw [List.cons_append, isWellEscaped_plain (Ne.symm free.1), ih free.2]

theorem isSome_readEscape (c : Char) (rest : Text) :
    (readEscape (c :: rest)).isSome = isEscape c rest := by
  rw [readEscape, isEscape]
  split
  · rw [Option.isSome_map]
  split
  · rfl
  split
  · cases Text.startsWithDigit rest <;> rfl
  cases digit : c.isDigit with
  | true => rfl
  | false =>
    rw [if_neg Bool.false_ne_true]
    split
    · rfl
    split <;> rfl

theorem isSome_escapedValue? (text : Text) : (escapedValue? text).isSome = isWellEscaped text := by
  induction text using escaped_induction with
  | nil => rw [escapedValue?]; rfl
  | last => rw [escapedValue?_escape, readEscape, Option.bind_none]; rfl
  | escape c rest ih =>
    rw [escapedValue?_escape, isWellEscaped, ← isSome_readEscape]
    cases found : readEscape (c :: rest) with
    | none => rfl
    | some reading =>
      obtain ⟨value, after⟩ := reading
      have passes := passes_readEscape found
      rw [Option.bind_some, Option.isSome_map, ih after passes, isWellEscaped_passes passes,
        Option.isSome_some, Bool.true_and]
  | plain c rest notBackslash ih =>
    have passes := passes_skipLineFeed rest
    rw [escapedValue?, if_neg notBackslash, isWellEscaped_plain notBackslash]
    split
    · rw [Option.isSome_map, ih _ passes, isWellEscaped_passes passes]
    · rw [Option.isSome_map, ih rest (.refl rest)]

def continuesEscape (c : Char) : Bool :=
  isHexDigit c || c == '\x7b' || c == '\x7d' || c == '\n'

theorem isHexDigit_of_isDigit {c : Char} (h : c.isDigit) : isHexDigit c := by
  have bounds : 48 ≤ c.toNat ∧ c.toNat ≤ 57 := by
    simpa [Char.isDigit, UInt32.le_iff_toNat_le] using h
  have zero : '0'.toNat = 48 := rfl
  simp only [isHexDigit, Text.isDigitBelow, Text.hexValue?, h, if_true, decide_eq_true_eq]
  omega

/-- A way to put text into a token that leaves escapes as they are: what continues an escape is
kept, and no such character is put in front. -/
structure IsFrame (frame : Text → Text) : Prop where
  keeps : ∀ c rest, continuesEscape c → frame (c :: rest) = c :: frame rest
  adds : ∀ text c rest, frame text = c :: rest → continuesEscape c → text.head? = some c

namespace IsFrame

variable {frame : Text → Text} (h : IsFrame frame)

include h

theorem head_cases {c : Char} (continues : continuesEscape c) (text : Text) :
    (∃ rest, text = c :: rest ∧ frame text = c :: frame rest) ∨
      text.head? ≠ some c ∧ (frame text).head? ≠ some c := by
  by_cases head : text.head? = some c
  · obtain ⟨rest, rfl⟩ := List.head?_eq_some_iff.mp head
    exact .inl ⟨rest, rfl, h.keeps c rest continues⟩
  · refine .inr ⟨head, fun framed => ?_⟩
    obtain ⟨rest, shape⟩ := List.head?_eq_some_iff.mp framed
    exact head (h.adds text c rest shape continues)

theorem takeWhile_isHexDigit (text : Text) :
    (frame text).takeWhile isHexDigit = text.takeWhile isHexDigit ∧
      (frame text).dropWhile isHexDigit = frame (text.dropWhile isHexDigit) := by
  induction text with
  | nil =>
    cases shape : frame [] with
    | nil => simp [shape]
    | cons d rest =>
      have notDigit : isHexDigit d = false := by
        rw [← Bool.not_eq_true]
        intro digit
        have first := h.adds [] d rest shape (by simp [continuesEscape, digit])
        cases first
      simp [notDigit, shape]
  | cons c rest ih =>
    by_cases digit : isHexDigit c
    · rw [h.keeps c rest (by simp [continuesEscape, digit])]
      simp [digit, ih]
    · cases shape : frame (c :: rest) with
      | nil => simp [digit, shape]
      | cons d after =>
        have notDigit : isHexDigit d = false := by
          rw [← Bool.not_eq_true]
          intro digit'
          have first := h.adds _ d after shape (by simp [continuesEscape, digit'])
          cases first
          exact digit digit'
        simp [digit, notDigit, shape]

theorem head_digit {c : Char} {text : Text} (digit : isHexDigit c)
    (head : text.head? = some c ∨ (frame text).head? = some c) :
    ∃ rest, text = c :: rest ∧ frame text = c :: frame rest := by
  rcases h.head_cases (c := c) (by simp [continuesEscape, digit]) text with found | absent
  · exact found
  · exact absurd head (not_or.mpr absent)

theorem take_digits (count : Nat) (text : Text)
    (run : ((text.take count).length = count ∧ (text.take count).all isHexDigit) ∨
      (((frame text).take count).length = count ∧ ((frame text).take count).all isHexDigit)) :
    (frame text).take count = text.take count ∧
      (frame text).drop count = frame (text.drop count) := by
  induction count generalizing text with
  | zero => simp
  | succ count ih =>
    have first : ∃ c, isHexDigit c ∧ (text.head? = some c ∨ (frame text).head? = some c) := by
      rcases run with ⟨size, digits⟩ | ⟨size, digits⟩
      · cases text with
        | nil => simp at size
        | cons c rest => exact ⟨c, by simpa using (List.all_eq_true.mp digits c (by simp)), by simp⟩
      · cases shape : frame text with
        | nil => simp [shape] at size
        | cons c rest =>
          rw [shape] at digits
          exact ⟨c, by simpa using (List.all_eq_true.mp digits c (by simp)), by simp⟩
    obtain ⟨c, digit, head⟩ := first
    obtain ⟨rest, rfl, shape⟩ := h.head_digit digit head
    rw [shape] at run ⊢
    simp only [List.take_succ_cons, List.drop_succ_cons, List.length_cons, Nat.add_right_cancel_iff,
      List.all_cons, digit, Bool.true_and] at run ⊢
    have later := ih rest run
    exact ⟨congrArg (c :: ·) later.1, later.2⟩

theorem readHex_frame (count : Nat) (text : Text) :
    readHex count (frame text) =
      (readHex count text).map fun (n, rest) => (n, frame rest) := by
  by_cases run : ((text.take count).length = count ∧ (text.take count).all isHexDigit) ∨
      (((frame text).take count).length = count ∧ ((frame text).take count).all isHexDigit)
  · obtain ⟨front, back⟩ := h.take_digits count text run
    rw [readHex, readHex, front, back]
    rw [front, or_self] at run
    simp only [run, and_self, if_true, Option.map_some]
  · obtain ⟨plain, framed⟩ := not_or.mp run
    simp only [readHex, plain, framed, if_false, Option.map_none]

theorem readBraced_frame (text : Text) :
    readBraced (frame text) = (readBraced text).map fun (value, rest) => (value, frame rest) := by
  obtain ⟨digits, after⟩ := h.takeWhile_isHexDigit text
  simp only [readBraced, digits, after]
  rcases h.head_cases (c := '\x7d') (by decide) (text.dropWhile isHexDigit) with
    ⟨rest, shape, framed⟩ | ⟨plain, framed⟩
  · rw [shape] at framed
    simp only [shape, framed]
    split <;> rfl
  · split
    · next shape => rw [shape] at framed; exact absurd rfl framed
    · split
      · next shape => rw [shape] at plain; exact absurd rfl plain
      · rfl

theorem readUnicode_frame (text : Text) :
    readUnicode (frame text) = (readUnicode text).map fun (value, rest) => (value, frame rest) := by
  rcases h.head_cases (c := '\x7b') (by decide) text with ⟨rest, rfl, framed⟩ | ⟨plain, framed⟩
  · rw [framed, readUnicode, readUnicode, h.readBraced_frame]
  · have unbraced {t : Text} (head : t.head? ≠ some '\x7b') :
        readUnicode t = (readHex 4 t).map fun (n, rest) => ([n], rest) := by
      unfold readUnicode
      split
      · exact absurd rfl head
      · rfl
    rw [unbraced plain, unbraced framed, h.readHex_frame]
    cases readHex 4 text <;> rfl

theorem skipLineFeed_frame (text : Text) :
    skipLineFeed (frame text) = frame (skipLineFeed text) := by
  rcases h.head_cases (c := '\n') (by decide) text with ⟨rest, rfl, framed⟩ | ⟨plain, framed⟩
  · rw [framed, skipLineFeed, skipLineFeed]
  · have kept {t : Text} (head : t.head? ≠ some '\n') : skipLineFeed t = t := by
      unfold skipLineFeed
      split
      · exact absurd rfl head
      · rfl
    rw [kept plain, kept framed]

theorem startsWithDigit_frame (text : Text) :
    Text.startsWithDigit (frame text) = Text.startsWithDigit text := by
  have starts {t : Text} (digit : Text.startsWithDigit t) : ∃ c, c.isDigit ∧ t.head? = some c := by
    cases t with
    | nil => cases digit
    | cons c rest => exact ⟨c, digit, rfl⟩
  have same {c : Char} (digit : c.isDigit) (head : text.head? = some c ∨ (frame text).head? = some c) :
      Text.startsWithDigit (frame text) ∧ Text.startsWithDigit text := by
    obtain ⟨rest, rfl, shape⟩ := h.head_digit (isHexDigit_of_isDigit digit) head
    rw [shape]
    exact ⟨digit, digit⟩
  rw [Bool.eq_iff_iff]
  constructor
  · intro framed
    obtain ⟨c, digit, head⟩ := starts framed
    exact (same digit (.inr head)).2
  · intro plain
    obtain ⟨c, digit, head⟩ := starts plain
    exact (same digit (.inl head)).1

theorem readEscape_frame (c : Char) (rest : Text) :
    readEscape (c :: frame rest) =
      (readEscape (c :: rest)).map fun (value, after) => (value, frame after) := by
  simp only [readEscape, h.readHex_frame, h.readUnicode_frame, h.skipLineFeed_frame,
    h.startsWithDigit_frame]
  split
  · cases readHex 2 rest <;> rfl
  split
  · rfl
  split
  · split <;> rfl
  split
  · rfl
  split
  · rfl
  split <;> rfl

end IsFrame

end DataLiteral.Script
