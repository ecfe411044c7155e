import DataLiteral.Text.Position

set_option autoImplicit false

namespace DataLiteral.Text

def dropLines : Nat → Text → Text
  | 0, text => text
  | _ + 1, [] => []
  | n + 1, c :: rest => if c = '\n' then dropLines n rest else dropLines (n + 1) rest

def firstLine (text : Text) : Text :=
  text.takeWhile (· != '\n')

def beginBefore (index : Nat) : Text → Text
  | [] => []
  | c :: rest => if index = 0 then [] else c :: beginBefore (index - c.utf8Size) rest

def lineStart (source : Text) (line : Nat) : Nat :=
  byteSize source - byteSize (dropLines (line - 1) source)

-- How far into its line the byte stands that a location names: the last one of its column, if the
-- column has any.
def Location.ahead (loc : Location) : Nat :=
  max loc.column 1 - 1

def byteIndex (source : Text) (loc : Location) : Nat :=
  lineStart source loc.line + loc.ahead

def charsBefore (source : Text) (loc : Location) : Text :=
  beginBefore loc.ahead (dropLines (loc.line - 1) source)

def IsAscii (text : Text) : Prop :=
  ∀ c ∈ text, c.toNat < 0x80

def IsBoundary (text : Text) (index : Nat) : Prop :=
  ∃ before after, text = before ++ after ∧ byteSize before = index

theorem utf8Size_eq_one_iff {c : Char} : c.utf8Size = 1 ↔ c.toNat < 0x80 := by
  rw [Char.utf8Size_eq_one_iff, UInt32.le_iff_toNat_le]
  exact Nat.lt_succ_iff.symm

section

variable {c : Char} {rest : Text}

theorem dropLines_feed (n : Nat) : dropLines (n + 1) ('\n' :: rest) = dropLines n rest := by
  simp [dropLines]

theorem dropLines_other (n : Nat) (notFeed : c ≠ '\n') :
    dropLines (n + 1) (c :: rest) = dropLines (n + 1) rest := by
  simp [dropLines, notFeed]

theorem firstLine_feed : firstLine ('\n' :: rest) = [] := by
  simp [firstLine]

theorem firstLine_other (notFeed : c ≠ '\n') : firstLine (c :: rest) = c :: firstLine rest := by
  simp [firstLine, notFeed]

end

theorem byteSize_dropLines_le (n : Nat) (text : Text) :
    byteSize (dropLines n text) ≤ byteSize text := by
  induction text generalizing n with
  | nil => cases n <;> simp [dropLines]
  | cons c rest ih =>
    cases n with
    | zero => exact Nat.le_refl _
    | succ n =>
      have later := ih n
      have same := ih (n + 1)
      simp only [dropLines, byteSize_cons]
      split <;> omega

theorem byteSize_firstLine_le (text : Text) : byteSize (firstLine text) ≤ byteSize text := by
  have whole := byteSize_append (firstLine text) (text.dropWhile (· != '\n'))
  rw [firstLine, List.takeWhile_append_dropWhile] at whole
  exact whole ▸ Nat.le_add_right _ _

theorem locate_within (loc : Location) (text : Text) (index : Nat) :
    loc.line ≤ (locate loc text index).line ∧
      (locate loc text index).column ≤
        (if (locate loc text index).line = loc.line then loc.column else 0) +
          byteSize (firstLine (dropLines ((locate loc text index).line - loc.line) text)) := by
  induction text generalizing loc index with
  | nil => simp [locate]
  | cons c rest ih =>
    rw [locate]
    split
    next inside =>
      refine ⟨Nat.le_refl _, ?_⟩
      by_cases feed : c = '\n'
      next =>
        have one : c.utf8Size = 1 := by rw [feed]; rfl
        simp only [Location.advance, if_true]
        omega
      next =>
        simp only [Location.advance, if_true, Nat.sub_self, dropLines, firstLine_other feed,
          byteSize_cons]
        omega
    split
    next beyond feed =>
      subst feed
      obtain ⟨below, within⟩ := ih loc.nextLine (index - '\n'.utf8Size)
      generalize locate loc.nextLine rest (index - '\n'.utf8Size) = found at below within
      have next : loc.nextLine.line = loc.line + 1 := rfl
      have start : loc.nextLine.column = 0 := rfl
      have apart : ¬found.line = loc.line := by omega
      have drop : found.line - loc.line = found.line - loc.nextLine.line + 1 := by omega
      refine ⟨by omega, ?_⟩
      simpa only [start, ite_self, apart, if_false, drop, dropLines_feed] using within
    next beyond notFeed =>
      obtain ⟨below, within⟩ := ih (loc.advance c.utf8Size) (index - c.utf8Size)
      generalize locate (loc.advance c.utf8Size) rest (index - c.utf8Size) = found at below within
      have line : (loc.advance c.utf8Size).line = loc.line := rfl
      have column : (loc.advance c.utf8Size).column = loc.column + c.utf8Size := rfl
      rw [line] at below within
      refine ⟨below, ?_⟩
      by_cases same : found.line = loc.line
      next =>
        simp only [same, if_true, Nat.sub_self, dropLines, firstLine_other notFeed, byteSize_cons,
          column] at within ⊢
        omega
      next =>
        obtain ⟨n, more⟩ : ∃ n, found.line - loc.line = n + 1 :=
          Nat.exists_eq_succ_of_ne_zero (by omega)
        simpa only [same, if_false, more, dropLines_other n notFeed] using within

theorem location_within (source : Text) (index : Nat) :
    1 ≤ (location source index).line ∧
      (location source index).column ≤
        byteSize (firstLine (dropLines ((location source index).line - 1) source)) := by
  obtain ⟨below, within⟩ := locate_within .start source index
  have start : Location.start.column = 0 := rfl
  rw [start, ite_self, Nat.zero_add] at within
  exact ⟨below, within⟩

theorem walk_dropLines (loc : Location) (cursor : Cursor) (text : Text) (n : Nat)
    (below : loc.line = cursor.line + 1 + (n + 1)) :
    walk loc cursor text + byteSize (dropLines (n + 1) text) =
      byteSize text + walk loc ⟨loc.line - 1, 0⟩ (dropLines (n + 1) text) := by
  induction text generalizing cursor n with
  | nil => simp [walk, dropLines]
  | cons c rest ih =>
    have open' : cursor.reached loc = false := by
      simp only [Cursor.reached, Bool.and_eq_false_iff, decide_eq_false_iff_not]
      omega
    simp only [walk, open', Bool.false_eq_true, if_false, byteSize_cons]
    by_cases feed : c = '\n'
    next =>
      subst feed
      have step : cursor.step '\n' = ⟨cursor.line + 1, 0⟩ := rfl
      rw [step, dropLines_feed]
      cases n with
      | zero =>
        have line : loc.line - 1 = cursor.line + 1 := by omega
        simp only [dropLines, line]
        omega
      | succ n =>
        have later := ih ⟨cursor.line + 1, 0⟩ n (by simp only; omega)
        omega
    next =>
      have step : cursor.step c = ⟨cursor.line, cursor.column + 1⟩ := by simp [Cursor.step, feed]
      have later := ih (cursor.step c) n (by rw [step]; exact below)
      rw [dropLines_other n feed]
      omega

theorem offset_eq (source : Text) (loc : Location) (h : 1 ≤ loc.line) :
    offset source loc =
      lineStart source loc.line +
        walk loc ⟨loc.line - 1, 0⟩ (dropLines (loc.line - 1) source) := by
  have size := byteSize_dropLines_le (loc.line - 1) source
  cases line : loc.line - 1 with
  | zero => simp [offset, lineStart, line, dropLines]
  | succ n =>
    have passed := walk_dropLines loc ⟨0, 0⟩ source n (by simp only; omega)
    rw [line] at passed size
    simp only [offset, lineStart, line]
    omega

-- Each character passed has at least one byte, so the walk is not short of the column.
theorem column_le_walk (loc : Location) (cursor : Cursor) (text : Text) :
    loc.column ≤ cursor.column + 1 + walk loc cursor text ∨
      walk loc cursor text = byteSize text := by
  induction text generalizing cursor with
  | nil => exact .inr rfl
  | cons c rest ih =>
    have positive := c.utf8Size_pos
    simp only [walk, byteSize_cons]
    split
    next reached =>
      simp only [Cursor.reached, Bool.and_eq_true, decide_eq_true_eq] at reached
      exact .inl reached.2
    next =>
      rcases ih (cursor.step c) with short | all
      next =>
        have column : (cursor.step c).column ≤ cursor.column + 1 := by
          by_cases feed : c = '\n' <;> simp [Cursor.step, feed]
        exact .inl (by omega)
      next => exact .inr (by omega)

theorem isBoundary_walk (loc : Location) (cursor : Cursor) (text : Text) :
    IsBoundary text (walk loc cursor text) := by
  induction text generalizing cursor with
  | nil => exact ⟨[], [], rfl, rfl⟩
  | cons c rest ih =>
    rw [walk]
    split
    next => exact ⟨[], c :: rest, rfl, rfl⟩
    next =>
      obtain ⟨before, after, parts, size⟩ := ih (cursor.step c)
      exact ⟨c :: before, after, congrArg (c :: ·) parts, congrArg (c.utf8Size + ·) size⟩

theorem isBoundary_offset (source : Text) (loc : Location) :
    IsBoundary source (offset source loc) :=
  isBoundary_walk loc ⟨0, 0⟩ source

theorem walk_eq_iff (loc : Location) (cursor : Cursor) (text : Text)
    (line : loc.line ≤ cursor.line + 1)
    (within : loc.column ≤ cursor.column + byteSize (firstLine text)) :
    walk loc cursor text = loc.column - (cursor.column + 1) ↔
      IsAscii (beginBefore (loc.column - (cursor.column + 1)) text) := by
  induction text generalizing cursor with
  | nil =>
    have done : loc.column - (cursor.column + 1) = 0 := by
      simp only [firstLine, List.takeWhile_nil, byteSize_nil] at within
      omega
    simp [walk, done, beginBefore, IsAscii]
  | cons c rest ih =>
    by_cases done : loc.column ≤ cursor.column + 1
    next =>
      have reached : cursor.reached loc = true := by simp [Cursor.reached, line, done]
      have none' : loc.column - (cursor.column + 1) = 0 := by omega
      simp [walk, reached, none', beginBefore, IsAscii]
    next =>
      have open' : cursor.reached loc = false := by simp [Cursor.reached, done]
      have notFeed : c ≠ '\n' := by
        rintro rfl
        rw [firstLine_feed] at within
        simp only [byteSize_nil] at within
        omega
      have step : cursor.step c = ⟨cursor.line, cursor.column + 1⟩ := by
        simp [Cursor.step, notFeed]
      rw [firstLine_other notFeed, byteSize_cons] at within
      have ahead : loc.column - (cursor.column + 1) ≠ 0 := by omega
      simp only [walk, open', Bool.false_eq_true, if_false, beginBefore, ahead, IsAscii,
        List.forall_mem_cons]
      rw [← utf8Size_eq_one_iff]
      by_cases one : c.utf8Size = 1
      next =>
        have later := ih (cursor.step c) (by rw [step]; exact line) (by rw [step]; simp only; omega)
        rw [step] at later ⊢
        simp only [one, true_and, Nat.sub_sub] at later ⊢
        rw [← IsAscii, ← later]
        omega
      next =>
        have positive := c.utf8Size_pos
        have past := column_le_walk loc (cursor.step c) rest
        have size := byteSize_firstLine_le rest
        rw [step] at past ⊢
        simp only at past
        constructor
        next => omega
        next => exact fun ascii => absurd ascii.1 one

theorem byteIndex_le_offset (source : Text) (index : Nat) :
    byteIndex source (location source index) ≤ offset source (location source index) := by
  obtain ⟨line, within⟩ := location_within source index
  generalize location source index = loc at line within
  have inside := byteSize_firstLine_le (dropLines (loc.line - 1) source)
  have past := column_le_walk loc ⟨loc.line - 1, 0⟩ (dropLines (loc.line - 1) source)
  rw [offset_eq source loc line, byteIndex, Location.ahead]
  refine Nat.add_le_add_left ?_ _
  simp only at past
  omega

theorem offset_location_iff (source : Text) (index : Nat) :
    offset source (location source index) = byteIndex source (location source index) ↔
      IsAscii (charsBefore source (location source index)) := by
  obtain ⟨line, within⟩ := location_within source index
  generalize location source index = loc at line within
  have ahead : loc.ahead = loc.column - 1 := by
    simp only [Location.ahead]
    omega
  have walked := walk_eq_iff loc ⟨loc.line - 1, 0⟩ (dropLines (loc.line - 1) source)
    (by simp only; omega) (by simpa only [Nat.zero_add] using within)
  rw [Nat.zero_add] at walked
  rw [offset_eq source loc line, byteIndex, charsBefore, ahead, ← walked, Nat.add_right_inj]

end DataLiteral.Text
