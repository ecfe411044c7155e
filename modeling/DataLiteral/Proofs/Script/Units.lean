import DataLiteral.Text.Basic

set_option autoImplicit false

namespace DataLiteral

/-- A string as scripts hold it: its UTF-16 code units, each below 0x10000. -/
abbrev Units := List Nat

namespace Units

def ofCode (n : Nat) : Units :=
  if n < 0x10000 then [n] else [0xd800 + (n - 0x10000) / 0x400, 0xdc00 + (n - 0x10000) % 0x400]

end Units

namespace Text

def charUnits (c : Char) : Units :=
  Units.ofCode c.toNat

def units (text : Text) : Units :=
  text.flatMap charUnits

@[simp] theorem units_nil : units [] = [] := rfl

@[simp] theorem units_cons (c : Char) (rest : Text) :
    units (c :: rest) = charUnits c ++ units rest := rfl

theorem charUnits_of_lt (c : Char) (h : c.toNat < 0x10000) : charUnits c = [c.toNat] :=
  if_pos h

-- No unit of one character can be taken for the start of another one's, as only the first of two
-- is a leading surrogate, and a lone unit is none.
theorem charUnits_append_inj {c d : Char} {a b : Units}
    (h : charUnits c ++ a = charUnits d ++ b) : c = d ∧ a = b := by
  have range (e : Char) : e.toNat < 0xd800 ∨ 0xdfff < e.toNat ∧ e.toNat < 0x110000 :=
    e.valid
  have hc := range c
  have hd := range d
  simp only [charUnits, Units.ofCode] at h
  split at h <;> split at h <;> simp only [List.cons_append, List.nil_append, List.cons.injEq] at h
  · exact ⟨Char.toNat_inj.mp h.1, h.2⟩
  · omega
  · omega
  · exact ⟨Char.toNat_inj.mp (by omega), h.2.2⟩

theorem units_injective : Function.Injective units := by
  intro a
  induction a with
  | nil =>
    intro b h
    cases b with
    | nil => rfl
    | cons d b =>
      simp only [units_nil, units_cons, charUnits, Units.ofCode] at h
      split at h <;> simp at h
  | cons c a ih =>
    intro b h
    cases b with
    | nil =>
      simp only [units_nil, units_cons, charUnits, Units.ofCode] at h
      split at h <;> simp at h
    | cons d b =>
      obtain ⟨same, rest⟩ := charUnits_append_inj h
      rw [same, ih rest]

end Text

end DataLiteral
