import DataLiteral.Decimal.Shortest
import DataLiteral.Text.Digit

set_option autoImplicit false

namespace DataLiteral.Decimal

/-- A decimal numeral as it is written: digits, then a point with digits after it, then a mark with
a signed exponent. Either of the last two can be missing, and is empty then. -/
structure Numeral where
  whole : Text
  fraction : Text
  exponent : Text
  deriving DecidableEq, Repr

namespace Numeral

def text (n : Numeral) : Text :=
  n.whole ++ n.fraction ++ n.exponent

def isMark (c : Char) : Bool :=
  c == 'e' || c == 'E'

def takeFraction : Text → Text × Text
  | '.' :: rest => ('.' :: rest.takeWhile Char.isDigit, rest.dropWhile Char.isDigit)
  | rest => ([], rest)

def sign : Text → Text
  | '+' :: _ => ['+']
  | '-' :: _ => ['-']
  | _ => []

-- A mark without digits after it is left to what follows the numeral.
def takeExponent : Text → Text × Text
  | [] => ([], [])
  | mark :: rest =>
      let digits := rest.drop (sign rest).length
      if isMark mark && Text.startsWithDigit digits then
        (mark :: (sign rest ++ digits.takeWhile Char.isDigit), digits.dropWhile Char.isDigit)
      else ([], mark :: rest)

def take (source : Text) : Option (Numeral × Text) :=
  if Text.startsWithDigit source then
    let fraction := takeFraction (source.dropWhile Char.isDigit)
    let exponent := takeExponent fraction.2
    some (⟨source.takeWhile Char.isDigit, fraction.1, exponent.1⟩, exponent.2)
  else none

def exponentValue : Text → Int
  | [] => 0
  | _ :: '-' :: digits => -(Text.numeral 10 digits : Int)
  | _ :: '+' :: digits => Text.numeral 10 digits
  | _ :: digits => Text.numeral 10 digits

def places (n : Numeral) : Text :=
  n.fraction.drop 1

def value (n : Numeral) : Decimal :=
  ⟨Text.numeral 10 (n.whole ++ n.places), exponentValue n.exponent - n.places.length⟩

def IsDigits (text : Text) : Prop :=
  text ≠ [] ∧ ∀ c ∈ text, c.isDigit

def IsFraction (text : Text) : Prop :=
  text = [] ∨ ∃ places, text = '.' :: places ∧ IsDigits places

def IsExponent (text : Text) : Prop :=
  text = [] ∨ ∃ mark sign digits, text = mark :: (sign ++ digits) ∧ isMark mark ∧
    (sign = [] ∨ sign = ['+'] ∨ sign = ['-']) ∧ IsDigits digits

structure WellFormed (n : Numeral) : Prop where
  whole : IsDigits n.whole
  noZero : n.whole.length = 1 ∨ n.whole.head? ≠ some '0'
  fraction : IsFraction n.fraction
  exponent : IsExponent n.exponent

def Ends (rest : Text) : Prop :=
  ∀ c ∈ rest.head?, !c.isDigit && c != '.' && !isMark c

theorem Ends.startsWithDigit {rest : Text} (h : Ends rest) : Text.startsWithDigit rest = false := by
  cases rest with
  | nil => rfl
  | cons c rest =>
    have ends := h c rfl
    simp only [Bool.and_eq_true, Bool.not_eq_true'] at ends
    exact ends.1.1

theorem startsWithDigit_append {digits rest : Text} (h : IsDigits digits) :
    Text.startsWithDigit (digits ++ rest) := by
  obtain ⟨nonempty, all⟩ := h
  cases digits with
  | nil => exact absurd rfl nonempty
  | cons c digits => exact all c List.mem_cons_self

theorem sign_of_startsWithDigit {text : Text} (h : Text.startsWithDigit text) : sign text = [] := by
  unfold sign
  split
  · cases h
  · cases h
  · rfl

theorem exponentValue_digits {mark : Char} {digits : Text} (h : Text.startsWithDigit digits) :
    exponentValue (mark :: digits) = Text.numeral 10 digits := by
  unfold exponentValue
  split
  · next shape => cases shape
  · next shape =>
    cases shape
    cases h
  · next shape =>
    cases shape
    cases h
  · next shape =>
    cases shape
    rfl

theorem takeWhile_append {digits rest : Text} (all : ∀ c ∈ digits, c.isDigit)
    (stop : Text.startsWithDigit rest = false) :
    (digits ++ rest).takeWhile Char.isDigit = digits ∧
      (digits ++ rest).dropWhile Char.isDigit = rest := by
  rw [List.takeWhile_append_of_pos all, List.dropWhile_append_of_pos all]
  cases rest with
  | nil => simp
  | cons c rest =>
    have notDigit : c.isDigit = false := stop
    simp [notDigit]

theorem takeExponent_append {exponent rest : Text} (ends : Ends rest) (h : IsExponent exponent) :
    takeExponent (exponent ++ rest) = (exponent, rest) := by
  rcases h with rfl | ⟨mark, signed, digits, rfl, isMark, signs, isDigits⟩
  · cases rest with
    | nil => rfl
    | cons c rest =>
      have stop := ends c rfl
      simp only [Bool.and_eq_true, Bool.not_eq_true'] at stop
      simp [takeExponent, stop.2]
  · have starts : Text.startsWithDigit (digits ++ rest) := startsWithDigit_append isDigits
    have split := takeWhile_append isDigits.2 ends.startsWithDigit
    have found : sign (signed ++ (digits ++ rest)) = signed := by
      rcases signs with rfl | rfl | rfl
      · exact sign_of_startsWithDigit starts
      · rfl
      · rfl
    simp only [List.cons_append, List.append_assoc, takeExponent, found, List.drop_left, isMark,
      starts, Bool.and_self, if_true, split.1, split.2]

theorem take_text {n : Numeral} {rest : Text} (h : n.WellFormed) (ends : Ends rest) :
    take (n.text ++ rest) = some (n, rest) := by
  obtain ⟨whole, fraction, exponent⟩ := n
  have afterExponent := takeExponent_append ends h.exponent
  have exponentStops : Text.startsWithDigit (exponent ++ rest) = false := by
    rcases h.exponent with rfl | ⟨mark, sign, digits, rfl, isMark, _⟩
    · exact ends.startsWithDigit
    · simp only [Numeral.isMark, Bool.or_eq_true, beq_iff_eq] at isMark
      rcases isMark with rfl | rfl <;> rfl
  have afterFraction : takeFraction (fraction ++ (exponent ++ rest)) =
      (fraction, exponent ++ rest) := by
    rcases h.fraction with rfl | ⟨places, rfl, isDigits⟩
    · rw [List.nil_append]
      unfold takeFraction
      split
      · next after point =>
        rcases h.exponent with rfl | ⟨mark, sign, digits, rfl, isMark, _⟩
        · have stop := ends '.' (by rw [List.nil_append] at point; rw [point]; rfl)
          simp at stop
        · injection point with same _
          subst same
          cases isMark
      · rfl
    · have split := takeWhile_append isDigits.2 exponentStops
      simp only [List.cons_append, takeFraction, split.1, split.2]
  have fractionStops : Text.startsWithDigit (fraction ++ (exponent ++ rest)) = false := by
    rcases h.fraction with rfl | ⟨places, rfl, _⟩
    · exact exponentStops
    · rfl
  have split := takeWhile_append h.whole.2 fractionStops
  simp only [text, List.append_assoc, take, startsWithDigit_append h.whole, if_true, split.1,
    split.2, afterFraction, afterExponent]

theorem takeFraction_eq (text : Text) :
    (takeFraction text).1 ++ (takeFraction text).2 = text := by
  unfold takeFraction
  split
  · simp
  · rfl

theorem sign_append_drop (text : Text) : sign text ++ text.drop (sign text).length = text := by
  unfold sign
  split <;> rfl

theorem takeExponent_eq (text : Text) :
    (takeExponent text).1 ++ (takeExponent text).2 = text := by
  unfold takeExponent
  split
  · rfl
  · next mark rest =>
    dsimp only
    split
    · simp [sign_append_drop]
    · rfl

theorem take_eq {source rest : Text} {n : Numeral} (h : take source = some (n, rest)) :
    source = n.text ++ rest ∧ n.whole ≠ [] := by
  simp only [take] at h
  split at h
  · next starts =>
    simp only [Option.some.injEq, Prod.mk.injEq] at h
    obtain ⟨rfl, rfl⟩ := h
    constructor
    · simp only [text, List.append_assoc, takeExponent_eq, takeFraction_eq,
        List.takeWhile_append_dropWhile]
    · cases source with
      | nil => cases starts
      | cons c source =>
        have digit : c.isDigit := starts
        simp [digit]
  · cases h

end Numeral

end DataLiteral.Decimal
