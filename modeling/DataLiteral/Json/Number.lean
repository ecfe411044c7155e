import DataLiteral.Json.Failure
import DataLiteral.Number
import DataLiteral.Text.Digit

set_option autoImplicit false

namespace DataLiteral.Json

def skipDigits (text : Text) : Text :=
  text.dropWhile Char.isDigit

structure Digits where
  value : Nat
  count : Nat
  rest : Text
  deriving DecidableEq, Repr

def takeDigits (limit value count : Nat) : Text → Digits
  | [] => ⟨value, count, []⟩
  | c :: rest =>
      if c.isDigit && 10 * value + Text.digitValue c ≤ limit then
        takeDigits limit (10 * value + Text.digitValue c) (count + 1) rest
      else ⟨value, count, c :: rest⟩

-- Significands have 64 bits. A digit beyond them, and every digit after it, is dropped.
def significandLimit : Nat := 0xffffffffffffffff

def exponentLimit : Nat := 0x7fffffff

def tenTo (n : Nat) : Binary64 :=
  .ofNat (Decimal.tenTo n)

def divideSteps (x : Binary64) : Nat → Binary64
  | 0 => x
  | n + 1 => if x.isZero then x else divideSteps (x.div (tenTo 308)) n

/-- The significand is rounded, then scaled by one multiplication or by divisions, each of them
rounded again. A number too large for a double has no value. -/
def scale (significand : Nat) : Int → Option Binary64
  | .ofNat n =>
      let x := Binary64.ofNat significand
      if n ≤ 308 then
        let product := x.mul (tenTo n)
        if product.isInfinite then none else some product
      else if x.isZero then some x
      else none
  | .negSucc n =>
      some ((divideSteps (.ofNat significand) (n / 308)).div (tenTo (n % 308 + 1)))

def float (negative : Bool) (significand : Nat) (exponent : Int) (rest : Text) : Result Number :=
  match scale significand exponent with
  | some x => .ok (.float (if negative then x.neg else x), rest)
  | none => .error (.before .numberOutOfRange rest)

def takeSign : Text → Bool × Text
  | '+' :: rest => (false, rest)
  | '-' :: rest => (true, rest)
  | rest => (false, rest)

def readExponent (negative : Bool) (significand : Nat) (exponent : Int) (text : Text) :
    Result Number :=
  let (down, digits) := takeSign text
  match digits with
  | [] => .error (.next .endInValue [])
  | c :: rest =>
      if c.isDigit then
        let run := takeDigits exponentLimit 0 0 (c :: rest)
        if Text.startsWithDigit run.rest then
          if significand ≠ 0 && !down then
            .error (.before .numberOutOfRange (run.rest.drop 1))
          else .ok (.float (.zero negative), skipDigits run.rest)
        else if down then float negative significand (exponent - run.value) run.rest
        else float negative significand (exponent + run.value) run.rest
      else .error (.next .invalidNumber (c :: rest))

def readScaled (negative : Bool) (significand : Nat) (exponent : Int) : Text → Result Number
  | 'e' :: rest => readExponent negative significand exponent rest
  | 'E' :: rest => readExponent negative significand exponent rest
  | rest => float negative significand exponent rest

def readFraction (negative : Bool) (significand : Nat) (exponent : Int) (text : Text) :
    Result Number :=
  let run := takeDigits significandLimit significand 0 text
  if Text.startsWithDigit run.rest then
    readScaled negative run.value (exponent - run.count) (skipDigits run.rest)
  else if run.count = 0 then
    .error (.next (if text.isEmpty then .endInValue else .invalidNumber) text)
  else readScaled negative run.value (exponent - run.count) run.rest

def integer (negative : Bool) (significand : Nat) : Number :=
  if negative && significand == 0 then .float (.zero true)
  else
    match Number.ofInt? (if negative then -significand else significand) with
    | some n => n
    | none =>
        let x := Binary64.ofNat significand
        .float (if negative then x.neg else x)

def readTail (negative : Bool) (significand dropped : Nat) : Text → Result Number
  | '.' :: rest => readFraction negative significand dropped rest
  | 'e' :: rest => readExponent negative significand dropped rest
  | 'E' :: rest => readExponent negative significand dropped rest
  | rest =>
      if dropped = 0 then .ok (integer negative significand, rest)
      else float negative significand dropped rest

def readUnsigned (negative : Bool) : Text → Result Number
  | [] => .error (.next .endInValue [])
  | c :: rest =>
      if c = '0' then
        if Text.startsWithDigit rest then .error (.next .invalidNumber rest)
        else readTail negative 0 0 rest
      else if c.isDigit then
        let run := takeDigits significandLimit 0 0 (c :: rest)
        readTail negative run.value (run.rest.takeWhile Char.isDigit).length (skipDigits run.rest)
      else .error (.next .invalidNumber (c :: rest))

def readNumber : Text → Result Number
  | '-' :: rest => readUnsigned true rest
  | text => readUnsigned false text

end DataLiteral.Json
