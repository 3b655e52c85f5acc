import Snapevent.Core.Ids

/-!
# Fixed-point units

The decimal strings of the wire and the scaled integers they are read into (`units.rs`).  A text
that is empty, malformed, too precise, out of range or wrongly signed is an error, never a zero.
-/

namespace Snapevent

/-- How one character is shown in a quoted text.  Characters behind the control characters that the
standard library's tables call unprintable are left as they are. -/
def debugChar (c : Char) : List Char :=
  if c = '"' then ['\\', '"']
  else if c = '\\' then ['\\', '\\']
  else if c = '\n' then ['\\', 'n']
  else if c = '\r' then ['\\', 'r']
  else if c = '\t' then ['\\', 't']
  else if c.toNat = 0 then ['\\', '0']
  else if c.toNat < 32 ∨ (127 ≤ c.toNat ∧ c.toNat < 160) then
    '\\' :: 'u' :: '{' :: Nat.toDigits 16 c.toNat ++ ['}']
  else [c]

/-- A text in quotes, as `{:?}` shows it. -/
def debugText (s : String) : String :=
  String.ofList ('"' :: s.toList.flatMap debugChar ++ ['"'])

example : debugText "a\t\"\x1b" = "\"a\\t\\\"\\u\x7b1b\x7d\"" := by decide

/-- Why a fixed-point text could not be read. -/
inductive FixedPointError
  | empty
  | notNumeric (input : String)
  | tooManyDecimals (max : ℕ) (input : String)
  | overflow (input : String)
  | negative (input : String)
  deriving DecidableEq, Repr

/-- The message of an error. -/
def FixedPointError.message : FixedPointError → String
  | empty => "empty fixed-point string"
  | notNumeric input => "not a numeric fixed-point value: " ++ debugText input
  | tooManyDecimals max input =>
    "too many decimal places (max " ++ toString max ++ "): " ++ debugText input
  | overflow input => "fixed-point value out of range: " ++ debugText input
  | negative input => "negative value not allowed here: " ++ debugText input

/-! ## Scaling -/

/-- The largest signed 128-bit integer. -/
def I128_MAX : ℕ := 2 ^ 127 - 1

/-- A non-negative 128-bit result, unless it overflows. -/
def checked (input : String) (n : ℕ) : Except FixedPointError ℕ :=
  if n ≤ I128_MAX then .ok n else .error (.overflow input)

/-- The parts before and after the first `d`. -/
def splitOnce (d : Char) (cs : List Char) : Option (List Char × List Char) :=
  if d ∈ cs then some (cs.takeWhile (· ≠ d), (cs.dropWhile (· ≠ d)).tail) else none

/-- What follows a minus sign, or the whole text. -/
def stripSign : List Char → Bool × List Char
  | '-' :: rest => (true, rest)
  | cs => (false, cs)

/-- Read a fixed-point text into its sign and its magnitude scaled by `10 ^ scale`. -/
def parseScaled (input : String) (scale : ℕ) : Except FixedPointError (Bool × ℕ) :=
  if input.isEmpty then .error .empty
  else
    let (negative, body) := stripSign input.toList
    if body.isEmpty then .error (.notNumeric input)
    else
      let (intPart, fracPart, hadPoint) := match splitOnce '.' body with
        | some (i, f) => (i, f, true)
        | none => (body, [], false)
      if intPart.isEmpty || !intPart.all (·.isDigit) then .error (.notNumeric input)
      else if hadPoint && fracPart.isEmpty then .error (.notNumeric input)
      else if !fracPart.all (·.isDigit) then .error (.notNumeric input)
      else if scale < fracPart.length then .error (.tooManyDecimals scale input)
      else do
        let intValue ← checked input (Nat.ofDigitChars 10 intPart 0)
        let fracContribution ←
          if fracPart.isEmpty then .ok 0
          else do
            let fracValue ← checked input (Nat.ofDigitChars 10 fracPart 0)
            checked input (fracValue * 10 ^ (scale - fracPart.length))
        let scaled ← checked input (intValue * 10 ^ scale)
        let magnitude ← checked input (scaled + fracContribution)
        return (negative, magnitude)

/-! ## The units -/

namespace MicroDollars

/-- The number of decimal places of a price. -/
def SCALE : ℕ := 6

/-- Read a price. -/
def parse (input : String) : Except FixedPointError MicroDollars := do
  let (negative, magnitude) ← parseScaled input SCALE
  if negative then .error (.negative input)
  else if magnitude < 2 ^ 32 then .ok ⟨UInt32.ofNat magnitude⟩
  else .error (.overflow input)

end MicroDollars

namespace RestingQty

/-- The number of decimal places of a resting quantity. -/
def SCALE : ℕ := 2

/-- Read a resting quantity. -/
def parse (input : String) : Except FixedPointError RestingQty := do
  let (negative, magnitude) ← parseScaled input SCALE
  if negative then .error (.negative input)
  else if magnitude < 2 ^ 64 then .ok ⟨UInt64.ofNat magnitude⟩
  else .error (.overflow input)

end RestingQty

namespace QtyDelta

/-- The number of decimal places of a quantity change. -/
def SCALE : ℕ := 2

/-- Read a signed quantity change. -/
def parse (input : String) : Except FixedPointError QtyDelta := do
  let (negative, magnitude) ← parseScaled input SCALE
  let signed : ℤ := if negative then -(magnitude : ℤ) else magnitude
  if -2 ^ 63 ≤ signed ∧ signed < 2 ^ 63 then .ok ⟨Int64.ofInt signed⟩
  else .error (.overflow input)

end QtyDelta

end Snapevent
