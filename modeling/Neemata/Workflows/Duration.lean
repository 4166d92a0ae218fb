import Neemata.Lib.Binary64

/-!
# Durations

`parseDurationMs` of `runtime/duration.ts`, with the numbers and dates that come of it. A duration
is a number with a unit; its value in milliseconds is a double.
-/

namespace Neemata.Binary64.Double

/-- `x > 0` -/
def positive (x : Double) : Bool := (finite 0).lt x

/-- The digits of a positive number and its power of ten (the number is `0.digits * 10 ^ power`):
the fewest digits that round to it, and of these the nearest. -/
def shortest (x : ℚ) : ℕ × ℤ :=
  let power := Int.log 10 x + 1
  let ofCount (count : ℕ) : Option (ℕ × ℤ) :=
    let exact := x * 10 ^ ((count : ℤ) - power)
    ([nearestEven exact, ⌊exact⌋, ⌈exact⌉].find? fun (digits : ℤ) =>
        round (digits * 10 ^ (power - count)) = .finite x).map fun digits =>
      if digits = 10 ^ count then (1, power + 1) else (digits.toNat, power)
  ((List.range 17).findSome? fun count => ofCount (count + 1)).getD (0, power)

/-- `String(x)` of a number that is not negative. -/
def text : Double → String
  | .nan => "NaN"
  | .infinite _ => "Infinity"
  | .finite x =>
    if x = 0 then "0"
    else
      let (mantissa, power) := shortest x
      let digits := toString mantissa
      let zeros (n : ℤ) := String.ofList (List.replicate n.toNat '0')
      let split (n : ℕ) :=
        String.ofList (digits.toList.take n) ++ "." ++ String.ofList (digits.toList.drop n)
      if digits.length ≤ power ∧ power ≤ 21 then digits ++ zeros (power - digits.length)
      else if 0 < power ∧ power ≤ 21 then split power.toNat
      else if -6 < power ∧ power ≤ 0 then "0." ++ zeros (-power) ++ digits
      else
        (if digits.length = 1 then digits else split 1) ++
          (if 0 < power then "e+" else "e-") ++ toString (power - 1).natAbs

end Neemata.Binary64.Double

namespace Neemata.Workflows

open Binary64 (Double)

/-- The greatest time value of a date. -/
def maxTime : Nat := 8640000000000000

/-- `new Date(value)`; `none` is the invalid date. -/
def toDate : Double → Option ℤ
  | .finite value =>
    if |value| ≤ maxTime then some (if 0 ≤ value then ⌊value⌋ else ⌈value⌉) else none
  | .infinite _ | .nan => none

/-- The date `delayMs` after `now`. No clock reaches an invalid date: it stands after all others. -/
def dateAfter (now : Nat) (delayMs : Double) : Nat :=
  ((toDate ((Double.finite now).add delayMs)).map Int.toNat).getD (maxTime + 1)

def durationUnit : List Char → Option Nat
  | ['m', 's'] => some 1
  | ['s'] => some 1000
  | ['m'] => some 60000
  | ['h'] => some 3600000
  | ['d'] => some 86400000
  | _ => none

/-- The digits of a number, of which the last `scale` stand after the point, with its unit. -/
def durationOf (digits : List Char) (scale : Nat) (unit : List Char) : Option Double :=
  let mantissa : Nat := digits.foldl (fun value digit => 10 * value + (digit.toNat - '0'.toNat)) 0
  match durationUnit unit, Double.round ((mantissa : ℚ) / 10 ^ scale) with
  | some unitMs, .finite value =>
    if unit = ['m', 's'] then some (.finite value)
    else some ((Double.finite value).mul (.finite unitMs))
  | _, _ => none

/-- `/^(\d+(?:\.\d+)?)(ms|s|m|h|d)$/`; everything else is no duration. -/
def parseDurationMs (duration : Option String) : Option Double :=
  match (duration.getD "").toList.span Char.isDigit with
  | ([], _) => none
  | (whole, '.' :: rest) =>
    match rest.span Char.isDigit with
    | ([], _) => none
    | (fraction, unit) => durationOf (whole ++ fraction) fraction.length unit
  | (whole, unit) => durationOf whole 0 unit

example : (parseDurationMs (some "1.005s")).map Double.text = some "1004.9999999999999" := by
  decide +kernel

end Neemata.Workflows
