/-! Decimal numerals as settings, periods and options are written: an optional
sign and at least one ASCII digit, refused when the value leaves its range. -/

namespace SegmentPlacement.Text

/-- The value of an ASCII decimal digit. -/
def digit? (char : Char) : Option Nat :=
  if '0'.toNat ≤ char.toNat ∧ char.toNat ≤ '9'.toNat then some (char.toNat - '0'.toNat) else none

def isDigit (char : Char) : Bool := (digit? char).isSome

/-- The number written by `digits` after a number `high` that has been read already. -/
def continueNumber (high : Nat) : List Char → Option Nat
  | [] => some high
  | char :: rest =>
    match digit? char with
    | some value => continueNumber (10 * high + value) rest
    | none => none

/-- At least one digit and nothing else. -/
def digits? : List Char → Option Nat
  | [] => none
  | chars => continueNumber 0 chars

/-- An unsigned number below `limit`, optionally after a plus sign. -/
def unsigned? (limit : Nat) (chars : List Char) : Option Nat :=
  let magnitude := match chars with
    | '+' :: rest => digits? rest
    | _ => digits? chars
  magnitude.filter (· < limit)

/-- A signed number from `least` to `greatest`, optionally after a sign. -/
def signed? (least greatest : Int) (chars : List Char) : Option Int :=
  let value := match chars with
    | '+' :: rest => (digits? rest).map Int.ofNat
    | '-' :: rest => (digits? rest).map fun magnitude => -Int.ofNat magnitude
    | _ => (digits? chars).map Int.ofNat
  value.filter fun number => least ≤ number ∧ number ≤ greatest

end SegmentPlacement.Text
