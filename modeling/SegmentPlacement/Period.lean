import SegmentPlacement.Error
import SegmentPlacement.Text.Blank
import SegmentPlacement.Text.Numeral
import SegmentPlacement.Word

/-! Periods such as `7d`, `36h`, `30m` or `45s`: a number and one unit letter,
in either case, between blanks. -/

namespace SegmentPlacement.Period

open Text

/-- The seconds of one unit. -/
def unitSeconds? (letter : Char) : Option Nat :=
  if letter = 'd' ∨ letter = 'D' then some 86400
  else if letter = 'h' ∨ letter = 'H' then some 3600
  else if letter = 'm' ∨ letter = 'M' then some 60
  else if letter = 's' ∨ letter = 'S' then some 1
  else none

/-- The seconds of a period that has been stripped of blanks. -/
def strippedSeconds? (chars : List Char) : Option Nat :=
  match chars.getLast? with
  | none => none
  | some letter => do
    let count ← unsigned? (wordCount 64) chars.dropLast
    let unit ← unitSeconds? letter
    return count * unit

def seconds? (chars : List Char) : Option Nat := strippedSeconds? (strip chars)

/-- The seconds of a period, or an error that shows the period without the blanks around it. -/
def seconds (period : String) : Except Error Nat :=
  match seconds? period.toList with
  | some count => .ok count
  | none => .error (.invalidConfig (.period (String.ofList (strip period.toList))))

end SegmentPlacement.Period
