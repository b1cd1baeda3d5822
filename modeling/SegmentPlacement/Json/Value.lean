import SegmentPlacement.Decimal.Signed
import SegmentPlacement.Word

/-! JSON values. Whole numbers stay exact; every other number is a float. The
members of an object keep the order and the repetitions of their text. What is
well written but stands for no value is flawed; it may be passed over, and
nothing can be read from it. -/

namespace SegmentPlacement

inductive Json where
  | null
  | bool (value : Bool)
  | int (value : Int)
  | float (value : Decimal.Signed)
  | str (value : String)
  | arr (items : List Json)
  /-- `escaped` tells that a name is written with escapes, which a name that is a number may not
  be. -/
  | obj (members : List (String × Json)) (escaped : Bool := false)
  /-- A number beyond all floats, a text with half a character, an object with such a name, or
  anything nested too deeply. -/
  | flawed
  deriving Inhabited

namespace Json

/-- The least and the greatest whole number that is kept exact. -/
def leastInt : Int := leastWord

def greatestInt : Int := 0xFFFFFFFFFFFFFFFF

/-- An object with the last of the members that share a name, in the order of first mention. -/
def mergeMembers : List (String × Json) → List (String × Json)
  | [] => []
  | (name, value) :: rest =>
    let merged := mergeMembers rest
    if merged.any fun member => member.1 == name then merged else (name, value) :: merged

mutual

/-- Every object cut down to the last of the members that share a name, whose writing no longer
counts. -/
def merged : Json → Json
  | .arr items => .arr (mergedItems items)
  | .obj members _ => .obj (mergeMembers (mergedMembers members))
  | value => value

def mergedItems : List Json → List Json
  | [] => []
  | item :: rest => merged item :: mergedItems rest

def mergedMembers : List (String × Json) → List (String × Json)
  | [] => []
  | (name, value) :: rest => (name, merged value) :: mergedMembers rest

end

mutual

/-- Whether no part of a value is flawed. -/
def isSound : Json → Bool
  | .arr items => areSound items
  | .obj members _ => areSoundMembers members
  | .flawed => false
  | _ => true

def areSound : List Json → Bool
  | [] => true
  | item :: rest => isSound item && areSound rest

def areSoundMembers : List (String × Json) → Bool
  | [] => true
  | (_, value) :: rest => isSound value && areSoundMembers rest

end

/-- The last member of an object with this name. -/
def member? (name : String) : Json → Option Json
  | .obj members _ => (members.reverse.find? fun member => member.1 == name).map Prod.snd
  | _ => none

end Json

end SegmentPlacement
