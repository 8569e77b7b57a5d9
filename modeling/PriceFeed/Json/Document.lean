import PriceFeed.Keyed

/-!
# JSON as written

A document is the tree of a JSON text before its leaves are interpreted: numbers keep the digits
they were written with, and strings keep escapes that name half of a surrogate pair. Reading a
document checks the grammar only. What a string or a number means, whether it has a meaning, and
which of two members with one name counts is decided by whoever uses that part of the tree.
-/

namespace PriceFeed.Json

/-- One character of a string literal, or an escape for half of a surrogate pair. -/
inductive Letter where
  | char (c : Char)
  | half (unit : Nat)
  deriving DecidableEq, Repr

/-- A number as written: `fraction` holds the digits after the point, none if there is no point. -/
structure Numeral where
  negative : Bool
  whole : Nat
  fraction : List Char
  exponent : Option Int
  deriving DecidableEq, Repr

/-- The tree of a JSON text. -/
inductive Document where
  | null
  | bool (b : Bool)
  | number (n : Numeral)
  | string (s : List Letter)
  | array (items : List Document)
  | object (members : List (List Letter × Document))

/-- The text of a literal; a half is good only as the first of a pair. -/
def Letter.chars? : List Letter → Option (List Char)
  | [] => some []
  | .char c :: rest => (chars? rest).map (c :: ·)
  | .half hi :: .half lo :: rest =>
    if 0xD800 ≤ hi ∧ hi < 0xDC00 ∧ 0xDC00 ≤ lo ∧ lo < 0xE000 then
      (chars? rest).map (Char.ofNat (0x10000 + (hi - 0xD800) * 0x400 + (lo - 0xDC00)) :: ·)
    else none
  | .half _ :: _ => none

/-- The text of a literal, if every surrogate has its partner. -/
def text? (s : List Letter) : Option String := (Letter.chars? s).map String.ofList

mutual

/-- How many arrays and objects enclose one another. -/
def Document.depth : Document → Nat
  | .array items => depthOfItems items + 1
  | .object members => depthOfMembers members + 1
  | _ => 0

def depthOfItems : List Document → Nat
  | [] => 0
  | d :: rest => max d.depth (depthOfItems rest)

def depthOfMembers : List (List Letter × Document) → Nat
  | [] => 0
  | (_, d) :: rest => max d.depth (depthOfMembers rest)

end

end PriceFeed.Json
