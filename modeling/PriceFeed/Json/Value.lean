import PriceFeed.Binary64
import PriceFeed.Json.Reader

/-!
# JSON values

A value is what a document means: text without escapes, integers apart from other numbers, and
objects as tables in which of two members with one name the later counts. An integer is written
without point and exponent and fits 64 bits, signed if it has a minus sign; every other number is a
binary floating-point number, and minus zero is one of them. Values nest at most 127 deep.
-/

namespace PriceFeed.Json

/-- The meaning of a JSON text. -/
inductive Value where
  | null
  | bool (b : Bool)
  | int (n : Int)
  | double (x : Binary64)
  | string (s : String)
  | array (items : List Value)
  | object (members : List (String × Value))
  deriving Inhabited, Repr

/-- The integer a number is written as; minus zero and what 64 bits cannot hold are none. -/
def Numeral.integer? (n : Numeral) : Option Int :=
  if n.fraction ≠ [] ∨ n.exponent ≠ none then none
  else if n.negative then
    if n.whole ≠ 0 ∧ -(n.whole : Int) ∈ IntRange.signed64 then some (-n.whole) else none
  else if (n.whole : Int) ∈ IntRange.unsigned64 then some n.whole
  else none

/-- The value of a number; there is none beyond the largest double. -/
def Numeral.value? (n : Numeral) : Option Value :=
  match n.integer? with
  | some i => some (.int i)
  | none =>
    (Binary64.ofDecimal? n.negative n.whole (n.fraction.map fun c => c.toNat - '0'.toNat)
      (n.exponent.getD 0)).map .double

mutual

/-- The value of a document, if all its strings and numbers have one. -/
def Document.value? : Document → Option Value
  | .null => some .null
  | .bool b => some (.bool b)
  | .number n => n.value?
  | .string s => (text? s).map .string
  | .array items => (itemValues? items).map .array
  | .object members => (memberValues? members).map fun ms => .object (Keyed.ofList ms)

def itemValues? : List Document → Option (List Value)
  | [] => some []
  | d :: rest =>
    match d.value?, itemValues? rest with
    | some v, some vs => some (v :: vs)
    | _, _ => none

def memberValues? : List (List Letter × Document) → Option (List (String × Value))
  | [] => some []
  | (name, d) :: rest =>
    match text? name, d.value?, memberValues? rest with
    | some name, some v, some vs => some ((name, v) :: vs)
    | _, _, _ => none

end

/-- The deepest nesting that is read. -/
def maxDepth : Nat := 127

/-- The value of a text. -/
def Value.parse? (text : String) : Option Value :=
  (Document.parse? text.toList).bind fun d => if d.depth ≤ maxDepth then d.value? else none

namespace Value

/-- The member of an object with a name. -/
def get? (v : Value) (name : String) : Option Value :=
  match v with
  | .object members => Keyed.get? name members
  | _ => none

def string? : Value → Option String
  | .string s => some s
  | _ => none

def int? : Value → Option Int
  | .int n => some n
  | _ => none

/-- An integer of a range. -/
def intIn? (range : IntRange) : Value → Option Int
  | .int n => if n ∈ range then some n else none
  | _ => none

end Value

end PriceFeed.Json
