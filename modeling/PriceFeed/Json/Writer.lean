import PriceFeed.Binary64.Shortest
import PriceFeed.Json.Value

/-!
# Writing JSON

Values are written without blanks. A string escapes quotes, backslashes and control characters,
five of them by a letter and the others by four lower-case hexadecimal digits. A double is written
by its shortest digits, with all its places from 10^-5 up to below 10^16 and as a power of ten
elsewhere, and always so that it is not read as an integer.

    an array is written as its items with commas between them                (Value.render_array)
-/

namespace PriceFeed.Json

/-! ## Strings -/

/-- How a character stands in a string literal. -/
def escape (c : Char) : List Char :=
  if c = '"' then ['\\', '"']
  else if c = '\\' then ['\\', '\\']
  else if c = '\x08' then ['\\', 'b']
  else if c = '\x0c' then ['\\', 'f']
  else if c = '\n' then ['\\', 'n']
  else if c = '\r' then ['\\', 'r']
  else if c = '\t' then ['\\', 't']
  else if c < ' ' then
    ['\\', 'u', '0', '0', Nat.digitChar (c.toNat / 16), Nat.digitChar (c.toNat % 16)]
  else [c]

def writeString (s : String) : List Char := '"' :: s.toList.flatMap escape ++ ['"']

/-! ## Numbers -/

def writeNat (n : Nat) : List Char := Nat.toDigits 10 n

def writeInt (n : Int) : List Char :=
  if n < 0 then '-' :: writeNat n.natAbs else writeNat n.natAbs

/-- The digits of a positive double with a point or a power of ten. -/
def writeScientific (s : Binary64.Scientific) : List Char :=
  if s.exponent < -5 ∨ 15 < s.exponent then
    s.digits.take 1 ++ (if s.digits.length ≤ 1 then [] else '.' :: s.digits.drop 1)
      ++ 'e' :: (if s.exponent < 0 then '-' else '+') :: writeNat s.exponent.natAbs
  else if s.exponent < 0 then
    '0' :: '.' :: List.replicate (s.exponent.natAbs - 1) '0' ++ s.digits
  else
    let whole := s.exponent.toNat + 1
    s.digits.take whole ++ List.replicate (whole - s.digits.length) '0' ++ '.'
      :: (if s.digits.length ≤ whole then ['0'] else s.digits.drop whole)

def writeDouble (x : Binary64) : List Char :=
  (if x.negative then ['-'] else [])
    ++ (if x.mantissa = 0 then ['0', '.', '0'] else writeScientific x.shortest)

/-! ## Values -/

mutual

def Value.write : Value → List Char
  | .null => ['n', 'u', 'l', 'l']
  | .bool true => ['t', 'r', 'u', 'e']
  | .bool false => ['f', 'a', 'l', 's', 'e']
  | .int n => writeInt n
  | .double x => writeDouble x
  | .string s => writeString s
  | .array [] => ['[', ']']
  | .array (v :: rest) => '[' :: v.write ++ writeItems rest
  | .object [] => ['{', '}']
  | .object ((name, v) :: rest) => '{' :: writeString name ++ ':' :: v.write ++ writeMembers rest

/-- The items after the first, and the closing bracket. -/
def writeItems : List Value → List Char
  | [] => [']']
  | v :: rest => ',' :: v.write ++ writeItems rest

/-- The members after the first, and the closing brace. -/
def writeMembers : List (String × Value) → List Char
  | [] => ['}']
  | (name, v) :: rest => ',' :: writeString name ++ ':' :: v.write ++ writeMembers rest

end

/-- The text of a value. -/
def Value.render (v : Value) : String := String.ofList v.write

/-! ## Lemmas -/

theorem Value.toList_render (v : Value) : v.render.toList = v.write := String.toList_ofList

/-- The first item and those after it are written with commas between them. -/
theorem write_append_writeItems (v : Value) (rest : List Value) :
    v.write ++ writeItems rest = List.intercalate [','] ((v :: rest).map Value.write) ++ [']'] := by
  induction rest generalizing v with
  | nil => simp [writeItems]
  | cons next rest ih =>
    have hrest := ih next
    rw [List.map_cons] at hrest
    rw [writeItems, List.map_cons, List.map_cons, List.intercalate_cons_cons, List.cons_append, hrest]
    simp

/-- An array is written with its items in order. -/
theorem Value.render_array (items : List Value) :
    (Value.array items).render = "[" ++ ",".intercalate (items.map Value.render) ++ "]" := by
  have hitems : (items.map Value.render).map String.toList = items.map Value.write := by
    simp [Value.toList_render]
  rw [← String.toList_inj]
  simp only [String.toList_append, Value.toList_render, String.toList_intercalate, hitems]
  cases items with
  | nil => decide
  | cons v rest =>
    rw [Value.write, List.cons_append, write_append_writeItems]
    rfl

end PriceFeed.Json
