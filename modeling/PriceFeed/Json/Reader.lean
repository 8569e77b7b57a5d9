import PriceFeed.Json.Document

/-!
# Reading JSON

The reader accepts the grammar of RFC 8259 and nothing else: blanks are space, tab, line feed and
carriage return, strings hold no raw control characters, numbers have no leading zeros and at least
one digit on each side of a point. Each function returns what it read and the characters after it.
-/

namespace PriceFeed.Json

def isBlank (c : Char) : Bool := c == ' ' || c == '\t' || c == '\n' || c == '\r'

def skipBlank (cs : List Char) : List Char := cs.dropWhile isBlank

/-! ## Strings -/

def hexDigit? (c : Char) : Option Nat :=
  if '0' ≤ c ∧ c ≤ '9' then some (c.toNat - '0'.toNat)
  else if 'a' ≤ c ∧ c ≤ 'f' then some (c.toNat - 'a'.toNat + 10)
  else if 'A' ≤ c ∧ c ≤ 'F' then some (c.toNat - 'A'.toNat + 10)
  else none

/-- The letter of an escape by four hexadecimal digits. -/
def unitLetter? (a b c d : Char) : Option Letter := do
  let unit := (← hexDigit? a) * 0x1000 + (← hexDigit? b) * 0x100 + (← hexDigit? c) * 0x10
    + (← hexDigit? d)
  return if 0xD800 ≤ unit ∧ unit < 0xE000 then .half unit else .char (Char.ofNat unit)

/-- The character of a one-letter escape. -/
def unescape? : Char → Option Char
  | '"' => some '"'
  | '\\' => some '\\'
  | '/' => some '/'
  | 'b' => some '\x08'
  | 'f' => some '\x0c'
  | 'n' => some '\n'
  | 'r' => some '\r'
  | 't' => some '\t'
  | _ => none

/-- Reads the rest of a string literal, after its opening quote. -/
def readLetters : List Char → Option (List Letter × List Char)
  | [] => none
  | '"' :: rest => some ([], rest)
  | '\\' :: 'u' :: a :: b :: c :: d :: rest =>
    match unitLetter? a b c d, readLetters rest with
    | some l, some (ls, rest) => some (l :: ls, rest)
    | _, _ => none
  | '\\' :: e :: rest =>
    match unescape? e, readLetters rest with
    | some c, some (ls, rest) => some (.char c :: ls, rest)
    | _, _ => none
  | c :: rest =>
    if c < ' ' then none
    else
      match readLetters rest with
      | some (ls, rest) => some (.char c :: ls, rest)
      | none => none

/-! ## Numbers -/

/-- Reads digits, at least one. -/
def readDigits (cs : List Char) : Option (List Char × List Char) :=
  match cs.takeWhile Char.isDigit with
  | [] => none
  | ds => some (ds, cs.dropWhile Char.isDigit)

/-- Reads a whole part: a zero on its own, or digits that start with another. -/
def readWhole (cs : List Char) : Option (Nat × List Char) :=
  match readDigits cs with
  | some ('0' :: _ :: _, _) => none
  | some (ds, rest) => some (Nat.ofDigitChars 10 ds 0, rest)
  | none => none

/-- Reads the digits after a point, if there is a point. -/
def readFraction : List Char → Option (List Char × List Char)
  | '.' :: rest => readDigits rest
  | rest => some ([], rest)

/-- Reads the power of ten after its letter. -/
def readPower (cs : List Char) : Option (Option Int × List Char) :=
  let (negative, cs) :=
    match cs with
    | '+' :: rest => (false, rest)
    | '-' :: rest => (true, rest)
    | rest => (false, rest)
  (readDigits cs).map fun (ds, rest) =>
    let n : Nat := Nat.ofDigitChars 10 ds 0
    (some (if negative then -n else n), rest)

/-- Reads a power of ten, if there is one. -/
def readExponent : List Char → Option (Option Int × List Char)
  | 'e' :: rest => readPower rest
  | 'E' :: rest => readPower rest
  | rest => some (none, rest)

def readNumeral (cs : List Char) : Option (Numeral × List Char) := do
  let (negative, cs) :=
    match cs with
    | '-' :: rest => (true, rest)
    | rest => (false, rest)
  let (whole, cs) ← readWhole cs
  let (fraction, cs) ← readFraction cs
  let (exponent, cs) ← readExponent cs
  return ({ negative, whole, fraction, exponent }, cs)

/-! ## Documents -/

mutual

/-- Reads a document that starts with the first character. -/
def readDocument : Nat → List Char → Option (Document × List Char)
  | 0, _ => none
  | fuel + 1, cs =>
    match cs with
    | 'n' :: 'u' :: 'l' :: 'l' :: rest => some (.null, rest)
    | 't' :: 'r' :: 'u' :: 'e' :: rest => some (.bool true, rest)
    | 'f' :: 'a' :: 'l' :: 's' :: 'e' :: rest => some (.bool false, rest)
    | '"' :: rest => (readLetters rest).map fun (s, rest) => (.string s, rest)
    | '[' :: rest =>
      match skipBlank rest with
      | ']' :: rest => some (.array [], rest)
      | rest => (readItems fuel rest).map fun (items, rest) => (.array items, rest)
    | '{' :: rest =>
      match skipBlank rest with
      | '}' :: rest => some (.object [], rest)
      | rest => (readMembers fuel rest).map fun (members, rest) => (.object members, rest)
    | cs => (readNumeral cs).map fun (n, rest) => (.number n, rest)

/-- Reads the items of an array from the start of one to the closing bracket. -/
def readItems : Nat → List Char → Option (List Document × List Char)
  | 0, _ => none
  | fuel + 1, cs =>
    match readDocument fuel cs with
    | none => none
    | some (d, rest) =>
      match skipBlank rest with
      | ',' :: rest => (readItems fuel (skipBlank rest)).map fun (ds, rest) => (d :: ds, rest)
      | ']' :: rest => some ([d], rest)
      | _ => none

/-- Reads the members of an object from the start of a name to the closing brace. -/
def readMembers : Nat → List Char → Option (List (List Letter × Document) × List Char)
  | 0, _ => none
  | fuel + 1, cs =>
    match cs with
    | '"' :: rest =>
      match readLetters rest with
      | none => none
      | some (name, rest) =>
        match skipBlank rest with
        | ':' :: rest =>
          match readDocument fuel (skipBlank rest) with
          | none => none
          | some (d, rest) =>
            match skipBlank rest with
            | ',' :: rest =>
              (readMembers fuel (skipBlank rest)).map fun (ms, rest) => ((name, d) :: ms, rest)
            | '}' :: rest => some ([(name, d)], rest)
            | _ => none
        | _ => none
    | _ => none

end

/-- Reads a whole text. An array, its first item and every further item take one unit of fuel each
and at least one character for every two of them. -/
def Document.parse? (cs : List Char) : Option Document :=
  match readDocument (2 * cs.length + 1) (skipBlank cs) with
  | some (d, rest) => if (skipBlank rest).isEmpty then some d else none
  | none => none

end PriceFeed.Json
