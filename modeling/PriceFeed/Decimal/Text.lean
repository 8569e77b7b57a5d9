import PriceFeed.Decimal

/-!
# Decimals as text

Decimals are read with the scale as written and written without zeros at the end of the places,
without an exponent and without a sign on zero.
-/

namespace PriceFeed.Decimal

/-- Reads an optional minus sign, digits, and optional places after a point. -/
def ofText? (text : String) : Option Decimal :=
  let (negative, body) :=
    match text.toList with
    | '-' :: rest => (true, rest)
    | rest => (false, rest)
  let whole := body.takeWhile Char.isDigit
  let places? : Option (List Char) :=
    match body.dropWhile Char.isDigit with
    | [] => some []
    | '.' :: places => if places.all Char.isDigit then some places else none
    | _ => none
  places?.bind fun places =>
    if whole.isEmpty && places.isEmpty then none
    else
      let magnitude : Nat := Nat.ofDigitChars 10 (whole ++ places) 0
      some ⟨if negative then -magnitude else magnitude, places.length⟩

/-- The digits of `d`, with at least one before the point. -/
def toText (d : Decimal) : String :=
  let n := d.normalize
  let digits := Nat.toDigits 10 n.coefficient.natAbs
  let padded := List.replicate (n.scale + 1 - digits.length) '0' ++ digits
  let whole := padded.take (padded.length - n.scale)
  let places := padded.drop (padded.length - n.scale)
  String.ofList <|
    (if n.coefficient < 0 then ['-'] else []) ++ whole
      ++ (if places.isEmpty then [] else '.' :: places)

end PriceFeed.Decimal
