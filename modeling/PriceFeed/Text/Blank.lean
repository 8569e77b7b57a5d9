/-!
# Blank text

The characters of the Unicode property White_Space. Zero-width characters and the byte order mark
are not among them.
-/

namespace PriceFeed.Text

/-- The code points of White_Space, as ascending ranges with both ends. -/
def blankRanges : List (Nat × Nat) :=
  [(0x9, 0xd), (0x20, 0x20), (0x85, 0x85), (0xa0, 0xa0), (0x1680, 0x1680), (0x2000, 0x200a),
    (0x2028, 0x2029), (0x202f, 0x202f), (0x205f, 0x205f), (0x3000, 0x3000)]

def isBlank (c : Char) : Bool := blankRanges.any fun r => r.1 ≤ c.toNat && c.toNat ≤ r.2

/-- Nothing but blanks. -/
def allBlank (s : String) : Bool := s.toList.all isBlank

end PriceFeed.Text
