/-!
# Integer ranges

Prices are signed, confidences, ids and sequence numbers unsigned 64-bit integers; exponents, ports
and publisher counts have narrower ranges of the same two kinds. All arithmetic of the library is on
`Int` and `Nat`, and a range says which results a wire field can hold.
-/

namespace PriceFeed

/-- The integers from `low` to `high`, both ends included. -/
structure IntRange where
  low : Int
  high : Int

namespace IntRange

def signed64 : IntRange := ⟨-9223372036854775808, 9223372036854775807⟩

def unsigned64 : IntRange := ⟨0, 18446744073709551615⟩

def signed32 : IntRange := ⟨-2147483648, 2147483647⟩

def unsigned16 : IntRange := ⟨0, 65535⟩

def unsigned8 : IntRange := ⟨0, 255⟩

instance : Membership Int IntRange := ⟨fun r n => r.low ≤ n ∧ n ≤ r.high⟩

instance (n : Int) (r : IntRange) : Decidable (n ∈ r) :=
  inferInstanceAs (Decidable (r.low ≤ n ∧ n ≤ r.high))

/-- The member of the range nearest to `n`. -/
def clamp (r : IntRange) (n : Int) : Int := max r.low (min n r.high)

theorem mem_signed64 {n : Int} :
    n ∈ signed64 ↔ -9223372036854775808 ≤ n ∧ n ≤ 9223372036854775807 := Iff.rfl

theorem mem_unsigned64 {n : Int} : n ∈ unsigned64 ↔ 0 ≤ n ∧ n ≤ 18446744073709551615 := Iff.rfl

theorem clamp_eq_self {r : IntRange} {n : Int} (h : n ∈ r) : r.clamp n = n := by
  obtain ⟨hl, hh⟩ := h
  unfold clamp
  omega

end IntRange

end PriceFeed
