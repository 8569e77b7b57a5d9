/-!
# UTF-8

Bytes are decoded one character at a time. The lead byte tells how many bytes follow and which
values the first of them may have, so that no character has two forms and surrogates have none.
Where the bytes at hand start no character, the longest run that could have started one is replaced
by U+FFFD.
-/

namespace PriceFeed.Text

/-- How many bytes follow a lead byte, and the range of the first of them. -/
def following? (lead : Nat) : Option (Nat × Nat × Nat) :=
  if 0xC2 ≤ lead ∧ lead ≤ 0xDF then some (1, 0x80, 0xBF)
  else if lead = 0xE0 then some (2, 0xA0, 0xBF)
  else if lead = 0xED then some (2, 0x80, 0x9F)
  else if 0xE1 ≤ lead ∧ lead ≤ 0xEF then some (2, 0x80, 0xBF)
  else if lead = 0xF0 then some (3, 0x90, 0xBF)
  else if 0xF1 ≤ lead ∧ lead ≤ 0xF3 then some (3, 0x80, 0xBF)
  else if lead = 0xF4 then some (3, 0x80, 0x8F)
  else none

/-- Reads `count` bytes that continue a character, the first between `low` and `high`; returns the
bits so far, how many bytes were missing and the bytes after those read. -/
def continueChar (bits low high : Nat) : Nat → List UInt8 → Nat × Nat × List UInt8
  | 0, bytes => (bits, 0, bytes)
  | count + 1, [] => (bits, count + 1, [])
  | count + 1, b :: rest =>
    if low ≤ b.toNat ∧ b.toNat ≤ high then
      continueChar (bits * 64 + b.toNat % 64) 0x80 0xBF count rest
    else (bits, count + 1, b :: rest)

/-- Reads the character or the malformed run that the bytes start with. -/
def decodeFirst (lead : UInt8) (rest : List UInt8) : Option Char × List UInt8 :=
  let n := lead.toNat
  if n < 0x80 then (some (Char.ofNat n), rest)
  else
    match following? n with
    | none => (none, rest)
    | some (count, low, high) =>
      match continueChar (n % (64 >>> count)) low high count rest with
      | (bits, 0, rest) => (some (Char.ofNat bits), rest)
      | (_, _, rest) => (none, rest)

theorem length_continueChar_le (bits low high count : Nat) (bytes : List UInt8) :
    (continueChar bits low high count bytes).2.2.length ≤ bytes.length := by
  induction count generalizing bits low high bytes with
  | zero => simp [continueChar]
  | succ count ih =>
    cases bytes with
    | nil => simp [continueChar]
    | cons b rest =>
      simp only [continueChar]
      split
      · exact Nat.le_succ_of_le (ih ..)
      · simp

theorem length_decodeFirst_le (lead : UInt8) (rest : List UInt8) :
    (decodeFirst lead rest).2.length ≤ rest.length := by
  unfold decodeFirst
  simp only
  split
  · simp
  · split
    · simp
    · next count low high _ =>
      have := length_continueChar_le (lead.toNat % (64 >>> count)) low high count rest
      split <;> simp_all

/-- The characters of the bytes, with `none` for each malformed run. -/
def decodeAll : List UInt8 → List (Option Char)
  | [] => []
  | lead :: rest => (decodeFirst lead rest).1 :: decodeAll (decodeFirst lead rest).2
termination_by bytes => bytes.length
decreasing_by
  have := length_decodeFirst_le lead rest
  simp only [List.length_cons]; omega

/-- The text of the bytes, if they are well formed. -/
def decode? (bytes : List UInt8) : Option String :=
  ((decodeAll bytes).mapM id).map String.ofList

/-- The text of the bytes, with U+FFFD for each malformed run. -/
def decodeLossy (bytes : List UInt8) : String :=
  String.ofList ((decodeAll bytes).map (·.getD '\uFFFD'))

end PriceFeed.Text
