import Mathlib.Data.List.Forall2
import PriceFeed.Json.Writer
import PriceFeed.Proofs.Keyed

/-!
# Reading what is written

What is written for a value is read as its document, and nothing after it is read with it. Doubles
are left out: they are written by their shortest digits, which is no single rule.

    readLetters (s.flatMap escape ++ '"' :: rest) = some (s, rest)  (readLetters_flatMap_escape)
    readNumeral (writeInt n ++ rest) = some (n, rest)                     (readNumeral_writeInt)
    v.Plain → Document.parse? v.render.toList = some v.document      (Value.Plain.parse?_render)
    v.Exact → v.document.value? = some v                            (Value.Exact.value?_document)
    v.ReadAs w → Value.parse? v.render = some w                   (Value.ReadAs.parse?_render)
-/

namespace PriceFeed.Json

/-! ## Strings -/

/-- How a character stands in a string literal: as one that a letter names, as a control character
by its number, or as itself. -/
theorem escape_cases (c : Char) :
    (∃ e, e ≠ 'u' ∧ unescape? e = some c ∧ escape c = ['\\', e]) ∨
      (c < ' ' ∧ escape c =
        ['\\', 'u', '0', '0', Nat.digitChar (c.toNat / 16), Nat.digitChar (c.toNat % 16)]) ∨
      c ≠ '"' ∧ c ≠ '\\' ∧ ¬ c < ' ' ∧ escape c = [c] := by
  unfold escape
  iterate 7
    split
    · next h => exact .inl ⟨_, by decide, by rw [h]; rfl, rfl⟩
  split
  · next h => exact .inr (.inl ⟨h, rfl⟩)
  · next hquote hslash _ _ _ _ _ hcontrol => exact .inr (.inr ⟨hquote, hslash, hcontrol, rfl⟩)

theorem unitLetter?_control : ∀ n < 32,
    unitLetter? '0' '0' (Nat.digitChar (n / 16)) (Nat.digitChar (n % 16)) =
      some (.char (Char.ofNat n)) := by
  decide

/-- An escaped character is read as itself. -/
theorem readLetters_escape (c : Char) (cs : List Char) :
    readLetters (escape c ++ cs) =
      (readLetters cs).map fun (letters, rest) => (.char c :: letters, rest) := by
  rcases escape_cases c with ⟨e, hu, hunescape, he⟩ | ⟨hcontrol, he⟩ |
    ⟨hquote, hslash, hprintable, he⟩
  · rw [he]
    simp only [List.cons_append, List.nil_append]
    rw [readLetters, hunescape]
    · cases readLetters cs <;> rfl
    · intros
      contradiction
  · have hunit := unitLetter?_control c.toNat hcontrol
    rw [Char.ofNat_toNat] at hunit
    rw [he]
    simp only [List.cons_append, List.nil_append]
    rw [readLetters, hunit]
    cases readLetters cs <;> rfl
  · rw [he]
    simp only [List.cons_append, List.nil_append]
    rw [readLetters, if_neg hprintable]
    · cases readLetters cs <;> rfl
    all_goals
      intros
      contradiction

/-- The text between the quotes is read up to the closing one. -/
theorem readLetters_flatMap_escape (s rest : List Char) :
    readLetters (s.flatMap escape ++ '"' :: rest) = some (s.map .char, rest) := by
  induction s with
  | nil => rfl
  | cons c s ih =>
    rw [List.flatMap_cons, List.append_assoc, readLetters_escape, ih]
    rfl

theorem text?_map_char (s : String) : text? (s.toList.map .char) = some s := by
  have hchars : ∀ l : List Char, Letter.chars? (l.map .char) = some l := by
    intro l
    induction l with
    | nil => rfl
    | cons c l ih => rw [List.map_cons, Letter.chars?, ih]; rfl
  rw [text?, hchars, Option.map_some, String.ofList_toList]

/-! ## Numbers -/

/-- A number is not read on: nothing follows it, or what stands between and after values. -/
def Ends (rest : List Char) : Prop := ∀ c ∈ rest.head?, c = ',' ∨ c = ']' ∨ c = '}'

theorem Ends.not_isDigit {rest : List Char} (h : Ends rest) :
    ∀ c ∈ rest.head?, c.isDigit = false := by
  intro c hc
  rcases h c hc with rfl | rfl | rfl <;> rfl

theorem readDigits_append {ds rest : List Char} (hne : ds ≠ [])
    (hds : ∀ c ∈ ds, c.isDigit = true) (hrest : ∀ c ∈ rest.head?, c.isDigit = false) :
    readDigits (ds ++ rest) = some (ds, rest) := by
  have htake : rest.takeWhile Char.isDigit = [] ∧ rest.dropWhile Char.isDigit = rest := by
    cases rest with
    | nil => exact ⟨rfl, rfl⟩
    | cons c rest =>
      have hc := hrest c rfl
      simp [hc]
  unfold readDigits
  rw [List.takeWhile_append_of_pos hds, List.dropWhile_append_of_pos hds, htake.1, htake.2,
    List.append_nil]
  cases ds with
  | nil => exact absurd rfl hne
  | cons d ds => rfl

/-- A number has no leading zero. -/
theorem head?_toDigits {n : Nat} (hn : n ≠ 0) : (Nat.toDigits 10 n).head? ≠ some '0' := by
  induction n using Nat.strongRecOn with
  | ind n ih =>
    by_cases hlt : n < 10
    · rw [Nat.toDigits_of_lt_base hlt]
      have hall : ∀ n < 10, n ≠ 0 → [Nat.digitChar n].head? ≠ some '0' := by decide
      exact hall n hlt hn
    · rw [Nat.toDigits_of_base_le (by decide) (Nat.not_lt.1 hlt),
        List.head?_append]
      cases hhead : (Nat.toDigits 10 (n / 10)).head? with
      | none => exact absurd (List.head?_eq_none_iff.1 hhead) Nat.toDigits_ne_nil
      | some d =>
        rw [Option.some_or, ← hhead]
        exact ih (n / 10) (by omega) (by omega)

theorem exists_writeNat (n : Nat) : ∃ d ds, writeNat n = d :: ds ∧ d.isDigit = true := by
  obtain ⟨d, ds, he⟩ := List.exists_cons_of_ne_nil (Nat.toDigits_ne_nil (n := n) (b := 10))
  exact ⟨d, ds, he, Nat.isDigit_of_mem_toDigits (by decide) (by decide) (he ▸ List.mem_cons_self)⟩

theorem readWhole_writeNat (n : Nat) {rest : List Char} (hrest : Ends rest) :
    readWhole (writeNat n ++ rest) = some (n, rest) := by
  unfold readWhole writeNat
  rw [readDigits_append Nat.toDigits_ne_nil
    (fun c hc => Nat.isDigit_of_mem_toDigits (by decide) (by decide) hc) hrest.not_isDigit]
  by_cases hn : n = 0
  · subst hn
    rfl
  · have hhead := head?_toDigits hn
    have hvalue := Nat.ofDigitChars_ten_toDigits (n := n)
    split
    · next heq =>
      rw [Option.some.injEq, Prod.mk.injEq] at heq
      rw [heq.1] at hhead
      exact absurd rfl hhead
    · next heq =>
      rw [Option.some.injEq, Prod.mk.injEq] at heq
      rw [← heq.1, ← heq.2, hvalue]
    · next heq => cases heq

/-- An integer as it is written. -/
def Numeral.ofInt (n : Int) : Numeral := ⟨decide (n < 0), n.natAbs, [], none⟩

theorem readNumeral_writeInt (n : Int) {rest : List Char} (hrest : Ends rest) :
    readNumeral (writeInt n ++ rest) = some (.ofInt n, rest) := by
  have hwhole := readWhole_writeNat n.natAbs hrest
  have hfraction : readFraction rest = some ([], rest) := by
    rw [readFraction]
    rintro rest rfl
    rcases hrest '.' rfl with h | h | h <;> cases h
  have hexponent : readExponent rest = some (none, rest) := by
    rw [readExponent]
    · rintro rest rfl
      rcases hrest 'e' rfl with h | h | h <;> cases h
    · rintro rest rfl
      rcases hrest 'E' rfl with h | h | h <;> cases h
  unfold writeInt
  split
  · next hneg =>
    have hof : Numeral.ofInt n = ⟨true, n.natAbs, [], none⟩ := by
      rw [Numeral.ofInt, decide_eq_true hneg]
    rw [List.cons_append, readNumeral, hwhole, hof]
    simp only [Option.bind_eq_bind, Option.bind_some, hfraction, hexponent]
    rfl
  · next hpos =>
    have hof : Numeral.ofInt n = ⟨false, n.natAbs, [], none⟩ := by
      rw [Numeral.ofInt, decide_eq_false hpos]
    rw [readNumeral, hwhole, hof]
    · simp only [Option.bind_eq_bind, Option.bind_some, hfraction, hexponent]
      rfl
    · obtain ⟨d, ds, he, hd⟩ := exists_writeNat n.natAbs
      rw [he]
      rintro _ hcons
      cases hcons
      cases hd

/-! ## Documents -/

/-- A value without doubles. -/
inductive Value.Plain : Value → Prop
  | null : Plain .null
  | bool (b : Bool) : Plain (.bool b)
  | int (n : Int) : Plain (.int n)
  | string (s : String) : Plain (.string s)
  | array {items : List Value} (h : ∀ v ∈ items, Plain v) : Plain (.array items)
  | object {members : List (String × Value)} (h : ∀ m ∈ members, Plain m.2) :
    Plain (.object members)

mutual

/-- The document that a value without doubles is written as. -/
def Value.document : Value → Document
  | .null => .null
  | .bool b => .bool b
  | .int n => .number (.ofInt n)
  -- left out
  | .double _ => .null
  | .string s => .string (s.toList.map .char)
  | .array items => .array (itemDocuments items)
  | .object members => .object (memberDocuments members)

def itemDocuments : List Value → List Document
  | [] => []
  | v :: rest => v.document :: itemDocuments rest

def memberDocuments : List (String × Value) → List (List Letter × Document)
  | [] => []
  | (name, v) :: rest => (name.toList.map .char, v.document) :: memberDocuments rest

end

theorem itemDocuments_eq (items : List Value) : itemDocuments items = items.map Value.document := by
  induction items with
  | nil => rfl
  | cons v rest ih => rw [itemDocuments, ih, List.map_cons]

theorem memberDocuments_eq (members : List (String × Value)) :
    memberDocuments members = members.map fun (name, v) => (name.toList.map .char, v.document) := by
  induction members with
  | nil => rfl
  | cons m rest ih => rw [memberDocuments, ih, List.map_cons]

theorem skipBlank_cons {c : Char} (hc : isBlank c = false) (rest : List Char) :
    skipBlank (c :: rest) = c :: rest :=
  List.dropWhile_cons_of_neg (by simp [hc])

/-- A value starts with no blank, and not with what closes an array. -/
theorem Value.Plain.exists_write {v : Value} (hv : v.Plain) :
    ∃ c rest, v.write = c :: rest ∧ isBlank c = false ∧ c ≠ ']' := by
  have hdigit : ∀ d : Char, d.isDigit = true → isBlank d = false ∧ d ≠ ']' := by
    intro d hd
    refine ⟨?_, by rintro rfl; cases hd⟩
    simp only [isBlank, Bool.or_eq_false_iff, beq_eq_false_iff_ne]
    refine ⟨⟨⟨?_, ?_⟩, ?_⟩, ?_⟩ <;> (rintro rfl; cases hd)
  cases hv with
  | null => exact ⟨_, _, rfl, rfl, by decide⟩
  | bool b => cases b <;> exact ⟨_, _, rfl, rfl, by decide⟩
  | int n =>
    rw [Value.write, writeInt]
    split
    · exact ⟨_, _, rfl, rfl, by decide⟩
    · obtain ⟨d, ds, he, hd⟩ := exists_writeNat n.natAbs
      exact ⟨d, ds, he, hdigit d hd⟩
  | string s => exact ⟨_, _, rfl, rfl, by decide⟩
  | @array items h => cases items <;> exact ⟨_, _, rfl, rfl, by decide⟩
  | @object members h => cases members <;> exact ⟨_, _, rfl, rfl, by decide⟩

/-- What does not start like another document is read as a number. -/
theorem readDocument_numeral (fuel : Nat) {c : Char} (hc : c = '-' ∨ c.isDigit = true)
    (rest : List Char) :
    readDocument (fuel + 1) (c :: rest) =
      (readNumeral (c :: rest)).map fun (n, rest) => (.number n, rest) := by
  have hne : ∀ d : Char, (d == '-' || d.isDigit) = false → c ≠ d := by
    rintro d hd rfl
    rcases hc with rfl | hc
    · cases hd
    · rw [hc, Bool.or_true] at hd
      cases hd
  rw [readDocument]
  all_goals
    intro _ he
    cases he
    exact absurd rfl (hne _ rfl)

theorem Value.Plain.skipBlank_write {v : Value} (hv : v.Plain) (rest : List Char) :
    skipBlank (v.write ++ rest) = v.write ++ rest := by
  obtain ⟨c, cs, he, hc, -⟩ := hv.exists_write
  rw [he, List.cons_append, skipBlank_cons hc]

/-- What is written for a value is read as its document, before whatever ends a number. Each level
of nesting, and each item, takes a unit of fuel and has at least a character for it. -/
def ReadsBack (v : Value) : Prop :=
  ∀ fuel rest, Ends rest → 2 * v.write.length ≤ fuel →
    readDocument fuel (v.write ++ rest) = some (v.document, rest)

theorem ends_writeItems (items : List Value) (rest : List Char) :
    Ends (writeItems items ++ rest) := by
  intro c hc
  cases items with
  | nil =>
    cases hc
    exact .inr (.inl rfl)
  | cons v items =>
    cases hc
    exact .inl rfl

theorem ends_writeMembers (members : List (String × Value)) (rest : List Char) :
    Ends (writeMembers members ++ rest) := by
  intro c hc
  cases members with
  | nil =>
    cases hc
    exact .inr (.inr rfl)
  | cons m members =>
    cases hc
    exact .inl rfl

theorem readItems_write {v : Value} {items : List Value} (hplain : ∀ w ∈ v :: items, w.Plain)
    (hreads : ∀ w ∈ v :: items, ReadsBack w) (fuel : Nat)
    (hfuel : 2 * (v.write ++ writeItems items).length ≤ fuel) (rest : List Char) :
    readItems fuel (v.write ++ writeItems items ++ rest) =
      some (itemDocuments (v :: items), rest) := by
  induction items generalizing v fuel with
  | nil =>
    simp only [writeItems, List.length_append, List.length_singleton] at hfuel
    obtain ⟨fuel, rfl⟩ : ∃ n, fuel = n + 1 := ⟨fuel - 1, by omega⟩
    have hfirst := hreads v List.mem_cons_self fuel _ (ends_writeItems [] rest) (by omega)
    rw [readItems, List.append_assoc, hfirst]
    simp only [writeItems, List.cons_append, List.nil_append]
    rw [skipBlank_cons rfl]
    rfl
  | cons w items ih =>
    simp only [writeItems, List.length_append, List.length_cons] at hfuel
    obtain ⟨fuel, rfl⟩ : ∃ n, fuel = n + 1 := ⟨fuel - 1, by omega⟩
    have hfirst := hreads v List.mem_cons_self fuel _ (ends_writeItems (w :: items) rest) (by omega)
    have hmore := ih (fun x hx => hplain x (List.mem_cons_of_mem _ hx))
      (fun x hx => hreads x (List.mem_cons_of_mem _ hx)) fuel
      (by rw [List.length_append]; omega)
    have hw := hplain w (List.mem_cons_of_mem _ List.mem_cons_self)
    rw [readItems, List.append_assoc, hfirst]
    simp only [writeItems, List.cons_append]
    rw [skipBlank_cons rfl]
    simp only
    rw [List.append_assoc, hw.skipBlank_write, ← List.append_assoc, hmore]
    rfl

theorem readLetters_writeString (s : String) (rest : List Char) :
    ∃ cs, writeString s ++ rest = '"' :: cs ∧
      readLetters cs = some (s.toList.map .char, rest) :=
  ⟨s.toList.flatMap escape ++ '"' :: rest, by simp [writeString],
    readLetters_flatMap_escape s.toList rest⟩

theorem skipBlank_writeString (s : String) (rest : List Char) :
    skipBlank (writeString s ++ rest) = writeString s ++ rest :=
  skipBlank_cons rfl _

theorem readMembers_write {name : String} {v : Value} {members : List (String × Value)}
    (hplain : ∀ m ∈ (name, v) :: members, m.2.Plain)
    (hreads : ∀ m ∈ (name, v) :: members, ReadsBack m.2) (fuel : Nat)
    (hfuel : 2 * (writeString name ++ ':' :: v.write ++ writeMembers members).length ≤ fuel)
    (rest : List Char) :
    readMembers fuel (writeString name ++ (':' :: v.write ++ (writeMembers members ++ rest))) =
      some (memberDocuments ((name, v) :: members), rest) := by
  induction members generalizing name v fuel with
  | nil =>
    simp only [writeMembers, List.length_append, List.length_cons, List.length_nil] at hfuel
    obtain ⟨fuel, rfl⟩ : ∃ n, fuel = n + 1 := ⟨fuel - 1, by omega⟩
    have hv : v.Plain := hplain _ List.mem_cons_self
    have hread : ReadsBack v := hreads _ List.mem_cons_self
    have hfirst := hread fuel _ (ends_writeMembers [] rest) (by omega)
    obtain ⟨cs, he, hname⟩ :=
      readLetters_writeString name (':' :: v.write ++ (writeMembers [] ++ rest))
    rw [he, readMembers, hname]
    simp only [List.cons_append]
    rw [skipBlank_cons rfl]
    simp only
    rw [hv.skipBlank_write, hfirst]
    simp only [writeMembers, List.cons_append, List.nil_append]
    rw [skipBlank_cons rfl]
    rfl
  | cons m members ih =>
    obtain ⟨next, w⟩ := m
    simp only [writeMembers, List.length_append, List.length_cons] at hfuel
    obtain ⟨fuel, rfl⟩ : ∃ n, fuel = n + 1 := ⟨fuel - 1, by omega⟩
    have hv : v.Plain := hplain _ List.mem_cons_self
    have hread : ReadsBack v := hreads _ List.mem_cons_self
    have hfirst := hread fuel _ (ends_writeMembers ((next, w) :: members) rest) (by omega)
    have hmore := ih (fun x hx => hplain x (List.mem_cons_of_mem _ hx))
      (fun x hx => hreads x (List.mem_cons_of_mem _ hx)) fuel
      (by simp only [List.length_append, List.length_cons]; omega)
    obtain ⟨cs, he, hname⟩ := readLetters_writeString name
      (':' :: v.write ++ (writeMembers ((next, w) :: members) ++ rest))
    rw [he, readMembers, hname]
    simp only [List.cons_append]
    rw [skipBlank_cons rfl]
    simp only
    rw [hv.skipBlank_write, hfirst]
    simp only [writeMembers, List.cons_append, List.append_assoc] at hmore ⊢
    rw [skipBlank_cons rfl]
    simp only
    rw [skipBlank_writeString, hmore]
    rfl

theorem ReadsBack.of_succ {v : Value} (hv : v.Plain)
    (h : ∀ fuel rest, Ends rest → 2 * v.write.length ≤ fuel + 1 →
      readDocument (fuel + 1) (v.write ++ rest) = some (v.document, rest)) : ReadsBack v := by
  intro fuel rest hrest hfuel
  obtain ⟨c, cs, he, -⟩ := hv.exists_write
  cases fuel with
  | zero =>
    rw [he] at hfuel
    cases hfuel
  | succ fuel => exact h fuel rest hrest hfuel

theorem Value.Plain.readsBack {v : Value} (hv : v.Plain) : ReadsBack v := by
  induction hv with
  | null => exact .of_succ .null fun fuel rest _ _ => rfl
  | bool b => exact .of_succ (.bool b) fun fuel rest _ _ => by cases b <;> rfl
  | int n =>
    refine .of_succ (.int n) fun fuel rest hrest _ => ?_
    have hread : readNumeral (writeInt n ++ rest) = some (.ofInt n, rest) :=
      readNumeral_writeInt n hrest
    have hstart : ∃ c cs, writeInt n = c :: cs ∧ (c = '-' ∨ c.isDigit = true) := by
      unfold writeInt
      split
      · exact ⟨_, _, rfl, .inl rfl⟩
      · obtain ⟨d, ds, he, hd⟩ := exists_writeNat n.natAbs
        exact ⟨d, ds, he, .inr hd⟩
    obtain ⟨c, cs, he, hc⟩ := hstart
    rw [Value.write, he, List.cons_append, readDocument_numeral fuel hc, ← List.cons_append, ← he,
      hread]
    rfl
  | string s =>
    refine .of_succ (.string s) fun fuel rest _ _ => ?_
    obtain ⟨cs, he, hread⟩ := readLetters_writeString s rest
    rw [Value.write, he, readDocument, hread]
    rfl
  | @array items h ih =>
    refine .of_succ (.array h) fun fuel rest _ hfuel => ?_
    cases items with
    | nil => rfl
    | cons v items =>
      obtain ⟨c, cs, he, hblank, hclose⟩ := (h v List.mem_cons_self).exists_write
      have hitems := readItems_write h ih fuel
        (by simp only [Value.write, List.length_append, List.length_cons] at hfuel ⊢; omega) rest
      have hskip := (h v List.mem_cons_self).skipBlank_write (writeItems items ++ rest)
      rw [← List.append_assoc] at hskip
      rw [Value.write, List.cons_append, List.cons_append, readDocument, hskip]
      split
      · next heq =>
        rw [he] at heq
        cases heq
        exact absurd rfl hclose
      · rw [hitems]
        rfl
  | @object members h ih =>
    refine .of_succ (.object h) fun fuel rest _ hfuel => ?_
    cases members with
    | nil => rfl
    | cons m members =>
      obtain ⟨name, v⟩ := m
      have hmembers := readMembers_write h ih fuel
        (by simp only [Value.write, List.length_append, List.length_cons] at hfuel ⊢; omega) rest
      simp only [Value.write, List.append_assoc, List.cons_append] at hmembers ⊢
      rw [readDocument, skipBlank_writeString]
      split
      · next heq => cases heq
      · rw [hmembers]
        rfl

/-- The text of a value without doubles is read as its document. -/
theorem Value.Plain.parse?_render {v : Value} (hv : v.Plain) :
    Document.parse? v.render.toList = some v.document := by
  have hskip := hv.skipBlank_write []
  have hread := hv.readsBack (2 * v.write.length + 1) [] nofun (Nat.le_succ _)
  rw [List.append_nil] at hskip hread
  rw [Value.toList_render, Document.parse?, hskip, hread]
  rfl

/-! ## Values -/

/-- A value as a table of tables holds it: integers fit 64 bits, and the members of an object ascend
by name. -/
inductive Value.Exact : Value → Prop
  | null : Exact .null
  | bool (b : Bool) : Exact (.bool b)
  | int {n : Int} (h : n ∈ IntRange.signed64 ∨ n ∈ IntRange.unsigned64) : Exact (.int n)
  | string (s : String) : Exact (.string s)
  | array {items : List Value} (h : ∀ v ∈ items, Exact v) : Exact (.array items)
  | object {members : List (String × Value)} (hascending : Keyed.Ascending members)
    (h : ∀ m ∈ members, Exact m.2) : Exact (.object members)

theorem Value.Exact.plain {v : Value} (hv : v.Exact) : v.Plain := by
  induction hv with
  | null => exact .null
  | bool b => exact .bool b
  | int h => exact .int _
  | string s => exact .string s
  | array h ih => exact .array ih
  | object hascending h ih => exact .object ih

theorem Numeral.value?_ofInt {n : Int} (h : n ∈ IntRange.signed64 ∨ n ∈ IntRange.unsigned64) :
    (ofInt n).value? = some (.int n) := by
  have hint : (ofInt n).integer? = some n := by
    simp only [IntRange.mem_signed64, IntRange.mem_unsigned64] at h
    unfold integer? ofInt
    simp only [IntRange.mem_signed64, IntRange.mem_unsigned64]
    rw [if_neg (by simp)]
    by_cases hn : n < 0
    · rw [if_pos (decide_eq_true hn), if_pos (by omega), Option.some.injEq]
      omega
    · rw [if_neg (by simpa using hn), if_pos (by omega), Option.some.injEq]
      omega
  rw [value?, hint]

theorem itemValues?_eq_some {documents : List Document} {values : List Value}
    (h : List.Forall₂ (fun d v => d.value? = some v) documents values) :
    itemValues? documents = some values := by
  induction h with
  | nil => rfl
  | cons hv _ ih => rw [itemValues?, hv, ih]

/-- Members are read one by one, under their names. -/
theorem memberValues?_eq_some {members table : List (String × Value)}
    (h : List.Forall₂ (fun m e => m.1 = e.1 ∧ m.2.document.value? = some e.2) members table) :
    memberValues? (memberDocuments members) = some table := by
  induction h with
  | nil => rfl
  | @cons m e _ _ hm _ ih =>
    obtain ⟨name, v⟩ := m
    obtain ⟨name', w⟩ := e
    obtain ⟨rfl, hv⟩ : name = name' ∧ v.document.value? = some w := hm
    rw [memberDocuments, memberValues?, text?_map_char, hv, ih]

theorem memberValues?_memberDocuments {members : List (String × Value)}
    (h : ∀ m ∈ members, m.2.document.value? = some m.2) :
    memberValues? (memberDocuments members) = some members :=
  memberValues?_eq_some (List.forall₂_same.2 fun m hm => ⟨rfl, h m hm⟩)

theorem Value.Exact.value?_document {v : Value} (hv : v.Exact) : v.document.value? = some v := by
  induction hv with
  | null => rfl
  | bool b => rfl
  | int h => exact Numeral.value?_ofInt h
  | string s => rw [Value.document, Document.value?, text?_map_char, Option.map_some]
  | @array items h ih =>
    have hitems : List.Forall₂ (fun d v => d.value? = some v) (items.map Value.document) items :=
      List.forall₂_map_left_iff.2 (List.forall₂_same.2 ih)
    rw [Value.document, Document.value?, itemDocuments_eq, itemValues?_eq_some hitems,
      Option.map_some]
  | object hascending h ih =>
    rw [Value.document, Document.value?, memberValues?_memberDocuments ih, Option.map_some,
      Keyed.ofList_eq_self hascending]

/-- The text of a value without doubles is read as the value of its document, unless it nests too
deep. -/
theorem Value.Plain.parse?_of_value? {v w : Value} (hv : v.Plain)
    (hdepth : v.document.depth ≤ maxDepth) (hw : v.document.value? = some w) :
    Value.parse? v.render = some w := by
  rw [Value.parse?, hv.parse?_render, Option.bind_some, if_pos hdepth, hw]

/-! ## Members in any order -/

/-- What is written for `v` is read as `w`. -/
structure Value.ReadAs (v w : Value) : Prop where
  plain : v.Plain
  value?_document : v.document.value? = some w

namespace Value.ReadAs

theorem of_exact {v : Value} (hv : v.Exact) : v.ReadAs v := ⟨hv.plain, hv.value?_document⟩

/-- An object is read as what its members are read as, in the order of their names. -/
theorem object {members entries table : List (String × Value)}
    (hentries : List.Forall₂ (fun m e => m.1 = e.1 ∧ m.2.ReadAs e.2) members entries)
    (htable : (table.map (·.1)).Pairwise (· < ·)) (hperm : entries.Perm table) :
    (Value.object members).ReadAs (.object table) where
  plain := by
    have hplain : List.Forall₂ (fun m _ => m.2.Plain ∧ True) members entries :=
      hentries.imp fun m e he => ⟨he.2.plain, trivial⟩
    exact .object ((List.forall₂_and_left _ _).1 hplain).1
  value?_document := by
    have hvalues := hentries.imp fun m e he => And.intro he.1 he.2.value?_document
    rw [Value.document, Document.value?, memberValues?_eq_some hvalues, Option.map_some,
      Keyed.ofList_eq_of_perm htable hperm]

theorem parse?_render {v w : Value} (h : v.ReadAs w) (hdepth : v.document.depth ≤ maxDepth) :
    Value.parse? v.render = some w :=
  h.plain.parse?_of_value? hdepth h.value?_document

end Value.ReadAs

end PriceFeed.Json
