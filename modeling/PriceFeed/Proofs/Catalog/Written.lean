import PriceFeed.Catalog.Reader
import PriceFeed.Catalog.Writer
import PriceFeed.Proofs.Json.Written
import PriceFeed.Proofs.Keys

/-!
# Catalogs as they are written

The text of a catalog is read back as that catalog, and so is every text in which members that are
as their fields would be without them are left out. What is read is a catalog that can be written,
so reading and writing it again changes nothing.

    an object that omits what need not be there has its fields                (Omits.recordFields?)
    what is read of a catalog's document is that catalog           (Catalog.ofDocument?_written)
    what is read of any text can be written                                (Catalog.valid_of_parse?)

## Top theorem

    reading undoes writing, with members left out or not                          (parse?_written)
-/

namespace PriceFeed

open Json

/-! ## Values that can be written -/

/-- Its integers are in the ranges of their fields. -/
def InstrumentSpec.Valid (i : InstrumentSpec) : Prop :=
  i.priceExponent ∈ IntRange.signed32 ∧ (i.minPublishers : Int) ∈ IntRange.unsigned8

structure ProductSpec.Valid (p : ProductSpec) : Prop where
  ascending : p.attributes.Ascending
  instruments : ∀ i ∈ p.instruments, i.Valid

def Catalog.Valid (c : Catalog) : Prop := ∀ p ∈ c.products, p.Valid

/-- The members of a record, in order, without some that are among the defaults. -/
def Omits (defaults full members : List (String × Value)) : Prop :=
  members.Sublist full ∧ ∀ m ∈ full, m ∈ members ∨ m ∈ defaults

namespace InstrumentSpec

def members (i : InstrumentSpec) : List (String × Value) :=
  [("account", .string i.account),
    ("price_exponent", .int i.priceExponent),
    ("price_type", .string i.priceType.name),
    ("publishers", .array (i.publishers.map .string)),
    ("min_publishers", .int i.minPublishers)]

/-- The members that need not be there. -/
def defaults : List (String × Value) :=
  [("price_type", .string "price"), ("publishers", .array []), ("min_publishers", .int 1)]

/-- The value is the object of an instrument, with defaults left out or not. -/
def WrittenAs (i : InstrumentSpec) (v : Value) : Prop :=
  ∃ members, v = .object members ∧ Omits defaults i.members members

end InstrumentSpec

namespace ProductSpec

/-- The members of a product whose instruments are written as `prices`. -/
def members (p : ProductSpec) (prices : List Value) : List (String × Value) :=
  [("account", .string p.account),
    ("attr_dict", .object (p.attributes.map fun (name, text) => (name, .string text))),
    ("price", .array prices)]

def defaults : List (String × Value) := [("attr_dict", .object []), ("price", .array [])]

def WrittenAs (p : ProductSpec) (v : Value) : Prop :=
  ∃ prices members, List.Forall₂ InstrumentSpec.WrittenAs p.instruments prices ∧
    v = .object members ∧ Omits defaults (p.members prices) members

end ProductSpec

namespace Catalog

def defaults : List (String × Value) := [("products", .array [])]

def WrittenAs (c : Catalog) (v : Value) : Prop :=
  ∃ products members, List.Forall₂ ProductSpec.WrittenAs c.products products ∧
    v = .object members ∧ Omits defaults [("products", .array products)] members

end Catalog

/-! ## Lists -/

section List

variable {α β : Type}

theorem mapM_eq_some_iff {f : α → Option β} {l : List α} {m : List β} :
    l.mapM f = some m ↔ List.Forall₂ (fun a b => f a = some b) l m := by
  induction l generalizing m with
  | nil =>
    rw [List.mapM_nil, List.forall₂_nil_left_iff, eq_comm (a := m)]
    exact Option.some_inj
  | cons a rest ih =>
    rw [List.mapM_cons, List.forall₂_cons_left_iff]
    simp only [bind, Option.bind_eq_some_iff, ih, pure, Option.some.injEq]
    constructor
    · rintro ⟨b, hb, more, hmore, rfl⟩
      exact ⟨b, more, hb, hmore, rfl⟩
    · rintro ⟨b, more, hb, hmore, rfl⟩
      exact ⟨b, hb, more, hmore, rfl⟩

theorem exists_forall₂ {r : α → β → Prop} {l : List α} (h : ∀ a ∈ l, ∃ b, r a b) :
    ∃ m, List.Forall₂ r l m := by
  induction l with
  | nil => exact ⟨[], .nil⟩
  | cons a rest ih =>
    obtain ⟨b, hb⟩ := h a List.mem_cons_self
    obtain ⟨m, hm⟩ := ih fun x hx => h x (List.mem_cons_of_mem _ hx)
    exact ⟨b :: m, .cons hb hm⟩

end List

/-! ## Records -/

namespace Omits

variable {defaults full members : List (String × Value)}

theorem refl (defaults full : List (String × Value)) : Omits defaults full full :=
  ⟨.refl full, fun _ hm => .inl hm⟩

/-- Each field is read from its member, or is left out as a default. -/
theorem recordFields? (h : Omits defaults full members) (hnodup : (full.map (·.1)).Nodup) :
    ∃ fields, List.Forall₂ (fun m field => field = some m.2 ∨ field = none ∧ m ∈ defaults)
        full fields ∧
      PriceFeed.recordFields? (full.map (·.1)) (Value.object members).document =
        some (fields.map (Option.map Value.document)) := by
  let named := members.map fun m => (m.1, m.2.document)
  have hnamed : (memberDocuments members).mapM
      (fun member => do return (← text? member.1, member.2)) = some named := by
    rw [memberDocuments_eq, mapM_eq_some_iff, List.forall₂_map_left_iff, List.forall₂_map_right_iff,
      List.forall₂_same]
    intro m _
    simp [text?_map_char]
  have hkeys : (named.map (·.1)).Nodup := by
    rw [List.map_map]
    exact (h.1.map Prod.fst).nodup hnodup
  have hfield : ∀ m ∈ full, ∃ field, (field = some m.2 ∨ field = none ∧ m ∈ defaults) ∧
      named.filter (·.1 = m.1) = (field.map fun v => (m.1, v.document)).toList := by
    intro m hm
    by_cases hmem : m ∈ members
    · have hone : named.filter (·.1 = m.1) = [(m.1, m.2.document)] :=
        filter_key_of_mem hkeys (List.mem_map_of_mem hmem)
      exact ⟨some m.2, .inl rfl, hone⟩
    · have hnone : named.filter (·.1 = m.1) = [] := by
        rw [List.filter_eq_nil_iff]
        intro x hx he
        obtain ⟨other, hother, rfl⟩ := List.mem_map.1 hx
        rw [List.inj_on_of_nodup_map hnodup (h.1.subset hother) hm (of_decide_eq_true he)] at hother
        exact hmem hother
      exact ⟨none, .inr ⟨rfl, (h.2 m hm).resolve_left hmem⟩, hnone⟩
  obtain ⟨fields, hfields⟩ := exists_forall₂ hfield
  refine ⟨fields, hfields.imp fun _ _ hx => hx.1, ?_⟩
  rw [Value.document, PriceFeed.recordFields?, hnamed]
  refine mapM_eq_some_iff.2 (List.forall₂_map_left_iff.2 (List.forall₂_map_right_iff.2 ?_))
  refine hfields.imp fun m field hx => ?_
  simp only [hx.2]
  cases field with
  | none => rfl
  | some v => rfl

theorem plain (h : Omits defaults full members) (hfull : ∀ m ∈ full, m.2.Plain) :
    (Value.object members).Plain :=
  .object fun m hm => hfull m (h.1.subset hm)

end Omits

section Fields

variable {α : Type} {read : FieldReader α} {m : String × Value} {field : Option Value} {a : α}
  {defaults : List (String × Value)} (h : field = some m.2 ∨ field = none ∧ m ∈ defaults)
  (hread : read m.2.document = some a)
include h hread

/-- A field that is no default is there. -/
theorem required?_written (hm : m ∉ defaults) :
    required? read (field.map Value.document) = some a := by
  rcases h with rfl | ⟨-, hdefault⟩
  · exact hread
  · exact absurd hdefault hm

theorem optional?_written (default : α) (hm : m ∈ defaults → a = default) :
    optional? default read (field.map Value.document) = some a := by
  rcases h with rfl | ⟨rfl, hdefault⟩
  · exact hread
  · exact congrArg some (hm hdefault).symm

end Fields

namespace FieldReader

theorem text_document (s : String) : text (Value.string s).document = some s := text?_map_char s

theorem integer_document {range : IntRange} {n : Int} (hn : n ∈ range)
    (hwide : n ∈ IntRange.signed64 ∨ n ∈ IntRange.unsigned64) :
    integer range (Value.int n).document = some n := by
  show (Numeral.ofInt n).value?.bind _ = some n
  rw [Numeral.value?_ofInt hwide]
  exact if_pos hn

/-- A list is read if each item is read as it is written. -/
theorem list_document {α : Type} {item : FieldReader α} {valid : α → Prop}
    {written : α → Value → Prop}
    (hitem : ∀ a v, valid a → written a v → v.Plain ∧ item v.document = some a) {l : List α}
    {values : List Value} (hl : ∀ a ∈ l, valid a) (hwritten : List.Forall₂ written l values) :
    (Value.array values).Plain ∧ list item (Value.array values).document = some l := by
  have hread : List.Forall₂ (fun v a => v.Plain ∧ item v.document = some a) values l :=
    ((List.forall₂_and_left _ _).2 ⟨hl, hwritten⟩).flip.imp fun v a h => hitem a v h.1 h.2
  refine ⟨.array fun v hv => ?_, ?_⟩
  · obtain ⟨i, hi, rfl⟩ := List.getElem_of_mem hv
    exact (hread.get hi (hread.length_eq ▸ hi)).1
  · show (itemDocuments values).mapM item = some l
    rw [itemDocuments_eq, mapM_eq_some_iff]
    exact List.forall₂_map_left_iff.2 (hread.imp fun _ _ h => h.2)

theorem texts_document (l : List String) :
    (Value.array (l.map .string)).Plain ∧
      list text (Value.array (l.map .string)).document = some l := by
  have hitem : ∀ (s : String) v, True → v = Value.string s →
      v.Plain ∧ text v.document = some s := by
    rintro s _ - rfl
    exact ⟨.string s, text_document s⟩
  exact list_document hitem (fun _ _ => trivial)
    (List.forall₂_map_right_iff.2 (List.forall₂_same.2 fun _ _ => rfl))

theorem table_document {t : Keyed String} (ht : t.Ascending) :
    table (Value.object (t.map fun (name, text) => (name, .string text))).document = some t := by
  have hentries : (memberDocuments (t.map fun (name, text) => (name, .string text))).mapM
      (fun member => do return (← text? member.1, ← text member.2)) = some t := by
    rw [memberDocuments_eq, mapM_eq_some_iff, List.map_map, List.forall₂_map_left_iff,
      List.forall₂_same]
    intro e _
    simp [text?_map_char, text_document]
  show Option.map Keyed.ofList _ = some t
  rw [hentries, Option.map_some, Keyed.ofList_eq_self ht]

theorem priceType_document (t : PriceType) :
    priceType (Value.string t.name).document = some t := by
  show (text? (t.name.toList.map .char)).map PriceType.ofName = some t
  rw [text?_map_char]
  cases t <;> rfl

end FieldReader

/-! ## Catalogs -/

theorem InstrumentSpec.ofDocument?_written (i : InstrumentSpec) (v : Value) (hi : i.Valid)
    (h : i.WrittenAs v) : v.Plain ∧ ofDocument? v.document = some i := by
  obtain ⟨members, rfl, homits⟩ := h
  obtain ⟨hplain, hlist⟩ := FieldReader.texts_document i.publishers
  obtain ⟨fields, hfields, hrecord⟩ := homits.recordFields? (by
    show ["account", "price_exponent", "price_type", "publishers", "min_publishers"].Nodup
    decide)
  refine ⟨homits.plain
    (by simp [InstrumentSpec.members, Value.Plain.string, Value.Plain.int, hplain]), ?_⟩
  obtain _ | ⟨haccount, _ | ⟨hexponent, _ | ⟨htype, _ | ⟨hpublishers, hleast⟩⟩⟩⟩ := hfields
  rw [List.forall₂_cons_left_iff] at hleast
  obtain ⟨least, _, hleast, hnil, rfl⟩ := hleast
  cases hnil
  obtain ⟨⟨hlow, hhigh⟩, hleastLow, hleastHigh⟩ := hi
  have hwide : i.priceExponent ∈ IntRange.signed64 :=
    ⟨Int.le_trans (by decide) hlow, Int.le_trans hhigh (by decide)⟩
  have hleastWide : (i.minPublishers : Int) ∈ IntRange.unsigned64 :=
    ⟨hleastLow, Int.le_trans hleastHigh (by decide)⟩
  have hnatural : FieldReader.natural .unsigned8 (Value.int i.minPublishers).document =
      some i.minPublishers := by
    rw [FieldReader.natural, FieldReader.integer_document ⟨hleastLow, hleastHigh⟩ (.inr hleastWide)]
    rfl
  have haccount := required?_written haccount (FieldReader.text_document i.account)
    (by simp [defaults])
  have hexponent := required?_written hexponent
    (FieldReader.integer_document ⟨hlow, hhigh⟩ (.inl hwide)) (by simp [defaults])
  have htype := optional?_written htype (FieldReader.priceType_document i.priceType) .price
    fun hm => by
      cases ht : i.priceType with
      | price => rfl
      | unknown => simp [defaults, ht, PriceType.name] at hm
  have hpublishers := optional?_written hpublishers hlist [] fun hm => by
    simpa [defaults] using hm
  have hleast := optional?_written hleast hnatural 1 fun hm => by
    have hone : (i.minPublishers : Int) = 1 := by simpa [defaults] using hm
    omega
  rw [ofDocument?, show fieldNames = i.members.map (·.1) from rfl, hrecord]
  simp only [List.map_cons, List.map_nil, Option.bind_eq_bind, Option.bind_some, haccount,
    hexponent, htype, hpublishers, hleast]
  rfl

theorem ProductSpec.ofDocument?_written (p : ProductSpec) (v : Value) (hp : p.Valid)
    (h : p.WrittenAs v) : v.Plain ∧ ofDocument? v.document = some p := by
  obtain ⟨prices, members, hprices, rfl, homits⟩ := h
  obtain ⟨hplain, hlist⟩ :=
    FieldReader.list_document InstrumentSpec.ofDocument?_written hp.instruments hprices
  have htable := FieldReader.table_document hp.ascending
  have htexts : (Value.object (p.attributes.map fun (name, text) => (name, .string text))).Plain :=
    .object fun m hm => by
      obtain ⟨e, -, rfl⟩ := List.mem_map.1 hm
      exact .string e.2
  obtain ⟨fields, hfields, hrecord⟩ := homits.recordFields? (by
    show ["account", "attr_dict", "price"].Nodup
    decide)
  refine ⟨homits.plain (by simp [ProductSpec.members, Value.Plain.string, htexts, hplain]), ?_⟩
  obtain _ | ⟨haccount, _ | ⟨hattributes, hrest⟩⟩ := hfields
  obtain ⟨price, _, hprice, hnil, rfl⟩ := List.forall₂_cons_left_iff.1 hrest
  cases hnil
  have haccount := required?_written haccount (FieldReader.text_document p.account)
    (by simp [defaults])
  have hattributes := optional?_written hattributes htable [] fun hm => by
    simpa [defaults] using hm
  have hprice := optional?_written hprice hlist [] fun hm => by
    have hnil : prices = [] := by simpa [defaults] using hm
    exact List.forall₂_nil_right_iff.1 (hnil ▸ hprices)
  rw [ofDocument?, show fieldNames = (p.members prices).map (·.1) from rfl, hrecord]
  simp only [List.map_cons, List.map_nil, Option.bind_eq_bind, Option.bind_some, haccount,
    hattributes, hprice]
  rfl

theorem Catalog.ofDocument?_written (c : Catalog) (v : Value) (hc : c.Valid)
    (h : c.WrittenAs v) : v.Plain ∧ ofDocument? v.document = some c := by
  obtain ⟨products, members, hproducts, rfl, homits⟩ := h
  obtain ⟨hplain, hlist⟩ :=
    FieldReader.list_document ProductSpec.ofDocument?_written hc hproducts
  obtain ⟨fields, hfields, hrecord⟩ := homits.recordFields? (List.nodup_singleton _)
  refine ⟨homits.plain (by simp [hplain]), ?_⟩
  obtain ⟨field, _, hfield, hnil, rfl⟩ := List.forall₂_cons_left_iff.1 hfields
  cases hnil
  have hfield := optional?_written hfield hlist [] fun hm => by
    have hnil : products = [] := by simpa [defaults] using hm
    exact List.forall₂_nil_right_iff.1 (hnil ▸ hproducts)
  rw [ofDocument?, show ["products"] = [("products", Value.array products)].map (·.1) from rfl,
    hrecord]
  simp only [List.map_cons, List.map_nil, Option.bind_eq_bind, Option.bind_some, hfield]
  rfl

/-! ## What is written in full -/

theorem InstrumentSpec.writtenAs_toJson (i : InstrumentSpec) : i.WrittenAs i.toJson :=
  ⟨i.members, rfl, .refl ..⟩

theorem ProductSpec.writtenAs_toJson (p : ProductSpec) : p.WrittenAs p.toJson :=
  ⟨_, _, List.forall₂_map_right_iff.2 (List.forall₂_same.2 fun i _ => i.writtenAs_toJson), rfl,
    .refl ..⟩

theorem Catalog.writtenAs_toJson (c : Catalog) : c.WrittenAs c.toJson :=
  ⟨_, _, List.forall₂_map_right_iff.2 (List.forall₂_same.2 fun p _ => p.writtenAs_toJson), rfl,
    .refl ..⟩

/-! ## What is read -/

namespace FieldReader

theorem mem_of_integer {range : IntRange} {d : Document} {n : Int}
    (h : integer range d = some n) : n ∈ range := by
  unfold integer at h
  split at h
  · obtain ⟨v, -, hv⟩ := Option.bind_eq_some_iff.1 h
    unfold Value.intIn? at hv
    split at hv
    · split at hv
      · next hmem => exact Option.some.inj hv ▸ hmem
      · cases hv
    · cases hv
  · cases h

theorem mem_of_natural {range : IntRange} (hlow : 0 ≤ range.low) {d : Document} {n : Nat}
    (h : natural range d = some n) : (n : Int) ∈ range := by
  obtain ⟨m, hm, rfl⟩ := Option.map_eq_some_iff.1 h
  have hmem := mem_of_integer hm
  rw [Int.toNat_of_nonneg (Int.le_trans hlow hmem.1)]
  exact hmem

theorem exists_of_mem_list {α : Type} {item : FieldReader α} {d : Document} {l : List α}
    (h : list item d = some l) {a : α} (ha : a ∈ l) : ∃ d, item d = some a := by
  unfold list at h
  split at h
  · have hread := mapM_eq_some_iff.1 h
    obtain ⟨i, hi, rfl⟩ := List.getElem_of_mem ha
    exact ⟨_, hread.get (hread.length_eq ▸ hi) hi⟩
  · cases h

theorem ascending_of_table {d : Document} {t : Keyed String} (h : table d = some t) :
    t.Ascending := by
  unfold table at h
  split at h
  · obtain ⟨entries, -, rfl⟩ := Option.map_eq_some_iff.1 h
    exact Keyed.ascending_ofList entries
  · cases h

end FieldReader

theorem exists_of_required? {α : Type} {read : FieldReader α} {field : Option Document} {a : α}
    (h : required? read field = some a) : ∃ d, read d = some a := by
  obtain ⟨d, -, hd⟩ := Option.bind_eq_some_iff.1 h
  exact ⟨d, hd⟩

theorem default_or_of_optional? {α : Type} {default : α} {read : FieldReader α}
    {field : Option Document} {a : α} (h : optional? default read field = some a) :
    a = default ∨ ∃ d, read d = some a := by
  cases field with
  | none => exact .inl (Option.some.inj h).symm
  | some d => exact .inr ⟨d, h⟩

theorem InstrumentSpec.valid_of_ofDocument? {d : Document} {i : InstrumentSpec}
    (h : ofDocument? d = some i) : i.Valid := by
  unfold ofDocument? at h
  obtain ⟨fields, -, h⟩ := Option.bind_eq_some_iff.1 h
  split at h
  · obtain ⟨_, -, h⟩ := Option.bind_eq_some_iff.1 h
    obtain ⟨e, he, h⟩ := Option.bind_eq_some_iff.1 h
    obtain ⟨_, -, h⟩ := Option.bind_eq_some_iff.1 h
    obtain ⟨_, -, h⟩ := Option.bind_eq_some_iff.1 h
    obtain ⟨n, hn, h⟩ := Option.bind_eq_some_iff.1 h
    cases h
    obtain ⟨_, he⟩ := exists_of_required? he
    refine ⟨FieldReader.mem_of_integer he, ?_⟩
    rcases default_or_of_optional? hn with rfl | ⟨_, hn⟩
    · show ((1 : Nat) : Int) ∈ IntRange.unsigned8
      decide
    · exact FieldReader.mem_of_natural (by decide) hn
  · cases h

theorem ProductSpec.valid_of_ofDocument? {d : Document} {p : ProductSpec}
    (h : ofDocument? d = some p) : p.Valid := by
  unfold ofDocument? at h
  obtain ⟨fields, -, h⟩ := Option.bind_eq_some_iff.1 h
  split at h
  · obtain ⟨_, -, h⟩ := Option.bind_eq_some_iff.1 h
    obtain ⟨attributes, ha, h⟩ := Option.bind_eq_some_iff.1 h
    obtain ⟨instruments, hi, h⟩ := Option.bind_eq_some_iff.1 h
    cases h
    refine ⟨?_, fun i hmem => ?_⟩
    · rcases default_or_of_optional? ha with rfl | ⟨_, ha⟩
      · exact List.Pairwise.nil
      · exact FieldReader.ascending_of_table ha
    · rcases default_or_of_optional? hi with rfl | ⟨_, hi⟩
      · cases hmem
      · obtain ⟨_, hread⟩ := FieldReader.exists_of_mem_list hi hmem
        exact InstrumentSpec.valid_of_ofDocument? hread
  · cases h

/-- What is read of any text can be written. -/
theorem Catalog.valid_of_parse? {text : String} {c : Catalog} (h : parse? text = some c) :
    c.Valid := by
  obtain ⟨d, -, h⟩ := Option.bind_eq_some_iff.1 h
  unfold ofDocument? at h
  obtain ⟨fields, -, h⟩ := Option.bind_eq_some_iff.1 h
  split at h
  · obtain ⟨products, hp, h⟩ := Option.bind_eq_some_iff.1 h
    cases h
    intro p hmem
    rcases default_or_of_optional? hp with rfl | ⟨_, hp⟩
    · cases hmem
    · obtain ⟨_, hread⟩ := FieldReader.exists_of_mem_list hp hmem
      exact ProductSpec.valid_of_ofDocument? hread
  · cases h

/-! ## Top theorem -/

theorem Catalog.parse?_render_of_written {c : Catalog} {v : Value} (hc : c.Valid)
    (h : c.WrittenAs v) : parse? v.render = some c := by
  obtain ⟨hplain, hread⟩ := ofDocument?_written c v hc h
  rw [parse?, hplain.parse?_render]
  exact hread

/-- **Reading undoes writing**: the text of a catalog is read back as that catalog, whichever of the
members that are as their defaults are left out. Of any text that is read, writing gives a text that
reading and writing leave as it is. -/
theorem Catalog.parse?_written :
    (∀ (c : Catalog) (v : Value), c.Valid → c.WrittenAs v → parse? v.render = some c) ∧
    (∀ c : Catalog, c.Valid → parse? c.render = some c) ∧
    ∀ (text : String) (c : Catalog), parse? text = some c →
      (parse? c.render).map render = some c.render := by
  have hwritten : ∀ (c : Catalog) (v : Value), c.Valid → c.WrittenAs v →
      parse? v.render = some c := fun _ _ => parse?_render_of_written
  have hfull : ∀ c : Catalog, c.Valid → parse? c.render = some c := fun c hc =>
    hwritten c c.toJson hc c.writtenAs_toJson
  refine ⟨hwritten, hfull, fun text c h => ?_⟩
  rw [hfull c (valid_of_parse? h)]
  rfl

/-- An instrument of the default type, with the default number of publishers. -/
def plainInstrument : InstrumentSpec :=
  { account := "px", priceExponent := -5, publishers := ["ann"] }

def plainCatalog : Catalog where
  products := [{ account := "p", attributes := [("a\n", "\"")], instruments := [plainInstrument] }]

/-- The instrument with its defaults left out. -/
def shortInstrument : Value :=
  .object [("account", .string "px"), ("price_exponent", .int (-5)),
    ("publishers", .array [.string "ann"])]

def shortCatalog : Value :=
  .object [("products", .array [.object [("account", .string "p"),
    ("attr_dict", .object [("a\n", .string "\"")]), ("price", .array [shortInstrument])]])]

theorem Catalog.parse?_written_short :
    plainCatalog.Valid ∧ plainCatalog.WrittenAs shortCatalog ∧
      parse? shortCatalog.render = some plainCatalog ∧
      parse? plainCatalog.render = some plainCatalog ∧
      (parse? plainCatalog.render).map render = some plainCatalog.render := by
  have hvalid : plainCatalog.Valid := by
    intro p hp
    rw [List.mem_singleton.1 hp]
    refine ⟨List.pairwise_singleton .., fun i hi => ?_⟩
    rw [List.mem_singleton.1 hi]
    exact ⟨by decide, by decide⟩
  have hinstrument : plainInstrument.WrittenAs shortInstrument := by
    refine ⟨_, rfl, .cons_cons _ (.cons_cons _ (.cons _ (.cons_cons _ (.cons _ .slnil)))), ?_⟩
    simp [InstrumentSpec.members, InstrumentSpec.defaults, plainInstrument, PriceType.name]
  have hwritten : plainCatalog.WrittenAs shortCatalog :=
    ⟨_, _, .cons ⟨_, _, .cons hinstrument .nil, rfl, .refl ..⟩ .nil, rfl, .refl ..⟩
  obtain ⟨hshort, hfull, hagain⟩ := parse?_written
  exact ⟨hvalid, hwritten, hshort _ _ hvalid hwritten, hfull _ hvalid,
    hagain _ _ (hshort _ _ hvalid hwritten)⟩

end PriceFeed
