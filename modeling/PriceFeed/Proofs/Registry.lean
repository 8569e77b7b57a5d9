import PriceFeed.Proofs.Keys
import PriceFeed.Registry

/-!
# Registries of catalogs

A registry is built one price entry at a time, with its two indexes, and the building ends at the
first entry that repeats an account. What is built holds the instruments of all entries in order,
and a reference is looked up in it as in a plain list.

    building ends with all entries, or at the first repeated account               (built_ofCatalog)
    the indexes find what a search of the list finds                                (find?_or_find?)
    r.lookup reference = .ok i ↔ r.Names reference i                              (lookup_eq_ok_iff)
    r.lookup reference = .error e: no account and no symbol                    (lookup_eq_error_iff)

## Top theorem

    which catalogs have a registry, what it holds, and what is found in it      (catalog_registered)
-/

namespace PriceFeed

/-! ## Entries -/

/-- The price entries of a catalog with their products, in order. -/
def Catalog.entries (c : Catalog) : List (ProductSpec × InstrumentSpec) :=
  c.products.flatMap fun p => p.instruments.map fun spec => (p, spec)

/-- The accounts of the price entries, in order. -/
def Catalog.accounts (c : Catalog) : List String := c.entries.map fun e => e.2.account

/-- The instruments of the price entries, in order. -/
def Catalog.instruments (c : Catalog) : List Instrument :=
  c.products.flatMap fun p => p.instruments.map (·.register p)

/-- An instrument has what its price entry says, and the symbol of its product or else its own
account for a symbol. -/
structure Instrument.OfEntry (e : ProductSpec × InstrumentSpec) (i : Instrument) : Prop where
  account : i.account = e.2.account
  product : i.product = e.1.account
  priceExponent : i.priceExponent = e.2.priceExponent
  priceType : i.priceType = e.2.priceType
  minPublishers : i.minPublishers = e.2.minPublishers
  isPublisher : ∀ p, i.isPublisher p = true ↔ p ∈ e.2.publishers
  symbol : ∀ s, e.1.attributes.get? "symbol" = some s → i.symbol = s
  ownSymbol : e.1.attributes.get? "symbol" = none → i.symbol = e.2.account

theorem InstrumentSpec.ofEntry_register (p : ProductSpec) (spec : InstrumentSpec) :
    (spec.register p).OfEntry (p, spec) where
  account := rfl
  product := rfl
  priceExponent := rfl
  priceType := rfl
  minPublishers := rfl
  isPublisher publisher := by
    simp [Instrument.isPublisher, register, ascendingSet, List.mem_eraseDups]
  symbol s hs := by
    have hs : p.attributes.get? symbolAttribute = some s := hs
    rw [register, hs, Option.getD_some]
  ownSymbol hnone := by
    have hnone : p.attributes.get? symbolAttribute = none := hnone
    rw [register, hnone, Option.getD_none]

namespace Catalog

theorem instruments_eq (c : Catalog) : c.instruments = c.entries.map fun e => e.2.register e.1 := by
  simp [instruments, entries, List.map_flatMap, Function.comp_def]

theorem map_account_instruments (c : Catalog) :
    c.instruments.map (·.account) = c.accounts := by
  rw [instruments_eq, accounts, List.map_map]
  rfl

theorem forall₂_instruments (c : Catalog) :
    List.Forall₂ Instrument.OfEntry c.entries c.instruments := by
  rw [instruments_eq]
  exact List.forall₂_map_right_iff.2
    (List.forall₂_same.2 fun e _ => InstrumentSpec.ofEntry_register e.1 e.2)

end Catalog

namespace Registry

/-! ## Repeated accounts -/

/-- The instrument is the first of the list to repeat the account of an earlier one. -/
def Repeats (l : List Instrument) (i : Instrument) : Prop :=
  ∃ before after, l = before ++ i :: after ∧ (before.map (·.account)).Nodup ∧
    i.account ∈ before.map (·.account)

theorem Repeats.of_prefix {l m : List Instrument} {i : Instrument} (h : Repeats l i)
    (hm : l <+: m) : Repeats m i := by
  obtain ⟨before, after, rfl, hnodup, hmem⟩ := h
  obtain ⟨rest, rfl⟩ := hm
  exact ⟨before, after ++ rest, by rw [List.append_assoc, List.cons_append], hnodup, hmem⟩

theorem not_nodup_of_repeated {before : List Instrument} {i : Instrument}
    (h : i.account ∈ before.map (·.account)) (after : List Instrument) :
    ¬ ((before ++ i :: after).map (·.account)).Nodup := by
  rw [List.map_append, List.nodup_append, List.map_cons]
  rintro ⟨-, -, hapart⟩
  exact hapart _ h _ List.mem_cons_self rfl

theorem Repeats.not_nodup {l : List Instrument} {i : Instrument} (h : Repeats l i) :
    ¬ (l.map (·.account)).Nodup := by
  obtain ⟨before, after, rfl, -, hmem⟩ := h
  exact not_nodup_of_repeated hmem after

/-- There is only one first instrument. -/
theorem Repeats.eq {l : List Instrument} {i j : Instrument} (hi : Repeats l i)
    (hj : Repeats l j) : i = j := by
  obtain ⟨before, after, hl, hnodup, hmem⟩ := hi
  obtain ⟨before', after', hl', hnodup', hmem'⟩ := hj
  -- of two different places the earlier one is among distinct accounts
  rcases List.append_eq_append_iff.1 (hl.symm.trans hl') with ⟨mid, hb, hrest⟩ | ⟨mid, hb, hrest⟩
  · cases mid with
    | nil => exact (List.cons.inj hrest).1
    | cons k mid =>
      obtain ⟨rfl, -⟩ := List.cons.inj hrest
      exact absurd (hb ▸ hnodup') (not_nodup_of_repeated hmem mid)
  · cases mid with
    | nil => exact (List.cons.inj hrest).1.symm
    | cons k mid =>
      obtain ⟨rfl, -⟩ := List.cons.inj hrest
      exact absurd (hb ▸ hnodup) (not_nodup_of_repeated hmem' mid)

/-! ## Building -/

/-- How building a registry ends: with these instruments and products, or with the first account
that is repeated. -/
inductive Built (l : List Instrument) (products : List Product) :
    Except RegistryError Registry → Prop
  | ok {r : Registry} : r.instruments = l → r.products = products → Built l products (.ok r)
  | error {i : Instrument} : Repeats l i → Built l products (.error (.duplicateAccount i.account))

/-- A refusal stands, and what was built so far is built on. -/
theorem Built.bind {l m : List Instrument} {products products' : List Product}
    {x : Except RegistryError Registry} {f : Registry → Except RegistryError Registry}
    (h : Built l products x) (hm : l <+: m)
    (hf : ∀ r, r.instruments = l → r.products = products → Built m products' (f r)) :
    Built m products' (x >>= f) := by
  cases h with
  | ok hl hproducts => exact hf _ hl hproducts
  | error h => exact .error (h.of_prefix hm)

theorem built_insert (r : Registry) (i : Instrument) :
    Built (r.instruments ++ [i]) r.products (r.insert i) := by
  unfold insert
  split
  · next place h =>
    refine .error ⟨r.instruments, [], rfl, r.nodup_accounts, ?_⟩
    by_contra hnew
    rw [get?_accounts_eq_none_iff.2 hnew] at h
    cases h
  · exact .ok rfl rfl

theorem built_foldlM_insert (r : Registry) (l : List Instrument) :
    Built (r.instruments ++ l) r.products (l.foldlM insert r) := by
  induction l generalizing r with
  | nil => exact .ok (List.append_nil _).symm rfl
  | cons i rest ih =>
    rw [List.foldlM_cons, List.append_cons]
    refine (built_insert r i).bind (List.prefix_append ..) fun r' hl hproducts => ?_
    rw [← hl, ← hproducts]
    exact ih r'

theorem built_addProduct (r : Registry) (spec : ProductSpec) :
    Built (r.instruments ++ spec.instruments.map (·.register spec)) (r.products ++ [spec.register])
      (r.addProduct spec) :=
  (built_foldlM_insert r _).bind List.prefix_rfl fun _ hl hproducts =>
    .ok hl (congrArg (· ++ [spec.register]) hproducts)

theorem built_foldlM_addProduct (r : Registry) (specs : List ProductSpec) :
    Built (r.instruments ++ specs.flatMap fun p => p.instruments.map (·.register p))
      (r.products ++ specs.map (·.register)) (specs.foldlM addProduct r) := by
  induction specs generalizing r with
  | nil => exact .ok (List.append_nil _).symm (List.append_nil _).symm
  | cons spec rest ih =>
    rw [List.foldlM_cons, List.flatMap_cons, List.map_cons, ← List.append_assoc, List.append_cons]
    refine (built_addProduct r spec).bind (List.prefix_append ..) fun r' hl hproducts => ?_
    rw [← hl, ← hproducts]
    exact ih r'

/-- The registry of a catalog is built from its price entries in order. -/
theorem built_ofCatalog (c : Catalog) :
    Built c.instruments (c.products.map (·.register)) (ofCatalog c) :=
  built_foldlM_addProduct empty c.products

theorem instruments_of_ofCatalog {c : Catalog} {r : Registry} (h : ofCatalog c = .ok r) :
    r.instruments = c.instruments ∧ r.products = c.products.map (·.register) := by
  have hbuilt := built_ofCatalog c
  rw [h] at hbuilt
  cases hbuilt with
  | ok hl hproducts => exact ⟨hl, hproducts⟩

theorem ofCatalog_eq_error_iff {c : Catalog} {e : RegistryError} :
    ofCatalog c = .error e ↔ ∃ i, Repeats c.instruments i ∧ e = .duplicateAccount i.account := by
  have hbuilt := built_ofCatalog c
  constructor
  · intro h
    rw [h] at hbuilt
    cases hbuilt with
    | error hi => exact ⟨_, hi, rfl⟩
  · rintro ⟨i, hi, rfl⟩
    generalize ofCatalog c = x at hbuilt ⊢
    cases hbuilt with
    | @ok r hl _ => exact absurd (hl ▸ r.nodup_accounts) hi.not_nodup
    | error hj => rw [hi.eq hj]

theorem exists_ofCatalog_ok_iff {c : Catalog} : (∃ r, ofCatalog c = .ok r) ↔ c.accounts.Nodup := by
  rw [← c.map_account_instruments]
  constructor
  · rintro ⟨r, hr⟩
    exact (instruments_of_ofCatalog hr).1 ▸ r.nodup_accounts
  · intro hnodup
    cases h : ofCatalog c with
    | ok r => exact ⟨r, rfl⟩
    | error e =>
      obtain ⟨i, hi, -⟩ := ofCatalog_eq_error_iff.1 h
      exact absurd hnodup hi.not_nodup

/-- There is no registry just for a catalog with a repeated account. -/
theorem exists_ofCatalog_error_iff {c : Catalog} :
    (∃ e, ofCatalog c = .error e) ↔ ¬ c.accounts.Nodup := by
  rw [← exists_ofCatalog_ok_iff]
  cases ofCatalog c <;> simp

/-- The account reported is the one of the first price entry that repeats an earlier one. -/
theorem repeats_iff {c : Catalog} {account : String} :
    (∃ i, Repeats c.instruments i ∧ i.account = account) ↔
      ∃ before after, c.accounts = before ++ account :: after ∧ before.Nodup ∧
        account ∈ before := by
  rw [← c.map_account_instruments]
  constructor
  · rintro ⟨i, ⟨before, after, hl, hnodup, hmem⟩, rfl⟩
    exact ⟨before.map (·.account), after.map (·.account), by rw [hl]; simp, hnodup, hmem⟩
  · rintro ⟨before, after, hl, hnodup, hmem⟩
    obtain ⟨l, l', hsplit, rfl, hrest⟩ := List.map_eq_append_iff.1 hl
    obtain ⟨i, l', rfl, rfl, rfl⟩ := List.map_eq_cons_iff.1 hrest
    exact ⟨i, ⟨l, l', hsplit, hnodup, hmem⟩, rfl⟩

/-! ## Looking up -/

variable {r : Registry} {reference : String}

/-- The instrument that a reference names: the one with this account, or else the first with this
symbol. -/
inductive Names (r : Registry) (reference : String) (i : Instrument) : Prop
  | account : i ∈ r.instruments → i.account = reference → Names r reference i
  | symbol {before after : List Instrument} : (∀ j ∈ r.instruments, j.account ≠ reference) →
      r.instruments = before ++ i :: after → i.symbol = reference →
      (∀ j ∈ before, j.symbol ≠ reference) → Names r reference i

/-- What stands at the place of a name is what a search for it finds. -/
theorem bind_place_eq_find? {name : Instrument → String} {l : List Instrument} (x : Index name l)
    (s : String) : (x.places.get? s).bind (l[·]?) = l.find? (name · = s) := by
  rw [x.get?_places]
  exact List.find?_eq_bind_findIdx?_getElem?.symm

/-- The indexes find what a search of the list finds. -/
theorem find?_or_find? (r : Registry) (reference : String) :
    (r.place? reference).bind (r.instruments[·]?) =
      (r.instruments.find? (·.account = reference)).or
        (r.instruments.find? (·.symbol = reference)) := by
  rw [← bind_place_eq_find? r.accounts, ← bind_place_eq_find? r.symbols, place?]
  cases hplace : r.accounts.places.get? reference with
  | none => rfl
  | some place =>
    rw [r.accounts.get?_places] at hplace
    obtain ⟨hlt, -⟩ := List.findIdx?_eq_some_iff_getElem.1 hplace
    simp [List.getElem?_eq_getElem hlt]

theorem names_iff_find? {i : Instrument} :
    r.Names reference i ↔ (r.instruments.find? (·.account = reference)).or
      (r.instruments.find? (·.symbol = reference)) = some i := by
  rw [Option.or_eq_some_iff, find?_key_eq_some_iff r.nodup_accounts, List.find?_eq_none,
    List.find?_eq_some_iff_append]
  constructor
  · rintro (⟨hmem, hi⟩ | ⟨haccount, hsplit, hi, hbefore⟩)
    · exact .inl ⟨hmem, hi⟩
    · exact .inr ⟨by simpa using haccount, by simpa using hi, _, _, hsplit, by simpa using hbefore⟩
  · rintro (⟨hmem, hi⟩ | ⟨haccount, hi, before, after, hsplit, hbefore⟩)
    · exact .account hmem hi
    · exact .symbol (by simpa using haccount) hsplit (by simpa using hi) (by simpa using hbefore)

theorem lookup_eq_ok_iff {i : Instrument} : r.lookup reference = .ok i ↔ r.Names reference i := by
  rw [names_iff_find?, ← find?_or_find?, lookup]
  cases (r.place? reference).bind (r.instruments[·]?) <;> simp

theorem lookup_eq_error_iff {e : RegistryError} :
    r.lookup reference = .error e ↔ e = .notFound reference ∧
      ∀ i ∈ r.instruments, i.account ≠ reference ∧ i.symbol ≠ reference := by
  have hnone : (r.place? reference).bind (r.instruments[·]?) = none ↔
      ∀ i ∈ r.instruments, i.account ≠ reference ∧ i.symbol ≠ reference := by
    rw [find?_or_find?, Option.or_eq_none_iff, List.find?_eq_none, List.find?_eq_none]
    simp only [decide_eq_true_eq, forall_and]
  rw [← hnone, lookup]
  cases (r.place? reference).bind (r.instruments[·]?) <;> simp [eq_comm]

/-- An account names its own instrument, whatever the symbols are. -/
theorem lookup_account {i : Instrument} (hi : i ∈ r.instruments) : r.lookup i.account = .ok i :=
  lookup_eq_ok_iff.2 (.account hi rfl)

/-! ## Top theorem -/

/-- **What the registry of a catalog is.** There is none just if two price entries share an account,
and then the account of the first entry that repeats an earlier one is reported. Otherwise the
registry lists the price entries in order, and its products group their accounts in order. A
reference is found as an account, or else as a symbol, of which the first instrument counts; so each
instrument is found by its own account. -/
theorem catalog_registered (c : Catalog) :
    ((∃ e, ofCatalog c = .error e) ↔ ¬ c.accounts.Nodup) ∧
    (∀ e, ofCatalog c = .error e ↔ ∃ before account after,
      c.accounts = before ++ account :: after ∧ before.Nodup ∧ account ∈ before ∧
        e = .duplicateAccount account) ∧
    ∀ r, ofCatalog c = .ok r →
      List.Forall₂ Instrument.OfEntry c.entries r.instruments ∧
      r.products = c.products.map (fun p =>
        ⟨p.account, p.attributes, p.instruments.map (·.account)⟩) ∧
      r.products.flatMap (·.instruments) = r.instruments.map (·.account) ∧
      (∀ reference i, r.lookup reference = .ok i ↔ r.Names reference i) ∧
      (∀ reference e, r.lookup reference = .error e ↔ e = .notFound reference ∧
        ∀ i ∈ r.instruments, i.account ≠ reference ∧ i.symbol ≠ reference) ∧
      ∀ i ∈ r.instruments, r.lookup i.account = .ok i := by
  refine ⟨exists_ofCatalog_error_iff, fun e => ?_, fun r hr => ?_⟩
  · rw [ofCatalog_eq_error_iff]
    constructor
    · rintro ⟨i, hi, rfl⟩
      obtain ⟨before, after, hsplit, hnodup, hmem⟩ := repeats_iff.1 ⟨i, hi, rfl⟩
      exact ⟨before, i.account, after, hsplit, hnodup, hmem, rfl⟩
    · rintro ⟨before, account, after, hsplit, hnodup, hmem, rfl⟩
      obtain ⟨i, hi, rfl⟩ := repeats_iff.2 ⟨before, after, hsplit, hnodup, hmem⟩
      exact ⟨i, hi, rfl⟩
  · obtain ⟨hinstruments, hproducts⟩ := instruments_of_ofCatalog hr
    refine ⟨hinstruments ▸ c.forall₂_instruments, hproducts, ?_, fun _ _ => lookup_eq_ok_iff,
      fun _ _ => lookup_eq_error_iff, fun _ hi => lookup_account hi⟩
    rw [hproducts, hinstruments, c.map_account_instruments]
    simp [Catalog.accounts, Catalog.entries, List.flatMap_map, List.map_flatMap,
      ProductSpec.register, Function.comp_def]

/-- The symbol of the first product is the account of an instrument of the second. -/
def crossedCatalog : Catalog where
  products := [
    { account := "prod-a", attributes := [("symbol", "py")]
      instruments := [{ account := "px", priceExponent := -2 }] },
    { account := "prod-b"
      instruments := [{ account := "py", priceExponent := -5, priceType := .unknown }] }]

/-- The same, with the account of the first instrument once more at the end. -/
def repeatedCatalog : Catalog where
  products := crossedCatalog.products ++
    [{ account := "prod-c", instruments := [{ account := "px", priceExponent := 0 }] }]

/-- An account goes before a symbol, and the account of a product is no reference. A repeated account
is refused. -/
theorem catalog_registered_crossed :
    (∃ r px py, ofCatalog crossedCatalog = .ok r ∧ r.instruments = [px, py] ∧ px.symbol = "py" ∧
      py.account = "py" ∧ py.product = "prod-b" ∧ r.lookup "py" = .ok py ∧
      r.lookup "prod-b" = .error (.notFound "prod-b")) ∧
    ofCatalog repeatedCatalog = .error (.duplicateAccount "px") := by
  obtain ⟨-, -, hbuilt⟩ := catalog_registered crossedCatalog
  obtain ⟨-, hreported, -⟩ := catalog_registered repeatedCatalog
  refine ⟨?_, (hreported _).2 ⟨["px", "py"], "px", [], rfl, by decide, by decide, rfl⟩⟩
  obtain ⟨r, hr⟩ := exists_ofCatalog_ok_iff.2 (by decide : crossedCatalog.accounts.Nodup)
  obtain ⟨hentries, -, -, -, hnone, hown⟩ := hbuilt r hr
  obtain ⟨px, l, hpx, hrest, hlist⟩ := List.forall₂_cons_left_iff.1 hentries
  obtain ⟨py, l', hpy, hnil, rfl⟩ := List.forall₂_cons_left_iff.1 hrest
  obtain rfl := List.forall₂_nil_left_iff.1 hnil
  have hmem : py ∈ r.instruments := by simp [hlist]
  have haccount : py.account = "py" := hpy.account
  have hpxAccount : px.account = "px" := hpx.account
  have hsymbol : px.symbol = "py" := hpx.symbol "py" rfl
  have hpySymbol : py.symbol = "py" := hpy.ownSymbol rfl
  refine ⟨r, px, py, hr, hlist, hsymbol, haccount, hpy.product, haccount ▸ hown py hmem,
    (hnone _ _).2 ⟨rfl, ?_⟩⟩
  simp [hlist, haccount, hpxAccount, hsymbol, hpySymbol]

end Registry

end PriceFeed
