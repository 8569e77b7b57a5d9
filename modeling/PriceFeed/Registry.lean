import PriceFeed.Catalog

/-!
# Instrument registry

A registry holds the instruments of a catalog in catalog order, no two with one account, and groups
them by product. The symbol of an instrument is the `symbol` attribute of its product, or its own
account if there is none. A reference is an account, or else the symbol of the first instrument
that has it; each of the two has an index, which grows with the list.

    an index has the first place of each name                                  (Index.get?_places)
    what is found is an instrument of the registry                       (Registry.mem_of_lookup)
-/

namespace PriceFeed

/-- A registered price instrument. -/
structure Instrument where
  account : String
  symbol : String
  product : String
  priceExponent : Int
  priceType : PriceType
  /-- Ascending, each once. -/
  publishers : List String
  minPublishers : Nat
  deriving DecidableEq, Repr

/-- Whether `publisher` may quote the instrument. -/
def Instrument.isPublisher (i : Instrument) (publisher : String) : Bool :=
  i.publishers.contains publisher

/-- A registered product and the accounts of its instruments, in catalog order. -/
structure Product where
  account : String
  attributes : Keyed String
  instruments : List String
  deriving DecidableEq, Repr

/-- Why a registry has no answer. -/
inductive RegistryError where
  | notFound (reference : String)
  | duplicateAccount (account : String)
  deriving DecidableEq, Repr

def RegistryError.message : RegistryError → String
  | notFound reference => s!"unknown instrument: {reference}"
  | duplicateAccount account => s!"duplicate instrument account: {account}"

/-! ## Building -/

/-- The attribute that holds the symbol of a product. -/
def symbolAttribute : String := "symbol"

/-- Ascending, each once. -/
def ascendingSet (l : List String) : List String := l.eraseDups.mergeSort (· ≤ ·)

def InstrumentSpec.register (spec : InstrumentSpec) (product : ProductSpec) : Instrument where
  account := spec.account
  symbol := (product.attributes.get? symbolAttribute).getD spec.account
  product := product.account
  priceExponent := spec.priceExponent
  priceType := spec.priceType
  publishers := ascendingSet spec.publishers
  minPublishers := spec.minPublishers

def ProductSpec.register (spec : ProductSpec) : Product where
  account := spec.account
  attributes := spec.attributes
  instruments := spec.instruments.map (·.account)

/-! ## Indexes -/

/-- The places of the instruments of `l` by their names; of two with one name the first counts. -/
structure Index (name : Instrument → String) (l : List Instrument) where
  places : Keyed Nat
  get?_places : ∀ s, places.get? s = l.findIdx? (name · = s)

namespace Index

variable {name : Instrument → String} {l : List Instrument}

/-- The index with one more instrument at the end of the list; a name keeps its first place. -/
def add (x : Index name l) (i : Instrument) : Index name (l ++ [i]) where
  places :=
    match x.places.get? (name i) with
    | some _ => x.places
    | none => x.places.put (name i) l.length
  get?_places s := by
    have hplace : (l ++ [i]).findIdx? (name · = s) =
        (x.places.get? s).or (if name i = s then some l.length else none) := by
      rw [List.findIdx?_append, x.get?_places, List.findIdx?_singleton]
      by_cases hs : name i = s <;> simp [hs]
    rw [hplace]
    by_cases hs : name i = s
    · subst hs
      cases hfound : x.places.get? (name i) <;> simp [hfound]
    · rw [if_neg hs, Option.or_none]
      split
      · rfl
      · exact Keyed.get?_put_of_ne (Ne.symm hs) ..

/-- The first places of the names in a list that starts at place `start`. -/
def placesFrom (name : Instrument → String) (start : Nat) : List Instrument → Keyed Nat
  | [] => []
  | i :: rest => (placesFrom name (start + 1) rest).put (name i) start

theorem get?_placesFrom (name : Instrument → String) (start : Nat) (l : List Instrument)
    (s : String) :
    (placesFrom name start l).get? s = (l.findIdx? (name · = s)).map (· + start) := by
  induction l generalizing start with
  | nil => rfl
  | cons i rest ih =>
    rw [placesFrom, List.findIdx?_cons]
    by_cases hs : name i = s
    · simp [hs]
    · rw [Keyed.get?_put_of_ne (Ne.symm hs), ih, if_neg (by simpa using hs), Option.map_map]
      congr 1
      funext n
      exact (Nat.succ_add_eq_add_succ n start).symm

/-- The index of a list. -/
def ofList (name : Instrument → String) (l : List Instrument) : Index name l :=
  ⟨placesFrom name 0 l, fun s => by simp [get?_placesFrom]⟩

end Index

/-! ## Registries -/

/-- Instruments with an index by account and one by symbol, and the products they belong to. -/
structure Registry where
  instruments : List Instrument
  products : List Product
  accounts : Index (·.account) instruments := .ofList _ _
  symbols : Index (·.symbol) instruments := .ofList _ _
  nodup_accounts : (instruments.map (·.account)).Nodup

namespace Registry

/-- A registry without instruments. -/
def empty : Registry where
  instruments := []
  products := []
  nodup_accounts := .nil

theorem get?_accounts_eq_none_iff {r : Registry} {account : String} :
    r.accounts.places.get? account = none ↔ account ∉ r.instruments.map (·.account) := by
  rw [r.accounts.get?_places, List.findIdx?_eq_none_iff]
  simp

theorem nodup_accounts_concat {r : Registry} {i : Instrument}
    (h : i.account ∉ r.instruments.map (·.account)) :
    ((r.instruments ++ [i]).map (·.account)).Nodup := by
  rw [List.map_append, List.nodup_append]
  refine ⟨r.nodup_accounts, List.pairwise_singleton .., fun a ha b hb hab => h ?_⟩
  have hi : b = i.account := List.mem_singleton.1 hb
  rwa [← hi, ← hab]

/-- The registry with one more instrument, unless its account is taken. -/
def insert (r : Registry) (i : Instrument) : Except RegistryError Registry :=
  match h : r.accounts.places.get? i.account with
  | some _ => .error (.duplicateAccount i.account)
  | none => .ok
    { r with
      instruments := r.instruments ++ [i]
      accounts := r.accounts.add i
      symbols := r.symbols.add i
      nodup_accounts := nodup_accounts_concat (get?_accounts_eq_none_iff.1 h) }

/-- The registry with the instruments of a product, and after them the product. -/
def addProduct (r : Registry) (spec : ProductSpec) : Except RegistryError Registry := do
  let r ← (spec.instruments.map (·.register spec)).foldlM insert r
  return { r with products := r.products ++ [spec.register] }

/-- The registry of a catalog, unless two of its instruments share an account. -/
def ofCatalog (c : Catalog) : Except RegistryError Registry := c.products.foldlM addProduct empty

/-! ## Looking up -/

/-- The place of the instrument a reference names: the one with that account, or else the first with
that symbol. -/
def place? (r : Registry) (reference : String) : Option Nat :=
  r.accounts.places.get? reference <|> r.symbols.places.get? reference

/-- The instrument a reference names. -/
def lookup (r : Registry) (reference : String) : Except RegistryError Instrument :=
  match (r.place? reference).bind (r.instruments[·]?) with
  | some i => .ok i
  | none => .error (.notFound reference)

def size (r : Registry) : Nat := r.instruments.length

theorem mem_of_lookup {r : Registry} {reference : String} {i : Instrument}
    (h : r.lookup reference = .ok i) : i ∈ r.instruments := by
  unfold lookup at h
  split at h
  · next hi =>
    cases h
    obtain ⟨place, -, hplace⟩ := Option.bind_eq_some_iff.1 hi
    exact List.mem_of_getElem? hplace
  · cases h

end Registry

end PriceFeed
