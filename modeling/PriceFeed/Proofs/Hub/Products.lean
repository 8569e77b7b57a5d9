import PriceFeed.Proofs.Hub.Responses
import PriceFeed.Proofs.Registry
import PriceFeed.Proofs.Requests

/-!
# The list of products

A registry keeps for each product the accounts of its instruments, and the list that peers get is
made by looking these up again. An account finds its own instrument even where it is the symbol of
another one, so nothing is lost or taken for something else on the way: the list is the catalog,
product by product and entry by entry.

    the accounts of a product find its own price entries                   (filterMap_lookup)
    h.productList = the listings of the products of the catalog              (productList_eq)

## Top theorem

    whoever asks for the products is told the catalog                       (products_listed)
-/

namespace PriceFeed

open Json

/-- A price entry as peers are told of it. -/
def InstrumentSpec.listing (spec : InstrumentSpec) : Value :=
  .object [
    ("account", .string spec.account),
    ("price_exponent", .int spec.priceExponent),
    ("price_type", .string spec.priceType.name)]

/-- A product as peers are told of it, with its price entries in order. -/
def ProductSpec.listing (p : ProductSpec) : Value :=
  .object [
    ("account", .string p.account),
    ("attr_dict", .object (p.attributes.map fun a => (a.1, .string a.2))),
    ("price", .array (p.instruments.map (·.listing)))]

namespace Registry

variable {c : Catalog} {r : Registry}

theorem mem_instruments (hr : ofCatalog c = .ok r) {p : ProductSpec} (hp : p ∈ c.products)
    {spec : InstrumentSpec} (hspec : spec ∈ p.instruments) :
    spec.register p ∈ r.instruments := by
  rw [(instruments_of_ofCatalog hr).1]
  exact List.mem_flatMap.2 ⟨p, hp, List.mem_map_of_mem hspec⟩

/-- The accounts of a product find its own price entries. -/
theorem filterMap_lookup (hr : ofCatalog c = .ok r) {p : ProductSpec} (hp : p ∈ c.products) :
    (p.instruments.map (·.account)).filterMap
        (fun account => (r.lookup account).toOption.map Hub.priceEntry) =
      p.instruments.map (·.listing) := by
  have hfound : ∀ spec ∈ p.instruments,
      (r.lookup spec.account).toOption.map Hub.priceEntry = some spec.listing := by
    intro spec hspec
    have hlookup : r.lookup spec.account = .ok (spec.register p) :=
      lookup_account (mem_instruments hr hp hspec)
    rw [hlookup]
    rfl
  rw [List.filterMap_map, ← List.filterMap_eq_map]
  exact List.filterMap_congr hfound

end Registry

namespace Hub

variable {c : Catalog}

/-- The list of products is the catalog. -/
theorem productList_eq {h : Hub} (hr : Registry.ofCatalog c = .ok h.registry) :
    h.productList = .array (c.products.map (·.listing)) := by
  rw [productList, (Registry.instruments_of_ofCatalog hr).2, List.map_map]
  refine congrArg Value.array (List.map_congr_left fun p hp => ?_)
  have hentries := Registry.filterMap_lookup hr hp
  simp only [Function.comp_apply, ProductSpec.register, hentries]
  rfl

theorem judge_getProductList (h : Hub) (publisher : Option String) {v : Value}
    (hrequest : v.IsRequest) (hasks : v.Asks .getProductList) :
    h.judge publisher (.ofValue v) = .ok .products := by
  rcases Envelope.ofValue_cases v with ⟨hno, -⟩ | ⟨-, id, name, hname, hcall⟩
  · exact absurd hrequest hno
  · have hmethod : name = Method.getProductList.name := by
      rw [Value.Asks, hname, Option.some.injEq, Value.string.injEq] at hasks
      exact hasks
    rw [hcall, judge, Method.ofName?_eq_some_iff.2 hmethod]
    rfl

/-! ## Top theorem -/

/-- **Whoever asks for the products is told the catalog:** its products in order, each with its
account, its attributes and one entry for each of its price entries, in order, with their own
accounts, exponents and price types. -/
theorem products_listed {registry : Registry} (hr : Registry.ofCatalog c = .ok registry)
    (policy : Policy) (schedule : SchedulePolicy) (capacity : Nat) (commits : Option CommitQueue)
    (l : List Action) (session : Nat) (earlier : List Value) {item : Value}
    (hrequest : item.IsRequest) (hasks : item.Asks .getProductList) :
    let h := (create registry policy schedule capacity commits).run l
    (h.answerTo session earlier item).outcome =
      .ok (.array (c.products.map (·.listing))) := by
  intro h
  have hstart := regular_create registry policy schedule capacity commits
  have hfollows := (Follows.init (hstart.run l).covers).answerAll (h.publisherOf session)
    (earlier.map .ofValue)
  have hregistry := hfollows.registry.trans (hstart.registry_run l)
  have hlist := productList_eq (hr.trans (congrArg Except.ok hregistry.symm))
  rw [answerTo, answer_eq, judge_getProductList _ _ hrequest hasks]
  exact congrArg Except.ok hlist

/-- An item that asks for the products. -/
def productsItem : Value := .object [("id", .int 1), ("method", .string "get_product_list")]

/-- The second instrument is listed under its own product, though its account is the symbol of the
first one. -/
theorem products_listed_crossed :
    ∃ registry, Registry.ofCatalog Registry.crossedCatalog = .ok registry ∧
      productsItem.IsRequest ∧ productsItem.Asks .getProductList ∧
      (((create registry {} .updateDriven 8 none).run [.openSession none]).answerTo 1 []
        productsItem).outcome = .ok (.array [
          .object [
            ("account", .string "prod-a"),
            ("attr_dict", .object [("symbol", .string "py")]),
            ("price", .array [.object [("account", .string "px"), ("price_exponent", .int (-2)),
              ("price_type", .string "price")]])],
          .object [
            ("account", .string "prod-b"),
            ("attr_dict", .object []),
            ("price", .array [.object [("account", .string "py"), ("price_exponent", .int (-5)),
              ("price_type", .string "unknown")]])]]) := by
  have hnodup : Registry.crossedCatalog.accounts.Nodup := by decide
  obtain ⟨registry, hr⟩ := Registry.exists_ofCatalog_ok_iff.2 hnodup
  have hrequest : productsItem.IsRequest := ⟨⟨_, rfl, rfl⟩, _, rfl⟩
  exact ⟨registry, hr, hrequest, rfl,
    products_listed hr {} .updateDriven 8 none [.openSession none] 1 [] hrequest rfl⟩

end Hub

end PriceFeed
