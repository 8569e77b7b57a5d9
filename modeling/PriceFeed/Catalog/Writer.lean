import PriceFeed.Catalog
import PriceFeed.Json.Writer

/-!
# Writing catalogs

A catalog is written as nested objects with all their fields, in order.
-/

namespace PriceFeed

open Json

def InstrumentSpec.toJson (i : InstrumentSpec) : Value :=
  .object [
    ("account", .string i.account),
    ("price_exponent", .int i.priceExponent),
    ("price_type", .string i.priceType.name),
    ("publishers", .array (i.publishers.map .string)),
    ("min_publishers", .int i.minPublishers)]

def ProductSpec.toJson (p : ProductSpec) : Value :=
  .object [
    ("account", .string p.account),
    ("attr_dict", .object (p.attributes.map fun (name, text) => (name, .string text))),
    ("price", .array (p.instruments.map InstrumentSpec.toJson))]

def Catalog.toJson (c : Catalog) : Value :=
  .object [("products", .array (c.products.map ProductSpec.toJson))]

/-- The text of a catalog file. -/
def Catalog.render (c : Catalog) : String := c.toJson.render

end PriceFeed
