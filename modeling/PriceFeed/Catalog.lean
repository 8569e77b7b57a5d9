import PriceFeed.Keyed

/-!
# Catalogs

A catalog lists products in provisioning order. A product has attributes and price instruments; an
instrument names the publishers that may quote it and how many quotes make a price.
-/

namespace PriceFeed

/-- What the integer prices of an instrument stand for. -/
inductive PriceType where
  | price
  | unknown
  deriving DecidableEq, Repr

namespace PriceType

def name : PriceType → String
  | price => "price"
  | unknown => "unknown"

/-- Any other name is a type that is not interpreted. -/
def ofName (s : String) : PriceType := if s = "price" then price else unknown

end PriceType

/-- A price instrument of a catalog. -/
structure InstrumentSpec where
  account : String
  priceExponent : Int
  priceType : PriceType := .price
  publishers : List String := []
  minPublishers : Nat := 1
  deriving DecidableEq, Repr

/-- A product of a catalog. -/
structure ProductSpec where
  account : String
  attributes : Keyed String := []
  instruments : List InstrumentSpec := []
  deriving DecidableEq, Repr

/-- Products in provisioning order. -/
structure Catalog where
  products : List ProductSpec := []
  deriving DecidableEq, Repr

end PriceFeed
