import PriceFeed.Catalog
import PriceFeed.Json.Value

/-!
# Reading catalogs

A record of a catalog is an object or an array of its fields in order. In an object each known
field stands at most once and unknown ones are passed over whatever they hold; in an array fields
with a default may be left off the end. Integers are written as such and in range, and a price type
is its name, or an object with that name as its only member and the value null.
-/

namespace PriceFeed

open Json

/-- How a field of type `α` is read. -/
abbrev FieldReader (α : Type) := Document → Option α

namespace FieldReader

def text : FieldReader String
  | .string s => text? s
  | _ => none

def integer (range : IntRange) : FieldReader Int
  | .number n => n.value?.bind (·.intIn? range)
  | _ => none

def natural (range : IntRange) : FieldReader Nat := fun d => (integer range d).map Int.toNat

def list {α : Type} (item : FieldReader α) : FieldReader (List α)
  | .array items => items.mapM item
  | _ => none

/-- A table of texts; of two entries with one key the later counts. -/
def table : FieldReader (Keyed String)
  | .object members =>
    (members.mapM fun (name, d) => do return (← text? name, ← text d)).map Keyed.ofList
  | _ => none

def priceType : FieldReader PriceType
  | .string s => (text? s).map PriceType.ofName
  | .object [(name, .null)] => (text? name).map PriceType.ofName
  | _ => none

end FieldReader

/-- The documents of the fields `names` in a record; `none` where a field is absent. -/
def recordFields? (names : List String) : Document → Option (List (Option Document))
  | .object members => do
    let named ← members.mapM fun (name, d) => do return (← text? name, d)
    names.mapM fun name =>
      match named.filter (·.1 = name) with
      | [] => some none
      | [(_, d)] => some (some d)
      | _ => none
  | .array items =>
    if items.length ≤ names.length then
      some (items.map some ++ List.replicate (names.length - items.length) none)
    else none
  | _ => none

/-- A field that must be there. -/
def required? {α : Type} (read : FieldReader α) (field : Option Document) : Option α :=
  field.bind read

/-- A field that may be absent and then has a value of its own. -/
def optional? {α : Type} (default : α) (read : FieldReader α) : Option Document → Option α
  | none => some default
  | some d => read d

def InstrumentSpec.fieldNames : List String :=
  ["account", "price_exponent", "price_type", "publishers", "min_publishers"]

def InstrumentSpec.ofDocument? (d : Document) : Option InstrumentSpec := do
  match ← recordFields? fieldNames d with
  | [account, exponent, priceType, publishers, minPublishers] =>
    return {
      account := ← required? .text account
      priceExponent := ← required? (.integer .signed32) exponent
      priceType := ← optional? .price .priceType priceType
      publishers := ← optional? [] (.list .text) publishers
      minPublishers := ← optional? 1 (.natural .unsigned8) minPublishers }
  | _ => none

def ProductSpec.fieldNames : List String := ["account", "attr_dict", "price"]

def ProductSpec.ofDocument? (d : Document) : Option ProductSpec := do
  match ← recordFields? fieldNames d with
  | [account, attributes, instruments] =>
    return {
      account := ← required? .text account
      attributes := ← optional? [] .table attributes
      instruments := ← optional? [] (.list InstrumentSpec.ofDocument?) instruments }
  | _ => none

def Catalog.ofDocument? (d : Document) : Option Catalog := do
  match ← recordFields? ["products"] d with
  | [products] => return { products := ← optional? [] (.list ProductSpec.ofDocument?) products }
  | _ => none

/-- Reads the text of a catalog file. -/
def Catalog.parse? (text : String) : Option Catalog :=
  (Document.parse? text.toList).bind ofDocument?

end PriceFeed
