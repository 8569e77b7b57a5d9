import PriceFeed.Book
import PriceFeed.Text.Quoted

/-!
# The board of all books

The board holds one book for each registered instrument. A submission is refused, and changes
nothing, if its confidence is beyond the range of prices, its account has no book or its publisher
may not quote the instrument, and for the first of these reasons.
-/

namespace PriceFeed

/-- Why a submission is refused. -/
inductive SubmitError where
  | unknownInstrument (account : String)
  | unauthorized (account : String) (publisher : Option String)
  | invalidParams (reason : String)
  deriving DecidableEq, Repr

def SubmitError.message : SubmitError → String
  | unknownInstrument account => s!"unknown instrument: {account}"
  | unauthorized account publisher =>
    s!"publisher {Text.quotedOption publisher} not authorized for {account}"
  | invalidParams reason => s!"invalid params: {reason}"

/-- The books of all instruments and the policy they follow. -/
structure Board where
  policy : Policy
  books : List Book

/-- What an accepted submission did. -/
structure Submitted where
  /-- Whether the aggregate differs from the one before. -/
  changed : Bool
  aggregate : Aggregate
  deriving DecidableEq, Repr

namespace Board

/-- Empty books for all instruments of a registry. -/
def ofRegistry (r : Registry) (policy : Policy) : Board :=
  ⟨policy, r.instruments.map fun i => { instrument := i }⟩

def book? (b : Board) (account : String) : Option Book :=
  b.books.find? (·.account = account)

/-- The board with the book of an account replaced. -/
def setBook (b : Board) (book : Book) : Board :=
  { b with books := b.books.map fun old => if old.account = book.account then book else old }

/-- The greatest confidence: a band of this width still fits around some price. -/
def maxConf : Nat := 9223372036854775807

/-- The book and the publisher that a submission is for, if it is accepted. -/
def accept (b : Board) (account : String) (publisher : Option String) (quote : Quote) :
    Except SubmitError (Book × String) :=
  if maxConf < quote.conf then
    .error (.invalidParams s!"confidence {quote.conf} out of range")
  else
    match b.book? account with
    | none => .error (.unknownInstrument account)
    | some book =>
      match publisher.filter book.instrument.isPublisher with
      | none => .error (.unauthorized account publisher)
      | some p => .ok (book, p)

/-- Submits a quote and returns the board after it. -/
def submit (b : Board) (account : String) (publisher : Option String) (quote : Quote) :
    Except SubmitError (Submitted × Board) :=
  (b.accept account publisher quote).map fun (book, p) =>
    let after := book.submit b.policy p quote
    (⟨after.aggregate ≠ book.aggregate, after.aggregate⟩, b.setBook after)

/-- The aggregate of an instrument. -/
def read (b : Board) (account : String) : Except SubmitError Aggregate :=
  match b.book? account with
  | some book => .ok book.aggregate
  | none => .error (.unknownInstrument account)

/-- The quote of a publisher that stands in the book of an instrument. -/
def quote? (b : Board) (account publisher : String) : Option StandingQuote :=
  (b.book? account).bind fun book => book.quotes.get? publisher

end Board

end PriceFeed
