import PriceFeed.Book
import PriceFeed.Catalog.Reader
import PriceFeed.Text.Utf8

/-!
# Stores

A store is where the catalog comes from and where changed aggregates are committed to. It keeps the
last aggregate committed for each instrument, and may refuse a commit; a refused one leaves nothing
behind.

    (s.commit c).committed? c.account = some c.aggregate                 (committed?_commit_self)
    a ≠ c.account → (s.commit c).committed? a = s.committed? a           (committed?_commit_of_ne)
-/

namespace PriceFeed

/-- An aggregate to be recorded for an instrument. -/
structure Commit where
  account : String
  aggregate : Aggregate
  deriving DecidableEq, Repr

/-- A commit passed to the store, and whether the store took it. -/
structure CommitAttempt where
  commit : Commit
  accepted : Bool
  deriving DecidableEq, Repr

/-- Why a store has no answer. -/
inductive StoreError where
  | catalogRead (path message : String)
  | catalogParse (message : String)
  | commitFailed (account message : String)
  deriving DecidableEq, Repr

def StoreError.message : StoreError → String
  | catalogRead path message => s!"failed to read catalog {path}: {message}"
  | catalogParse message => s!"invalid catalog: {message}"
  | commitFailed account message => s!"commit failed for {account}: {message}"

/-- The catalog in the bytes of the file at `path`. -/
def Catalog.ofBytes (path : String) (bytes : List UInt8) : Except StoreError Catalog :=
  match Text.decode? bytes with
  | none => .error (.catalogRead path "not UTF-8 text")
  | some text =>
    match Catalog.parse? text with
    | none => .error (.catalogParse "not a list of products")
    | some catalog => .ok catalog

/-- The last aggregate committed for each instrument. -/
structure Store where
  committed : Keyed Aggregate := []

namespace Store

def committed? (s : Store) (account : String) : Option Aggregate := s.committed.get? account

def commit (s : Store) (c : Commit) : Store := ⟨s.committed.put c.account c.aggregate⟩

/-- The store after some attempts, of which it took the accepted ones. -/
def absorb (s : Store) (attempts : List CommitAttempt) : Store :=
  attempts.foldl (fun s a => if a.accepted then s.commit a.commit else s) s

@[simp] theorem committed?_commit_self (s : Store) (c : Commit) :
    (s.commit c).committed? c.account = some c.aggregate :=
  Keyed.get?_put_self ..

theorem committed?_commit_of_ne {account : String} {c : Commit} (h : account ≠ c.account)
    (s : Store) : (s.commit c).committed? account = s.committed? account :=
  Keyed.get?_put_of_ne h ..

end Store

end PriceFeed
