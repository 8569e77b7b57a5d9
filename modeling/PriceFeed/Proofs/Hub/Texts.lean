import PriceFeed.Proofs.Hub.Responses
import PriceFeed.Proofs.Json.Written

/-!
# Notifications as texts

A notification is one text, and all that it tells can be read back from it: its method, the id of
the subscription, and for a price each field of the aggregate, with all its digits. So two texts are
the same only if they tell the same. What kind of text it is stands at its start, which no other
kind shares.

    a price notification is read as its id and aggregate                   (parse?_render_price)
    messages with one text are of one kind                               (textKind_eq_of_render_eq)

## Top theorem

    the text of a price notification tells its id and aggregate                      (price_text)
-/

namespace PriceFeed

open Json

/-! ## Aggregates -/

/-- The fields of an aggregate fit 64 bits. -/
structure Aggregate.Fits (a : Aggregate) : Prop where
  price : a.price ∈ IntRange.signed64
  conf : (a.conf : Int) ∈ IntRange.unsigned64
  twap : a.twap ∈ IntRange.signed64
  twac : (a.twac : Int) ∈ IntRange.unsigned64

/-- What the text of an aggregate is read as. -/
def Aggregate.table (a : Aggregate) : Value :=
  .object [("conf", .int a.conf), ("price", .int a.price), ("status", .string a.status.name),
    ("twac", .int a.twac), ("twap", .int a.twap)]

theorem Status.name_inj {s t : Status} : s.name = t.name ↔ s = t := by
  constructor
  · intro h
    have hs : ofName? s.name = some s := ofName?_eq_some_iff.2 rfl
    have ht : ofName? s.name = some t := ofName?_eq_some_iff.2 h
    exact Option.some.inj (hs.symm.trans ht)
  · exact congrArg name

theorem Aggregate.table_inj {a b : Aggregate} : a.table = b.table ↔ a = b := by
  obtain ⟨price, conf, status, twap, twac⟩ := a
  obtain ⟨price', conf', status', twap', twac'⟩ := b
  simp only [table, Value.object.injEq, List.cons.injEq, Prod.mk.injEq, Value.int.injEq,
    Value.string.injEq, Status.name_inj, Int.natCast_inj, Aggregate.mk.injEq, true_and, and_true]
  tauto

theorem Aggregate.readAs_table {a : Aggregate} (ha : a.Fits) : a.toJson.ReadAs a.table := by
  have hmembers : List.Forall₂ (fun m e => m.1 = e.1 ∧ m.2.ReadAs e.2)
      [("price", Value.int a.price), ("conf", .int a.conf), ("status", .string a.status.name),
        ("twap", .int a.twap), ("twac", .int a.twac)]
      [("price", .int a.price), ("conf", .int a.conf), ("status", .string a.status.name),
        ("twap", .int a.twap), ("twac", .int a.twac)] :=
    .cons ⟨rfl, .of_exact (.int (.inl ha.price))⟩ <|
      .cons ⟨rfl, .of_exact (.int (.inr ha.conf))⟩ <|
      .cons ⟨rfl, .of_exact (.string _)⟩ <|
      .cons ⟨rfl, .of_exact (.int (.inl ha.twap))⟩ <|
      .cons ⟨rfl, .of_exact (.int (.inr ha.twac))⟩ .nil
  refine .object hmembers ?_
    ((List.Perm.swap ..).trans ((((List.Perm.swap ..).cons _).cons _).cons _))
  show ["conf", "price", "status", "twac", "twap"].Pairwise (· < ·)
  decide

/-! ## Reading -/

namespace Message

/-- What the text of a price notification is read as. -/
def priceTable (id : Nat) (a : Aggregate) : Value :=
  .object [("jsonrpc", .string "2.0"), ("method", .string "notify_price"),
    ("params", .object [("result", a.table), ("subscription", .int id)])]

theorem readAs_priceTable {id : Nat} {a : Aggregate} (hid : (id : Int) ∈ IntRange.unsigned64)
    (ha : a.Fits) : (price id a).toJson.ReadAs (priceTable id a) := by
  have hresult : List.Forall₂ (fun m e => m.1 = e.1 ∧ m.2.ReadAs e.2)
      [("subscription", Value.int id), ("result", a.toJson)]
      [("subscription", .int id), ("result", a.table)] :=
    .cons ⟨rfl, .of_exact (.int (.inr hid))⟩ (.cons ⟨rfl, Aggregate.readAs_table ha⟩ .nil)
  have hparams : (Value.object [("subscription", .int id), ("result", a.toJson)]).ReadAs
      (.object [("result", a.table), ("subscription", .int id)]) := by
    refine .object hresult ?_ (.swap ..)
    show ["result", "subscription"].Pairwise (· < ·)
    decide
  have hmembers : List.Forall₂ (fun m e => m.1 = e.1 ∧ m.2.ReadAs e.2)
      [("jsonrpc", Value.string protocolVersion), ("method", .string "notify_price"),
        ("params", .object [("subscription", .int id), ("result", a.toJson)])]
      [("jsonrpc", .string "2.0"), ("method", .string "notify_price"),
        ("params", .object [("result", a.table), ("subscription", .int id)])] :=
    .cons ⟨rfl, .of_exact (.string _)⟩ <| .cons ⟨rfl, .of_exact (.string _)⟩ <|
      .cons ⟨rfl, hparams⟩ .nil
  refine .object hmembers ?_ (.refl _)
  show ["jsonrpc", "method", "params"].Pairwise (· < ·)
  decide

theorem parse?_render_price {id : Nat} {a : Aggregate} (hid : (id : Int) ∈ IntRange.unsigned64)
    (ha : a.Fits) : Value.parse? (price id a).render = some (priceTable id a) := by
  have hdepth : (price id a).toJson.document.depth = 3 := rfl
  exact (readAs_priceTable hid ha).parse?_render (by rw [hdepth]; decide)

theorem priceTable_inj {id id' : Nat} {a a' : Aggregate} :
    priceTable id a = priceTable id' a' ↔ id = id' ∧ a = a' := by
  simp only [priceTable, Value.object.injEq, List.cons.injEq, Prod.mk.injEq, Value.int.injEq,
    Aggregate.table_inj, Int.natCast_inj, true_and, and_true]
  exact and_comm

/-! ## Openings -/

/-- The kinds of texts that peers are sent. -/
inductive TextKind where
  | result
  | error
  | batch
  | price
  | schedule
deriving DecidableEq

/-- What a text starts with, whatever its ids and values are. -/
def TextKind.opening : TextKind → String
  | result => "\x7b\"jsonrpc\":\"2.0\",\"" ++ "result" ++ "\":"
  | error => "\x7b\"jsonrpc\":\"2.0\",\"" ++ "error" ++ "\":"
  | batch => "["
  | price => "\x7b\"jsonrpc\":\"2.0\",\"method\":\"" ++ "notify_price" ++ "\",\"params\":"
  | schedule =>
    "\x7b\"jsonrpc\":\"2.0\",\"method\":\"" ++ "notify_price_sched" ++ "\",\"params\":"

/-- No opening goes on where another one ends. -/
theorem TextKind.eq_of_opening_prefix {k k' : TextKind}
    (h : k.opening.toList <+: k'.opening.toList) : k = k' := by
  revert h
  cases k <;> cases k' <;> decide

def textKind : Message → TextKind
  | reply (.single ⟨_, .ok _⟩) => .result
  | reply (.single ⟨_, .error _⟩) => .error
  | reply (.batch _) => .batch
  | price .. => .price
  | schedule _ => .schedule

/-- The text of a notification whose method needs no escapes. -/
theorem render_notification {method : String}
    (hmethod : writeString method = '"' :: method.toList ++ ['"']) (params : Value) :
    (notification method params).render = "\x7b\"jsonrpc\":\"2.0\",\"method\":\"" ++ method ++
      "\",\"params\":" ++ (params.render ++ "\x7d") := by
  have hkey : writeString "jsonrpc" = "\"jsonrpc\"".toList := by decide
  have hversion : writeString protocolVersion = "\"2.0\"".toList := by decide
  have hname : writeString "method" = "\"method\"".toList := by decide
  have hparams : writeString "params" = "\"params\"".toList := by decide
  rw [← String.toList_inj]
  simp only [String.toList_append, Value.toList_render, notification, Value.write, writeMembers,
    hkey, hversion, hname, hmethod, hparams]
  simp

theorem exists_render_eq (m : Message) : ∃ rest, m.render = m.textKind.opening ++ rest := by
  cases m with
  | reply r =>
    cases r with
    | single r =>
      have hrender : (reply (.single r)).render = _ := r.render_toJson
      rw [hrender, String.append_assoc, String.append_assoc, String.append_assoc]
      obtain ⟨id, outcome⟩ := r
      cases outcome <;> exact ⟨_, rfl⟩
    | batch rs =>
      have hrender : (reply (.batch rs)).render =
          "[" ++ ",".intercalate ((rs.map Response.toJson).map Value.render) ++ "]" :=
        Value.render_array _
      exact ⟨_, hrender.trans (String.append_assoc ..)⟩
  | price id a => exact ⟨_, render_notification (by decide) _⟩
  | schedule id => exact ⟨_, render_notification (by decide) _⟩

theorem opening_prefix (m : Message) : m.textKind.opening.toList <+: m.render.toList := by
  obtain ⟨rest, hrender⟩ := m.exists_render_eq
  rw [hrender, String.toList_append]
  exact List.prefix_append ..

/-- Messages with one text are of one kind. -/
theorem textKind_eq_of_render_eq {m m' : Message} (h : m.render = m'.render) :
    m.textKind = m'.textKind := by
  have hopening := m.opening_prefix
  rw [h] at hopening
  rcases List.prefix_or_prefix_of_prefix hopening m'.opening_prefix with hbefore | hbefore
  · exact TextKind.eq_of_opening_prefix hbefore
  · exact (TextKind.eq_of_opening_prefix hbefore).symm

theorem textKind_reply_ne (r : Reply) : (reply r).textKind ≠ .price := by
  intro h
  cases r with
  | single r =>
    obtain ⟨id, outcome⟩ := r
    cases outcome <;> cases h
  | batch rs => cases h

/-! ## Top theorem -/

/-- **The text of a price notification.** It is read as its id and all fields of the aggregate, with
their exact values. So two of them are the same text only if they tell the same, and none is the
text of a schedule notification or of a reply. -/
theorem price_text (id : Nat) (a : Aggregate) (hid : (id : Int) ∈ IntRange.unsigned64)
    (ha : a.Fits) :
    Value.parse? (price id a).render = some (.object [
        ("jsonrpc", .string "2.0"),
        ("method", .string "notify_price"),
        ("params", .object [
          ("result", .object [
            ("conf", .int a.conf),
            ("price", .int a.price),
            ("status", .string a.status.name),
            ("twac", .int a.twac),
            ("twap", .int a.twap)]),
          ("subscription", .int id)])]) ∧
      (∀ (id' : Nat) (a' : Aggregate), (id' : Int) ∈ IntRange.unsigned64 → a'.Fits →
        (price id' a').render = (price id a).render → id' = id ∧ a' = a) ∧
      (∀ id', (schedule id').render ≠ (price id a).render) ∧
      ∀ r, (reply r).render ≠ (price id a).render := by
  refine ⟨parse?_render_price hid ha, fun id' a' hid' ha' h => ?_, fun id' h => ?_, fun r h => ?_⟩
  · have hparse := parse?_render_price hid' ha'
    rw [h, parse?_render_price hid ha, Option.some.injEq] at hparse
    exact priceTable_inj.1 hparse.symm
  · exact TextKind.noConfusion (textKind_eq_of_render_eq h)
  · exact textKind_reply_ne r (textKind_eq_of_render_eq h)

/-- The widest values are read with all their digits, and a price that differs by one has another
text. -/
theorem price_text_widest :
    let a : Aggregate :=
      ⟨-9223372036854775808, 18446744073709551615, .halted, 9223372036854775807, 0⟩
    let m := price 18446744073709551615 a
    a.Fits ∧
      Value.parse? m.render = some (.object [
        ("jsonrpc", .string "2.0"),
        ("method", .string "notify_price"),
        ("params", .object [
          ("result", .object [
            ("conf", .int 18446744073709551615),
            ("price", .int (-9223372036854775808)),
            ("status", .string "halted"),
            ("twac", .int 0),
            ("twap", .int 9223372036854775807)]),
          ("subscription", .int 18446744073709551615)])]) ∧
      (price 18446744073709551615 { a with price := -9223372036854775807 }).render ≠ m.render ∧
      (schedule 18446744073709551615).render ≠ m.render ∧
      (reply (.batch [])).render ≠ m.render := by
  intro a m
  have hfits : a.Fits := ⟨by decide, by decide, by decide, by decide⟩
  obtain ⟨hparse, hinj, hschedule, hreply⟩ := price_text 18446744073709551615 a (by decide) hfits
  refine ⟨hfits, hparse, fun h => ?_, hschedule _, hreply _⟩
  have hsame := (hinj _ _ (by decide) ⟨by decide, by decide, by decide, by decide⟩ h).2
  exact absurd (congrArg Aggregate.price hsame) (by decide)

end Message

end PriceFeed
