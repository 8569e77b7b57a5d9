import Mathlib
import PriceFeed.Proofs.Hub.Feed
import PriceFeed.Proofs.Requests

/-!
# Which error an item is refused with

An item of a payload has to pass six checks, each with its own error code. It is refused just when
one of them fails, and with the code of the first that does; then nothing has changed but counts.
That it can only be the publisher that the board objects to is due to the books: there is one for
every registered instrument, and what is read from params has its confidence in range.

    codeOf? (h.judge publisher (ofValue v)) = some code ↔ FailsFirst (h.checks publisher v) code
                                                                              (codeOf?_judge)

## Top theorem

    an item is refused with the code of the first check that fails        (refused_by_first_check)
-/

namespace PriceFeed

open Json

/-! ## Checks -/

/-- A condition on an item and the error code of an item that does not meet it. -/
structure Check where
  holds : Prop
  code : Int

/-- Of the checks in order, the first that fails has this code. -/
inductive FailsFirst : List Check → Int → Prop
  | here {check : Check} {rest : List Check} :
    ¬ check.holds → FailsFirst (check :: rest) check.code
  | later {check : Check} {rest : List Check} {code : Int} :
    check.holds → FailsFirst rest code → FailsFirst (check :: rest) code

theorem not_failsFirst_nil (code : Int) : ¬ FailsFirst [] code := nofun

theorem failsFirst_cons_iff {check : Check} {rest : List Check} {code : Int} :
    FailsFirst (check :: rest) code ↔
      ¬ check.holds ∧ check.code = code ∨ check.holds ∧ FailsFirst rest code := by
  constructor
  · intro h
    cases h with
    | here hfails => exact .inl ⟨hfails, rfl⟩
    | later hholds hrest => exact .inr ⟨hholds, hrest⟩
  · rintro (⟨hfails, rfl⟩ | ⟨hholds, hrest⟩)
    · exact .here hfails
    · exact .later hholds hrest

theorem failsFirst_cons_of_holds {check : Check} (hholds : check.holds) {rest : List Check}
    {code : Int} : FailsFirst (check :: rest) code ↔ FailsFirst rest code := by
  rw [failsFirst_cons_iff, and_iff_right hholds]
  exact or_iff_right fun h => h.1 hholds

theorem failsFirst_cons_of_not {check : Check} (hfails : ¬ check.holds) {rest : List Check}
    {code : Int} : FailsFirst (check :: rest) code ↔ check.code = code := by
  rw [failsFirst_cons_iff, and_iff_right hfails]
  exact or_iff_left fun h => hfails h.1

/-- If a check fails, some check is the first to fail. -/
theorem exists_failsFirst_iff {checks : List Check} :
    (∃ code, FailsFirst checks code) ↔ ∃ check ∈ checks, ¬ check.holds := by
  induction checks with
  | nil => exact iff_of_false (fun ⟨code, h⟩ => not_failsFirst_nil code h) (by simp)
  | cons check rest ih =>
    by_cases hholds : check.holds
    · simp only [failsFirst_cons_of_holds hholds, List.exists_mem_cons_iff, hholds,
        not_true_eq_false, false_or]
      exact ih
    · exact iff_of_true ⟨check.code, .here hholds⟩ ⟨check, List.mem_cons_self, hholds⟩

/-! ## Codes -/

/-- The error code of an outcome, if it is an error. -/
def codeOf? {α : Type} : Except RpcError α → Option Int
  | .ok _ => none
  | .error e => some e.code

/-- A step that makes the first check, and goes on to make the others. -/
theorem codeOf?_bind {α β : Type} {x : Except RpcError α} {f : α → Except RpcError β}
    {check : Check} {rest : List Check} {code : Int}
    (hok : ∀ a, x = .ok a →
      check.holds ∧ (codeOf? (f a) = some code ↔ FailsFirst rest code))
    (herror : ∀ e, x = .error e → ¬ check.holds ∧ e.code = check.code) :
    codeOf? (x >>= f) = some code ↔ FailsFirst (check :: rest) code := by
  cases hx : x with
  | error e =>
    obtain ⟨hfails, hcode⟩ := herror e hx
    rw [failsFirst_cons_of_not hfails, ← hcode]
    exact Option.some_inj
  | ok a =>
    obtain ⟨hholds, hrest⟩ := hok a hx
    rw [failsFirst_cons_of_holds hholds]
    exact hrest

namespace Hub

/-- The params of an item name the instrument. -/
def Names (h : Hub) (params : Option Value) (i : Instrument) : Prop :=
  ∃ reference, param? params "account" = some (.string reference) ∧
    h.registry.lookup reference = .ok i

/-- The params of an item name an instrument which the publisher may quote. -/
def Authorizes (h : Hub) (publisher : Option String) (params : Option Value) : Prop :=
  ∃ i p, h.Names params i ∧ publisher = some p ∧ i.isPublisher p = true

/-- The checks on an item that a publisher sends, in order. -/
def checks (h : Hub) (publisher : Option String) (v : Value) : List Check :=
  let params := v.get? "params"
  [⟨v.IsRequest, -32600⟩,
    ⟨∃ m, v.Asks m, -32601⟩,
    ⟨((∃ channel : Channel, v.Asks channel.method) → HasAccount params) ∧
      (v.Asks .updatePrice → HasQuote params), -32602⟩,
    ⟨¬ v.Asks .getProductList → ∃ i, h.Names params i, -32000⟩,
    ⟨v.Asks .updatePrice → h.isReady = true, -32002⟩,
    ⟨v.Asks .updatePrice → h.Authorizes publisher params, -32001⟩]

/-! ## Verdicts -/

theorem names_iff {h : Hub} {params : Option Value} {reference : String}
    (haccount : param? params "account" = some (.string reference)) (i : Instrument) :
    h.Names params i ↔ h.registry.lookup reference = .ok i := by
  unfold Names
  constructor
  · rintro ⟨reference', haccount', hlookup⟩
    rw [haccount, Option.some.injEq, Value.string.injEq] at haccount'
    exact haccount' ▸ hlookup
  · exact fun hlookup => ⟨reference, haccount, hlookup⟩

/-- The step that looks up the instrument checks that there is one. -/
theorem codeOf?_lookup {h : Hub} {params : Option Value} {reference : String}
    (haccount : param? params "account" = some (.string reference)) {rest : List Check}
    {code : Int} {f : Instrument → Except RpcError Grant}
    (hrest : ∀ i, h.registry.lookup reference = .ok i →
      (codeOf? (f i) = some code ↔ FailsFirst rest code)) :
    codeOf? ((h.registry.lookup reference).mapError (·.toRpc) >>= f) = some code ↔
      FailsFirst (⟨∃ i, h.Names params i, -32000⟩ :: rest) code := by
  refine codeOf?_bind (fun i hi => ?_) fun e he => ?_
  · have hlookup := mapError_eq_ok_iff.1 hi
    exact ⟨⟨i, (names_iff haccount i).2 hlookup⟩, hrest i hlookup⟩
  · obtain ⟨e', hlookup, rfl⟩ := mapError_eq_error_iff.1 he
    refine ⟨?_, by cases e' <;> rfl⟩
    rintro ⟨i, hi⟩
    rw [names_iff haccount, hlookup] at hi
    cases hi

theorem codeOf?_judgeSubscription (h : Hub) (channel : Channel) (params : Option Value)
    (code : Int) :
    codeOf? (h.judgeSubscription channel params) = some code ↔
      FailsFirst [⟨HasAccount params, -32602⟩, ⟨∃ i, h.Names params i, -32000⟩] code := by
  refine codeOf?_bind (fun read hread => ?_) fun e he => ?_
  · refine ⟨hasAccount_iff.2 ⟨read, hread⟩, ?_⟩
    refine codeOf?_lookup (SubscribeParams.read_eq_ok_iff.1 hread) fun i _ => ?_
    exact iff_of_false nofun (not_failsFirst_nil code)
  · rw [hasAccount_iff, he]
    exact ⟨nofun, by rw [readParams_eq_error he]; rfl⟩

/-- Of a registered instrument and a quote with its confidence in range, the board can only object
to the publisher. -/
theorem codeOf?_submit {h : Hub} (hc : h.board.Covers h.registry) {publisher : Option String}
    {params : Option Value} {read : UpdateParams} (hread : UpdateParams.read params = .ok read)
    {i : Instrument} (hlookup : h.registry.lookup read.account = .ok i) {code : Int}
    {f : Submitted × Board → Except RpcError Grant} (hf : ∀ done, codeOf? (f done) = none) :
    codeOf? ((h.board.submit i.account publisher read.quote).mapError (·.toRpc) >>= f) =
        some code ↔
      FailsFirst [⟨h.Authorizes publisher params, -32001⟩] code := by
  obtain ⟨haccount, -, ⟨hconf, -⟩, -⟩ := UpdateParams.read_eq_ok_iff.1 hread
  have hauthorizes : h.Authorizes publisher params ↔
      ∃ p, publisher = some p ∧ i.isPublisher p = true := by
    simp [Authorizes, names_iff haccount, hlookup]
  have hsubmit : ∀ e, h.board.submit i.account publisher read.quote = .error e ↔
      e = .unauthorized i.account publisher ∧
        ¬ ∃ p, publisher = some p ∧ i.isPublisher p = true := fun _ =>
    hc.submit_eq_error_iff (Registry.mem_of_lookup hlookup) hconf
  refine codeOf?_bind (fun done hdone => ⟨?_, ?_⟩) fun e he => ?_
  · have hdone := mapError_eq_ok_iff.1 hdone
    refine hauthorizes.2 (by_contra fun hnobody => ?_)
    rw [(hsubmit _).2 ⟨rfl, hnobody⟩] at hdone
    cases hdone
  · rw [hf]
    exact iff_of_false nofun (not_failsFirst_nil code)
  · obtain ⟨e', hresult, rfl⟩ := mapError_eq_error_iff.1 he
    obtain ⟨rfl, hnobody⟩ := (hsubmit e').1 hresult
    exact ⟨fun hyes => hnobody (hauthorizes.1 hyes), rfl⟩

theorem codeOf?_judgeUpdate {h : Hub} (hc : h.board.Covers h.registry) (publisher : Option String)
    (params : Option Value) (code : Int) :
    codeOf? (h.judgeUpdate publisher params) = some code ↔
      FailsFirst [⟨HasQuote params, -32602⟩, ⟨∃ i, h.Names params i, -32000⟩,
        ⟨h.isReady = true, -32002⟩, ⟨h.Authorizes publisher params, -32001⟩] code := by
  refine codeOf?_bind (fun read hread => ?_) fun e he => ?_
  · refine ⟨hasQuote_iff.2 ⟨read, hread⟩, ?_⟩
    refine codeOf?_lookup (UpdateParams.read_eq_ok_iff.1 hread).1 fun i hlookup => ?_
    cases h.isReady with
    | false =>
      rw [failsFirst_cons_of_not Bool.false_ne_true]
      exact Option.some_inj
    | true =>
      rw [failsFirst_cons_of_holds rfl]
      exact codeOf?_submit hc hread hlookup fun _ => rfl
  · rw [hasQuote_iff, he]
    exact ⟨nofun, by rw [readParams_eq_error he]; rfl⟩

theorem exists_channel_iff {m : Method} :
    (∃ channel : Channel, channel.method = m) ↔ m = .subscribePrice ∨ m = .subscribePriceSched := by
  constructor
  · rintro ⟨channel, rfl⟩
    cases channel
    · exact .inl rfl
    · exact .inr rfl
  · rintro (rfl | rfl)
    · exact ⟨.price, rfl⟩
    · exact ⟨.schedule, rfl⟩

/-- The verdict on an item follows its checks. -/
theorem codeOf?_judge {h : Hub} (hc : h.board.Covers h.registry) (publisher : Option String)
    (v : Value) (code : Int) :
    codeOf? (h.judge publisher (.ofValue v)) = some code ↔
      FailsFirst (h.checks publisher v) code := by
  rcases Envelope.ofValue_cases v with ⟨hno, id, hv⟩ | ⟨hyes, id, name, hname, hv⟩
  · rw [hv, checks, failsFirst_cons_of_not hno]
    exact Option.some_inj
  · rw [hv, checks, failsFirst_cons_of_holds hyes]
    simp only [judge]
    cases hmethod : Method.ofName? name with
    | none =>
      have hnone : ¬ ∃ m, v.Asks m := by
        rintro ⟨m, hm⟩
        rw [Value.Asks, hname, Option.some.injEq, Value.string.injEq] at hm
        rw [Method.ofName?_eq_some_iff.2 hm] at hmethod
        cases hmethod
      rw [failsFirst_cons_of_not hnone]
      exact Option.some_inj
    | some m =>
      have hasks : v.Asks m := by
        rw [Value.Asks, hname, Method.ofName?_eq_some_iff.1 hmethod]
      have hsome : ∃ m, v.Asks m := ⟨m, hasks⟩
      rw [failsFirst_cons_of_holds hsome]
      simp only [hasks.iff, exists_channel_iff, judgeCall]
      -- what is left are the checks that the method asks for
      cases m with
      | getProductList => simp [codeOf?, failsFirst_cons_iff, not_failsFirst_nil]
      | subscribePrice =>
        rw [codeOf?_judgeSubscription]
        simp [failsFirst_cons_iff, not_failsFirst_nil]
      | subscribePriceSched =>
        rw [codeOf?_judgeSubscription]
        simp [failsFirst_cons_iff, not_failsFirst_nil]
      | updatePrice =>
        rw [codeOf?_judgeUpdate hc]
        simp [failsFirst_cons_iff, not_failsFirst_nil]

/-! ## Answers -/

theorem codeOf?_answer (p : Progress) (publisher : Option String) (item : Envelope) :
    codeOf? (answer p publisher item).1.outcome = codeOf? (p.hub.judge publisher item) := by
  rw [answer_eq]
  cases p.hub.judge publisher item <;> rfl

/-- Nothing was done but counting. -/
structure Progress.Untouched (p p' : Progress) : Prop where
  board : p'.hub.board = p.hub.board
  subscriptions : p'.hub.subscriptions = p.hub.subscriptions
  commits : p'.hub.commits = p.hub.commits
  pending : p'.pending = p.pending
  posts : p'.posts = p.posts

/-- A refused item leaves all as it was. -/
theorem untouched_of_refused {p : Progress} {publisher : Option String} {item : Envelope}
    (hrefused : codeOf? (answer p publisher item).1.outcome ≠ none) :
    p.Untouched (answer p publisher item).2 := by
  rw [codeOf?_answer] at hrefused
  rw [answer_eq]
  cases hjudge : p.hub.judge publisher item with
  | ok grant =>
    rw [hjudge] at hrefused
    exact absurd rfl hrefused
  | error e =>
    have hlike := (like_countMethod p.hub item).trans (like_count (s := .errors e) _ rfl)
    exact ⟨hlike.board, hlike.subscriptions, hlike.commits, rfl, rfl⟩

/-- **An item is refused just when one of its checks fails, with the code of the first that does**,
in every run, for every session and at any place in a payload. The board then never objects to
account or confidence, and a refused item leaves all as it was. -/
theorem refused_by_first_check (registry : Registry) (policy : Policy) (schedule : SchedulePolicy)
    (capacity : Nat) (commits : Option CommitQueue) (l : List Action) (session : Nat)
    {text : String} {payload v : Value} {earlier later : List Value}
    (hparse : Value.parse? text = some payload) (hitems : payload.items = earlier ++ v :: later) :
    let h := (create registry policy schedule capacity commits).run l
    let publisher := h.publisherOf session
    let before := (answerAll { hub := h } publisher (earlier.map .ofValue)).2
    let answered := answer before publisher (.ofValue v)
    let code? := codeOf? answered.1.outcome
    (h.replyTo session text).responses[earlier.length]? = some answered.1 ∧
      h.progressOf session text =
        (answerAll answered.2 publisher (later.map .ofValue)).2 ∧
      (code? ≠ none ↔ ∃ check ∈ before.hub.checks publisher v, ¬ check.holds) ∧
      (∀ code, code? = some code ↔ FailsFirst (before.hub.checks publisher v) code) ∧
      (∀ read i e, UpdateParams.read (v.get? "params") = .ok read →
        before.hub.registry.lookup read.account = .ok i →
        before.hub.board.submit i.account publisher read.quote = .error e →
        e = .unauthorized i.account publisher) ∧
      (code? ≠ none → before.Untouched answered.2) := by
  intro h publisher before answered code?
  have hregular : h.Regular := (regular_create registry policy schedule capacity commits).run l
  have hfollows : Follows h before :=
    (Follows.init hregular.covers).answerAll publisher (earlier.map .ofValue)
  have hcovers : before.hub.board.Covers before.hub.registry := by
    rw [hfollows.registry]
    exact hfollows.covers
  have hcode : ∀ code, code? = some code ↔ FailsFirst (before.hub.checks publisher v) code := by
    intro code
    rw [← codeOf?_judge hcovers, ← codeOf?_answer]
  -- the item stands in the reply at its own place
  have hreply := h.reply_items publisher hparse (by rw [hitems]; simp)
  rw [hitems, List.map_append, answerAll_append, List.map_cons] at hreply
  obtain ⟨hresponses, hprogress⟩ := Prod.mk.inj hreply
  refine ⟨?_, hprogress, ?_, hcode, ?_, untouched_of_refused⟩
  · have hlength : (answerAll { hub := h } publisher (earlier.map .ofValue)).1.length =
        earlier.length := by
      rw [length_answerAll, List.length_map]
    rw [← hlength]
    refine (congrArg (·[_]?) hresponses).trans ?_
    rw [List.getElem?_append_right (Nat.le_refl _), Nat.sub_self]
    rfl
  · rw [← exists_failsFirst_iff, Option.ne_none_iff_exists']
    exact exists_congr hcode
  · intro read i e hread hlookup hsubmit
    obtain ⟨-, -, ⟨hconf, -⟩, -⟩ := UpdateParams.read_eq_ok_iff.1 hread
    exact ((hcovers.submit_eq_error_iff (Registry.mem_of_lookup hlookup) hconf).1 hsubmit).1

/-- A batch whose second item is for a publisher only. -/
def mixedText : String := "[7," ++ quoteText ++ "]"

theorem parse_mixedText : Value.parse? mixedText = some (.array [.int 7, quoteItem]) := by cbv

theorem refused_by_first_check_mixed :
    let h := (create watchRegistry {} .updateDriven 8 none).run [.openSession none]
    let before := (answerAll { hub := h } (h.publisherOf 1) ([.int 7].map .ofValue)).2
    Value.parse? mixedText = some (.array [.int 7, quoteItem]) ∧
      (h.replyTo 1 mixedText).responses[1]? =
        some (answer before (h.publisherOf 1) (.ofValue quoteItem)).1 ∧
      FailsFirst (before.hub.checks (h.publisherOf 1) quoteItem) (-32001) := by
  have hitems : (Value.array [.int 7, quoteItem]).items = [.int 7] ++ quoteItem :: [] := rfl
  obtain ⟨hplace, -, -, hcode, -⟩ :=
    refused_by_first_check watchRegistry {} .updateDriven 8 none [.openSession none] 1
      parse_mixedText hitems
  exact ⟨parse_mixedText, hplace, (hcode (-32001)).1 (by decide +kernel)⟩

end Hub

end PriceFeed
