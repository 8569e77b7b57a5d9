import PriceFeed.Proofs.Commits
import PriceFeed.Proofs.Hub.Notices

/-!
# Changed aggregates and their commits

An item that is granted an update changes at most one aggregate, and offers it to the commit queue
if it does. Over the items of a payload, and over those of a run, the commits offered are just the
aggregates that changed, in the order in which they did. While submissions are not taken nothing
changes.

    the offers of a payload are those of its changes         (Regular.offersIn_eq)
    the queue after a payload is the one before with its changes put in (Regular.commits_process)
    an aggregate after a payload is the last one it was changed to     (Regular.lastFor_changedIn)
    a hub that is not ready keeps its board                            (board_process_of_not_ready)
-/

namespace PriceFeed

namespace Board

/-- The aggregates that are different on a later board, with their accounts, in the order of the
books. -/
def changes (b later : Board) : List Commit :=
  b.books.filterMap fun book => (b.changedTo? later book.account).map (Commit.mk book.account)

theorem changes_self (b : Board) : b.changes b = [] := by
  unfold changes
  rw [List.filterMap_eq_nil_iff]
  intro book _
  rw [changedTo?_self]
  rfl

namespace Covers

variable {b b' : Board} {r : Registry}

/-- A submission changes the aggregate that it reports as changed, and no other. -/
theorem changes_submit (hc : b.Covers r) {account : String} {publisher : Option String}
    {quote : Quote} {result : Submitted}
    (h : b.submit account publisher quote = .ok (result, b')) :
    b.changes b' = if result.changed = true then [⟨account, result.aggregate⟩] else [] := by
  obtain ⟨book, -, hbook, -⟩ := submit_eq_ok h
  obtain ⟨hmem, rfl⟩ := hc.book?_eq_some_iff.1 hbook
  cases hchanged : result.changed with
  | false =>
    refine List.filterMap_eq_nil_iff.2 fun x _ => ?_
    rw [changedTo?_submit h, hchanged]
    simp
  | true =>
    have hone : ∀ x : Book, (b.changedTo? b' x.account).map (Commit.mk x.account) =
        (Option.guard (fun x : Book => x.account = book.account) x).map fun x =>
          Commit.mk x.account result.aggregate := by
      intro x
      rw [changedTo?_submit h, hchanged]
      by_cases hx : x.account = book.account <;> simp [Option.guard, hx]
    rw [changes, funext hone, ← List.map_filterMap, List.filterMap_eq_filter,
      filter_key_of_mem hc.nodup hmem]
    rfl

/-- An aggregate on a later board is the one it changed to, or is as it was. -/
theorem aggregate?_later (hc : b.Covers r) (hc' : b'.Covers r) (account : String) :
    b'.aggregate? account = (b.changedTo? b' account).or (b.aggregate? account) := by
  cases hlater : b'.aggregate? account with
  | some a =>
    rw [← hlater]
    exact aggregate?_of_changedTo? b b' account (by rw [hlater]; rfl)
  | none =>
    cases hbefore : b.aggregate? account with
    | none => rw [changedTo?, hlater]; rfl
    | some a =>
      -- an account that has a book on one board has one on the other
      rw [aggregate?_eq] at hbefore
      obtain ⟨book, hbook, -⟩ := Option.map_eq_some_iff.1 hbefore
      obtain ⟨hmem, rfl⟩ := hc.book?_eq_some_iff.1 hbook
      obtain ⟨a', ha'⟩ := hc'.exists_aggregate (hc ▸ List.mem_map_of_mem hmem)
      cases hlater.symm.trans ha'

end Covers

end Board

namespace Hub

/-! ## Items -/

/-- The commits that an item offers to the queue, by the verdict on it. -/
def offersFor (h : Hub) : Except RpcError Grant → List Offer
  | .ok (.update account result _) =>
    if result.changed = true then h.commits.toList.flatMap (·.offers [⟨account, result.aggregate⟩])
    else []
  | _ => []

/-- The commits that items offer to the queue, one after another. -/
def offersOf (p : Progress) (publisher : Option String) : List Envelope → List Offer
  | [] => []
  | item :: rest =>
    p.hub.offersFor (p.hub.judge publisher item) ++
      offersOf (answer p publisher item).2 publisher rest

/-- The aggregates that items change, one after another. -/
def changesOf (p : Progress) (publisher : Option String) : List Envelope → List Commit
  | [] => []
  | item :: rest =>
    let next := (answer p publisher item).2
    p.hub.board.changes next.hub.board ++ changesOf next publisher rest

/-- An item that is granted an update hands in a quote that the board takes. -/
theorem judge_eq_update {h : Hub} {publisher : Option String} {item : Envelope} {account : String}
    {result : Submitted} {board : Board}
    (hj : h.judge publisher item = .ok (.update account result board)) :
    h.isReady = true ∧ ∃ quote, h.board.submit account publisher quote = .ok (result, board) := by
  cases item with
  | invalid id => cases hj
  | call request =>
    simp only [judge] at hj
    cases hm : Method.ofName? request.method with
    | none =>
      rw [hm] at hj
      cases hj
    | some method =>
      rw [hm] at hj
      cases method with
      | getProductList => cases hj
      | subscribePrice =>
        obtain ⟨_, _, -, -, he⟩ := judgeSubscription_eq_ok hj
        cases he
      | subscribePriceSched =>
        obtain ⟨_, _, -, -, he⟩ := judgeSubscription_eq_ok hj
        cases he
      | updatePrice =>
        obtain ⟨read, i, _, _, -, -, hready, hsubmit, he⟩ := judgeUpdate_eq_ok hj
        cases he
        exact ⟨hready, read.quote, hsubmit⟩

/-- All that answering an item does to board and commits. -/
theorem answer_cases (p : Progress) (publisher : Option String) (item : Envelope) :
    let next := (answer p publisher item).2.hub
    let offers := p.hub.offersFor (p.hub.judge publisher item)
    next.board = p.hub.board ∧ next.commits = p.hub.commits ∧ offers = [] ∨
      ∃ account quote result, p.hub.isReady = true ∧
        p.hub.board.submit account publisher quote = .ok (result, next.board) ∧
        next.commits = p.hub.commitsAfter account result ∧
        offers = if result.changed = true
          then p.hub.commits.toList.flatMap (·.offers [⟨account, result.aggregate⟩]) else [] := by
  rw [answer_eq]
  cases hj : p.hub.judge publisher item with
  | error e => exact .inl ⟨board_countAll .., commits_countAll .., rfl⟩
  | ok grant =>
    cases grant with
    | products => exact .inl ⟨board_countAll .., commits_countAll .., rfl⟩
    | subscription channel account => exact .inl ⟨board_countAll .., commits_countAll .., rfl⟩
    | update account result board =>
      obtain ⟨hready, quote, hsubmit⟩ := judge_eq_update hj
      simp only [Progress.enact, board_countAll, commits_countAll, commitsAfter]
      exact .inr ⟨account, quote, result, hready, hsubmit, rfl, rfl⟩

section Items

variable {h : Hub} {p : Progress} (f : Follows h p) (publisher : Option String)
include f

/-- An item offers for commit what it changes, and nothing else. -/
theorem offers_answer (item : Envelope) :
    let next := (answer p publisher item).2.hub
    let changes := p.hub.board.changes next.board
    p.hub.offersFor (p.hub.judge publisher item) =
        p.hub.commits.toList.flatMap (·.offers changes) ∧
      next.commits = p.hub.commits.map (·.enqueueAll changes) := by
  intro next changes
  rcases answer_cases p publisher item with
    ⟨hboard, hcommits, hoffers⟩ | ⟨account, quote, result, -, hsubmit, hcommits, hoffers⟩
  · have hnil : changes = [] := (congrArg _ hboard).trans (Board.changes_self _)
    rw [hoffers, hnil]
    refine ⟨?_, hcommits.trans ?_⟩ <;> cases p.hub.commits <;> rfl
  · have hchanges := f.covers.changes_submit hsubmit
    rw [hoffers]
    simp only [next, changes, hcommits, hchanges, commitsAfter]
    cases result.changed with
    | true => exact ⟨rfl, rfl⟩
    | false => constructor <;> cases p.hub.commits <;> rfl

/-- Items offer for commit what they change, in order. -/
theorem offers_answerAll (items : List Envelope) :
    offersOf p publisher items =
        p.hub.commits.toList.flatMap (·.offers (changesOf p publisher items)) ∧
      (answerAll p publisher items).2.hub.commits =
        p.hub.commits.map (·.enqueueAll (changesOf p publisher items)) := by
  induction items generalizing p with
  | nil => cases hq : p.hub.commits <;> exact ⟨rfl, hq⟩
  | cons item rest ih =>
    obtain ⟨hfirst, hcommits⟩ := offers_answer f publisher item
    obtain ⟨hrest, hend⟩ := ih (f.answer publisher item)
    simp only [answerAll, offersOf, changesOf]
    rw [hfirst, hrest, hend, hcommits]
    cases p.hub.commits with
    | none => exact ⟨rfl, rfl⟩
    | some q => simp [CommitQueue.offers_append, CommitQueue.enqueueAll_append]

/-- The aggregate of an account is the last one it was changed to, if it was changed. -/
theorem lastFor_changesOf (items : List Envelope) (account : String) :
    (answerAll p publisher items).2.hub.board.aggregate? account =
      (lastFor (changesOf p publisher items) account).or (p.hub.board.aggregate? account) := by
  induction items generalizing p with
  | nil => rfl
  | cons item rest ih =>
    have hnext := f.answer publisher item
    have hone : lastFor (p.hub.board.changes (answer p publisher item).2.hub.board) account =
        p.hub.board.changedTo? (answer p publisher item).2.hub.board account := by
      rcases answer_cases p publisher item with
        ⟨hboard, -⟩ | ⟨changed, quote, result, -, hsubmit, -⟩
      · rw [hboard, Board.changes_self, Board.changedTo?_self]
        rfl
      · rw [f.covers.changes_submit hsubmit, Board.changedTo?_submit hsubmit]
        cases result.changed <;> simp [lastFor_singleton]
    simp only [answerAll, changesOf]
    rw [ih hnext, f.covers.aggregate?_later hnext.covers, ← hone, lastFor_append, Option.or_assoc]

end Items

/-- While submissions are not taken, items change nothing. -/
theorem board_answerAll_of_not_ready {p : Progress} (hready : p.hub.isReady = false)
    (publisher : Option String) (items : List Envelope) :
    (answerAll p publisher items).2.hub.board = p.hub.board ∧
      changesOf p publisher items = [] := by
  induction items generalizing p with
  | nil => exact ⟨rfl, rfl⟩
  | cons item rest ih =>
    rcases answer_cases p publisher item with
      ⟨hboard, hcommits, -⟩ | ⟨account, quote, result, htaken, -⟩
    · have hstill : (answer p publisher item).2.hub.isReady = false := by
        rw [isReady, hcommits]
        exact hready
      obtain ⟨hrest, hnil⟩ := ih hstill
      simp only [answerAll, changesOf]
      rw [hrest, hnil, hboard, Board.changes_self]
      exact ⟨rfl, rfl⟩
    · rw [hready] at htaken
      cases htaken

/-! ## Payloads -/

/-- The aggregates that a payload of a session changes, one after another. -/
def changedIn (h : Hub) (session : Nat) (text : String) : List Commit :=
  changesOf { hub := h } (h.publisherOf session) (Payload.itemsOf text)

/-- The commits that a payload of a session offers to the queue, one after another. -/
def offersIn (h : Hub) (session : Nat) (text : String) : List Offer :=
  offersOf { hub := h } (h.publisherOf session) (Payload.itemsOf text)

/-- Answering a payload commits what answering its items commits. -/
theorem commits_progressOf (h : Hub) (session : Nat) (text : String) :
    (h.progressOf session text).hub.commits =
      (answerAll { hub := h } (h.publisherOf session) (Payload.itemsOf text)).2.hub.commits := by
  unfold progressOf
  rcases h.reply_cases (h.publisherOf session) text with he | ⟨hnil, e, he⟩
  · rw [(Prod.mk.inj he).2]
  · rw [he, hnil]
    rfl

namespace Regular

variable {h : Hub} (hr : h.Regular) (session : Nat) (text : String)
include hr

theorem offersIn_eq :
    h.offersIn session text = h.commits.toList.flatMap (·.offers (h.changedIn session text)) :=
  (offers_answerAll (Follows.init hr.covers) (h.publisherOf session) (Payload.itemsOf text)).1

theorem commits_process :
    (h.process session text).2.commits = h.commits.map (·.enqueueAll (h.changedIn session text)) :=
  calc (h.process session text).2.commits
    _ = (h.progressOf session text).hub.commits := (hr.activated session text).commits
    _ = _ := h.commits_progressOf session text
    _ = _ := (offers_answerAll (Follows.init hr.covers) _ _).2

theorem lastFor_changedIn (account : String) :
    (h.process session text).2.board.aggregate? account =
      (lastFor (h.changedIn session text) account).or (h.board.aggregate? account) := by
  rw [hr.board_process, (h.progressOf_eq session text).2]
  exact lastFor_changesOf (Follows.init hr.covers) _ _ account

theorem board_process_of_not_ready (hready : h.isReady = false) :
    (h.process session text).2.board = h.board ∧ h.changedIn session text = [] := by
  rw [hr.board_process, (h.progressOf_eq session text).2]
  exact board_answerAll_of_not_ready hready _ _

end Regular

end Hub

end PriceFeed
