import Mathlib.Data.List.TakeWhile
import PriceFeed.Proofs.Hub.Lifecycle
import PriceFeed.Proofs.Hub.Mailboxes

/-!
# The feed of a price subscription

What mailboxes are handed about a price subscription, in the course of any orderly run, is the reply
that reports it, its aggregate when it became live, and each later aggregate of its instrument until
its session is closed: nothing is missing, repeated, out of order or sent elsewhere (`price_feed`).
So while the session is open the last aggregate sent is the one the board has. A mailbox takes in
what it is handed, action by action, and over the whole run.
-/

namespace PriceFeed

namespace Hub

/-! ## Changes in the course of a run -/

/-- The aggregates that an account takes on in an action, one for each change. -/
def changesBy (h : Hub) (account : String) : Action → List Aggregate
  | .payload session text => h.changesIn account session text
  | _ => []

/-- The aggregates that an account takes on in the course of a run, one for each change. -/
def changesOver (h : Hub) (account : String) : List Action → List Aggregate
  | [] => []
  | a :: rest => h.changesBy account a ++ (h.step a).changesOver account rest

/-- A price subscription is due each change of its aggregate, and nothing else. -/
theorem dues_price (h : Hub) {s : Subscription} (hs : s.channel = .price) (l : List Action) :
    h.dues s l = (h.changesOver s.account l).map (.price s.id) := by
  induction l generalizing h with
  | nil => rfl
  | cons a rest ih =>
    have hdue : h.due s a = (h.changesBy s.account a).map (.price s.id) := by
      cases a with
      | payload session text =>
        have hchange : s.onChange h.schedule = fun aggregate => [.price s.id aggregate] := by
          unfold Subscription.onChange
          rw [hs]
        show (h.changesIn s.account session text).flatMap (s.onChange h.schedule) = _
        rw [hchange]
        exact List.map_eq_flatMap.symm
      | tick =>
        unfold due
        rw [hs]
        rfl
      | _ => rfl
    rw [dues, changesOver, List.map_append, hdue, ih]

namespace Sound

variable {h : Hub} (hs : h.Sound)
include hs

theorem aggregate?_step {i : Instrument} (hi : i ∈ h.registry.instruments) (a : Action) :
    (h.step a).board.aggregate? i.account =
      (h.changesBy i.account a).getLast?.or (h.board.aggregate? i.account) := by
  rw [step_eq, (like_deliverAll ..).board]
  cases a with
  | payload session text => exact hs.aggregate?_process session text hi
  | closeSession session =>
    show (h.closeSession session).board.aggregate? i.account = h.board.aggregate? i.account
    rcases h.closeSession_cases session with ⟨-, he⟩ | ⟨-, he⟩ <;> rw [he] <;> rfl
  | receive session count =>
    show (h.receive session count).2.board.aggregate? i.account = h.board.aggregate? i.account
    rw [(like_receive h session count).board]
  | _ => rfl

/-- The aggregate after a run is the last one it was changed to, if it was changed. -/
theorem aggregate?_run {i : Instrument} (hi : i ∈ h.registry.instruments) {l : List Action}
    (hl : h.Admits l) :
    (h.run l).board.aggregate? i.account =
      (h.changesOver i.account l).getLast?.or (h.board.aggregate? i.account) := by
  induction l generalizing h with
  | nil => rfl
  | cons a rest ih =>
    have hrest := ih (hs.step hl.1) ((hs.registry_step a).symm ▸ hi) hl.2
    rw [changesOver, List.getLast?_append, Option.or_assoc, ← hs.aggregate?_step hi a]
    exact hrest

/-! ## The payload that subscribes -/

/-- A payload hands over its reply and then the first notification of what it subscribes to. -/
theorem mentioning_birth {session : Nat} (hopen : h.isOpen session = true) {text : String}
    {channel : Channel} {account : String} {id : Nat}
    (hr : h.Reports session text channel account id) {first : Aggregate}
    (hread : (h.step (.payload session text)).board.aggregate? account = some first) :
    mentioning id (h.handed (.payload session text)) =
      [⟨session, .reply (h.replyTo session text)⟩,
        ⟨session, (Subscription.mk id session account channel).first first⟩] := by
  rw [step_eq, (like_deliverAll ..).board] at hread
  have hissue : mentioning id (h.issue (.payload session text)).1 = _ :=
    hs.mentioning_new session text (hr.mem_pending hs.covers) hread
  have hstill : (h.process session text).2.isOpen session = true := by
    rw [isOpen_eq, hs.regular.roster_process, ← isOpen_eq, hopen]
  rw [mentioning_handed_eq, hissue]
  · rfl
  · intro q hq
    rw [hissue] at hq
    rcases List.mem_pair.1 hq with rfl | rfl
    · exact hstill
    · exact hstill

/-- From the payload that subscribes on, the log is the reply, the first notification and what is
due until the session is closed. -/
theorem mentioning_life {session : Nat} {text account : String} {channel : Channel} {id : Nat}
    {post : List Action} (hl : h.Admits (.payload session text :: post))
    (hr : h.Reports session text channel account id) {first : Aggregate}
    (hread : (h.step (.payload session text)).board.aggregate? account = some first) :
    mentioning id (h.log (.payload session text :: post)) =
      (.reply (h.replyTo session text) :: (Subscription.mk id session account channel).first first ::
        (h.step (.payload session text)).dues ⟨id, session, account, channel⟩
          (post.takeWhile fun a => !a.closes session)).map (Post.mk session) := by
  have hafter := hs.step hl.1
  have hbirth := hs.mentioning_birth hl.1 hr hread
  obtain ⟨hlife, -⟩ := hafter.mentioning_log hl.2 (hs.live_of_reports hr)
  rw [log, mentioning_append, hbirth, hlife]
  rfl

/-- What is sent about a price subscription is its first aggregate and each change. -/
theorem mentioning_feed {session : Nat} {text account : String} {id : Nat} {post : List Action}
    (hl : h.Admits (.payload session text :: post))
    (hr : h.Reports session text .price account id) {first : Aggregate}
    (hread : (h.step (.payload session text)).board.aggregate? account = some first) :
    mentioning id (h.log (.payload session text :: post)) =
      (.reply (h.replyTo session text) :: .price id first ::
        ((h.step (.payload session text)).changesOver account
          (post.takeWhile fun a => !a.closes session)).map (.price id)).map (Post.mk session) := by
  have hlife := hs.mentioning_life hl hr hread
  rw [dues_price _ rfl] at hlife
  exact hlife

/-- The account of a reported subscription has an aggregate from its payload on. -/
theorem exists_first {session : Nat} {text account : String} {channel : Channel} {id : Nat}
    (hopen : h.isOpen session = true) (hr : h.Reports session text channel account id)
    {post : List Action} (hl : (h.step (.payload session text)).Admits post) :
    ∃ first, (h.step (.payload session text)).board.aggregate? account = some first ∧
      ((h.step (.payload session text)).run post).board.aggregate? account =
        some (((h.step (.payload session text)).changesOver account post).getLast?.getD first) := by
  have hafter : (h.step (.payload session text)).Sound := hs.step hopen
  obtain ⟨i, hi, rfl⟩ := hafter.registered _ (hs.live_of_reports hr)
  obtain ⟨first, hfirst⟩ := hafter.covers.exists_aggregate hi
  refine ⟨first, hfirst, ?_⟩
  rw [hafter.aggregate?_run hi hl, hfirst]
  cases (changesOver _ i.account post).getLast? <;> rfl

/-- Nothing is sent about a subscription before the payload that makes it. -/
theorem mentioning_before {session : Nat} {text account : String} {channel : Channel} {id : Nat}
    {pre : List Action} (hl : h.Admits pre)
    (hr : (h.run pre).Reports session text channel account id) :
    mentioning id (h.log pre) = [] := by
  have hbefore := hs.run hl
  have hnew : (h.run pre).subscriptions.nextId ≤ id :=
    (hbefore.id_pending session text (hr.mem_pending hbefore.covers)).1
  have hnext := hs.nextId_run_le hl
  refine (hs.mentioning_log_nil hl (fun hmem => ?_) fun hlt => ?_).1
  · obtain ⟨s, hlive, rfl⟩ := List.mem_map.1 hmem
    have := hs.coherent.id_lt s hlive
    omega
  · omega

/-- The whole life of a reported subscription. -/
theorem mentioning_reported {session : Nat} {text account : String} {channel : Channel} {id : Nat}
    {pre post : List Action} (hl : h.Admits (pre ++ .payload session text :: post))
    (hr : (h.run pre).Reports session text channel account id) :
    ∃ first, mentioning id (h.log (pre ++ .payload session text :: post)) =
      (.reply ((h.run pre).replyTo session text) ::
        (Subscription.mk id session account channel).first first ::
          ((h.run pre).step (.payload session text)).dues ⟨id, session, account, channel⟩
            (post.takeWhile fun a => !a.closes session)).map (Post.mk session) := by
  obtain ⟨hpre, hpayload⟩ := admits_append.1 hl
  have hbefore := hs.run hpre
  obtain ⟨first, hfirst, -⟩ := hbefore.exists_first hpayload.1 hr hpayload.2
  refine ⟨first, ?_⟩
  rw [log_append, mentioning_append, hs.mentioning_before hpre hr, List.nil_append]
  exact hbefore.mentioning_life hpayload hr hfirst

end Sound

/-! ## The feed -/

/-- **All that is ever sent about a price subscription.** What the log lists for a session is what
its mailbox takes in. -/
theorem price_feed (registry : Registry) (policy : Policy) (schedule : SchedulePolicy)
    (capacity : Nat) (commits : Option CommitQueue) (pre post : List Action) (session : Nat)
    (text account : String) (id : Nat)
    (hl : (create registry policy schedule capacity commits).Orderly
      (pre ++ .payload session text :: post))
    (hr : ((create registry policy schedule capacity commits).run pre).Reports session text .price
      account id) :
    let start := create registry policy schedule capacity commits
    let before := start.run pre
    let after := before.step (.payload session text)
    let l := pre ++ .payload session text :: post
    (∃ first, after.board.read account = .ok first ∧
      mentioning id (start.log l) =
        (.reply (before.replyTo session text) :: .price id first ::
          (after.changesOver account (post.takeWhile fun a => !a.closes session)).map
            (.price id)).map (Post.mk session)) ∧
    ((∀ a ∈ post, a.closes session = false) →
      ∃ last, (start.run l).board.read account = .ok last ∧
        (mentioning id (start.log l)).getLast? = some ⟨session, .price id last⟩) ∧
    (∀ done a rest, l = done ++ a :: rest →
      let h := start.run done
      ∀ k s, h.session? k = some s → ((h.step a).session? k).map (·.mailbox) =
        some ((((h.handed a).filter (·.session = k)).map (·.message)).foldl
          (fun b m => (b.deliver m).2) (s.mailbox.run (a.onMailbox k)))) ∧
    (start.run l).known session = true ∧
    ∀ k s, (start.run l).session? k = some s →
      s.mailbox = Mailbox.run { capacity } (start.opsOver k l) ∧
      (Mailbox.handed { capacity } (start.opsOver k l)).map (·.message) =
        ((start.log l).filter (·.session = k)).map (·.message) := by
  intro start before after l
  have hstart : start.Sound := sound_create ..
  obtain ⟨hpre, hpayload⟩ := admits_append.1 (hl.admits hstart rfl)
  have hbefore : before.Sound := hstart.run hpre
  obtain ⟨first, hfirst, hlast⟩ := hbefore.exists_first hpayload.1 hr hpayload.2
  have hlog : mentioning id (start.log l) =
      (.reply (before.replyTo session text) :: .price id first ::
        (after.changesOver account (post.takeWhile fun a => !a.closes session)).map
          (.price id)).map (Post.mk session) := by
    rw [log_append, mentioning_append, hstart.mentioning_before hpre hr, List.nil_append]
    exact hbefore.mentioning_feed hpayload hr hfirst
  have hrun : start.run l = after.run post := run_append ..
  refine ⟨⟨first, Board.aggregate?_eq_some_iff.1 hfirst, hlog⟩, fun hcloses => ?_,
    fun done a rest _ k s hs => (hstart.regular.run done).mailbox_action a hs, ?_,
    fun k s hs => ⟨mailbox_of_new registry policy schedule capacity commits hs,
      message_handed_opsOver _ start k l⟩⟩
  · have hwhole : post.takeWhile (fun a => !a.closes session) = post := by
      rw [List.takeWhile_eq_self_iff]
      intro a ha
      rw [hcloses a ha]
      rfl
    refine ⟨_, Board.aggregate?_eq_some_iff.1 (hrun ▸ hlast), ?_⟩
    rw [hlog, hwhole, List.getLast?_map, List.getLast?_cons_cons, List.getLast?_cons,
      List.getLast?_map, Option.getD_map]
    rfl
  · obtain ⟨s, hs, -⟩ := isOpen_iff.1 hpayload.1
    have hknown : before.known session = true := congrArg Option.isSome hs
    have hrest : start.run l = before.run (.payload session text :: post) := run_append ..
    rw [hrest]
    exact hbefore.regular.known_run hknown _

/-- A quote that makes the aggregate of the instrument trade. -/
def quoteText : String :=
  "\x7b\"id\":2,\"method\":\"update_price\",\"params\":\x7b\"account\":\"px\",\"price\":100,\"conf\":1," ++
    "\"status\":\"trading\"\x7d\x7d"

/-- The request in `quoteText`. -/
def quoteItem : Json.Value :=
  .object [("id", .int 2), ("method", .string "update_price"),
    ("params", .object [("account", .string "px"), ("conf", .int 1), ("price", .int 100),
      ("status", .string "trading")])]

/-- The publisher watches its own quote, and its mailbox takes in all that the log lists. -/
theorem price_feed_watch :
    let pre := [.openSession (some "ann")]
    let l := pre ++ .payload 1 watchText :: [.payload 1 quoteText]
    watchHub.Orderly l ∧ (watchHub.run pre).Reports 1 watchText .price "px" 0 ∧
      ∃ last, (watchHub.run l).board.read "px" = .ok last ∧
        (mentioning 0 (watchHub.log l)).getLast? = some ⟨1, .price 0 last⟩ ∧
        ∃ s, (watchHub.run l).session? 1 = some s ∧
          s.mailbox = Mailbox.run { capacity := 8 } (watchHub.opsOver 1 l) ∧
          (Mailbox.handed { capacity := 8 } (watchHub.opsOver 1 l)).map (·.message) =
            ((watchHub.log l).filter (·.session = 1)).map (·.message) := by
  intro pre l
  have hl : watchHub.Orderly l := by
    refine orderly_watch.snoc (a := .payload 1 quoteText) fun session text he => ?_
    cases he
    exact ⟨by decide +kernel, by simp [Action.closes]⟩
  have hr : (watchHub.run pre).Reports 1 watchText .price "px" 0 := by decide +kernel
  obtain ⟨-, hread, -, hthere, hboxes⟩ :=
    price_feed watchRegistry {} .updateDriven 8 none pre _ 1 watchText "px" 0 hl hr
  obtain ⟨last, hlast, hsent⟩ := hread (by simp [Action.closes])
  obtain ⟨s, hs⟩ := Option.isSome_iff_exists.1 hthere
  exact ⟨hl, hr, last, hlast, hsent, s, hs, hboxes 1 s hs⟩

end Hub

end PriceFeed
