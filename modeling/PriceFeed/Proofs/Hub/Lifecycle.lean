import PriceFeed.Proofs.Hub.Log

/-!
# The life of a subscription

A subscription is born with the reply that reports its id, for the session, the instrument and the
channel of its request, and ends when its session is closed. Ids are reported in ascending order and
never again, and the gauges count open sessions and live subscriptions at any time
(`subscription_lifecycle`).
-/

namespace PriceFeed

namespace Hub

/-! ## Reported ids -/

/-- The subscription ids that the reply to an action reports. -/
def reportedBy (h : Hub) : Action → List Nat
  | .payload session text => (h.replyTo session text).subscriptions
  | _ => []

/-- The subscription ids that are reported in the course of a run. -/
def reported (h : Hub) : List Action → List Nat
  | [] => []
  | a :: rest => h.reportedBy a ++ (h.step a).reported rest

namespace Sound

variable {h : Hub} (hs : h.Sound)
include hs

/-- The ids that a reply reports ascend, and were never handed out before. -/
theorem reportedBy_ascending (a : Action) :
    (h.reportedBy a).Pairwise (· < ·) ∧ ∀ id ∈ h.reportedBy a,
      h.subscriptions.nextId ≤ id ∧ id < (h.step a).subscriptions.nextId := by
  cases a with
  | payload session text =>
    have hids : h.reportedBy (.payload session text) =
        (h.progressOf session text).pending.map (·.id) := subscriptions_replyTo h session text
    rw [hids]
    refine ⟨?_, fun id hid => ?_⟩
    · rw [(hs.regular.follows session text).ids]
      exact List.pairwise_lt_range'
    · obtain ⟨b, hb, rfl⟩ := List.mem_map.1 hid
      rw [subscriptions_step]
      exact hs.id_pending session text hb
  | _ => exact ⟨.nil, nofun⟩

theorem reported_ascending {l : List Action} (hl : h.Admits l) :
    (h.reported l).Pairwise (· < ·) ∧ ∀ id ∈ h.reported l, h.subscriptions.nextId ≤ id := by
  induction l generalizing h with
  | nil => exact ⟨.nil, nofun⟩
  | cons a rest ih =>
    obtain ⟨hfirst, hbounds⟩ := hs.reportedBy_ascending a
    obtain ⟨hrest, hlater⟩ := ih (hs.step hl.1) hl.2
    refine ⟨List.pairwise_append.2 ⟨hfirst, hrest, fun id hid id' hid' => ?_⟩, fun id hid => ?_⟩
    · have := (hbounds id hid).2
      have := hlater id' hid'
      omega
    · rcases List.mem_append.1 hid with hid | hid
      · exact (hbounds id hid).1
      · exact Nat.le_trans (hs.nextId_step_le a) (hlater id hid)

/-! ## Birth -/

/-- A reported subscription is live once its payload is handled. -/
theorem live_of_reports {session : Nat} {text : String} {channel : Channel} {account : String}
    {id : Nat} (hr : h.Reports session text channel account id) :
    ⟨id, session, account, channel⟩ ∈
      (h.step (.payload session text)).subscriptions.live := by
  rw [subscriptions_step]
  show _ ∈ (h.process session text).2.subscriptions.live
  rw [(hs.regular.subscriptions_process session text).2.1, List.mem_append, List.mem_reverse]
  exact .inl (List.mem_map.2 ⟨_, hr.mem_pending hs.covers, rfl⟩)

end Sound

/-- **Subscriptions live from their reply until their session is closed**, and gauges and ids keep
up with them in every orderly run. -/
theorem subscription_lifecycle (registry : Registry) (policy : Policy) (schedule : SchedulePolicy)
    (capacity : Nat) (commits : Option CommitQueue) (l : List Action)
    (hl : (create registry policy schedule capacity commits).Orderly l) :
    let start := create registry policy schedule capacity commits
    let h := start.run l
    (∀ s ∈ h.subscriptions.live, h.isOpen s.session = true ∧
      (∃ i ∈ registry.instruments, i.account = s.account) ∧ s.id < h.subscriptions.nextId) ∧
    (∀ pre session text post, l = pre ++ .payload session text :: post →
      (∀ id ∈ ((start.run pre).replyTo session text).subscriptions,
        ∃ channel account, (start.run pre).Reports session text channel account id) ∧
      ∀ channel account id, (start.run pre).Reports session text channel account id →
        h.subscriptions.get? id =
          if post.any (·.closes session) then none else some ⟨id, session, account, channel⟩) ∧
    (start.reported l).Pairwise (· < ·) ∧
    h.metrics.get .sessions = h.openSessions.length ∧
    h.metrics.get .subscriptions = h.subscriptions.live.length := by
  intro start h
  have hstart : start.Sound := sound_create ..
  have hadmits : start.Admits l := hl.admits hstart rfl
  have hs : h.Sound := hstart.run hadmits
  refine ⟨fun s hmem => ⟨hs.session_open s hmem, ?_, hs.coherent.id_lt s hmem⟩, ?_,
    (hstart.reported_ascending hadmits).1, hs.gauged.sessions, hs.gauged.subscriptions⟩
  · have hregistry : h.registry = registry := hstart.registry_run hadmits
    exact hregistry ▸ hs.registered s hmem
  · rintro pre session text post rfl
    obtain ⟨hpre, hpayload, hpost⟩ := admits_append.1 hadmits
    have hbefore := hstart.run hpre
    refine ⟨fun id hid => exists_reports hbefore.covers hid, fun channel account id hr => ?_⟩
    obtain ⟨-, hend⟩ :=
      (hbefore.step hpayload).mentioning_log hpost (hbefore.live_of_reports hr)
    have hrun : h = ((start.run pre).step (.payload session text)).run post := run_append ..
    rw [hrun]
    exact hend

/-- An instrument with one publisher. -/
def watchRegistry : Registry where
  instruments := [⟨"px", "LTC", "prod", -2, .price, ["ann"], 1⟩]
  products := [⟨"prod", [], ["px"]⟩]
  nodup_accounts := by decide

/-- A new hub over `watchRegistry`. -/
abbrev watchHub : Hub := create watchRegistry {} .updateDriven 8 none

/-- A request for the prices of the instrument. -/
def watchText : String :=
  "\x7b\"id\":1,\"method\":\"subscribe_price\",\"params\":\x7b\"account\":\"px\"\x7d\x7d"

/-- The request in `watchText`. -/
def watchItem : Json.Value :=
  .object [("id", .int 1), ("method", .string "subscribe_price"),
    ("params", .object [("account", .string "px")])]

theorem orderly_watch : watchHub.Orderly [.openSession (some "ann"), .payload 1 watchText] := by
  have hopen := watchHub.orderly_nil.snoc (a := .openSession (some "ann")) nofun
  refine hopen.snoc (a := .payload 1 watchText) fun session text he => ?_
  cases he
  exact ⟨by decide +kernel, by simp [Action.closes]⟩

theorem subscription_lifecycle_watch :
    watchHub.Orderly [.openSession (some "ann"), .payload 1 watchText] ∧
      (watchHub.run [.openSession (some "ann"), .payload 1 watchText]).subscriptions.get? 0 =
        some ⟨0, 1, "px", .price⟩ := by
  obtain ⟨-, hlife, -⟩ := subscription_lifecycle watchRegistry {} .updateDriven 8 none _ orderly_watch
  obtain ⟨-, hlive⟩ := hlife [.openSession (some "ann")] 1 watchText [] rfl
  exact ⟨orderly_watch, hlive .price "px" 0 (by decide +kernel)⟩

end Hub

end PriceFeed
