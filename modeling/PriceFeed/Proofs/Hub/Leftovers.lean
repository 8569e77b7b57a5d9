import PriceFeed.Proofs.Hub.Lifecycle

/-!
# What a closed session leaves behind

Closing a session removes its subscriptions, but a payload that is handled on it later makes new
ones all the same. Nothing removes these: to close the session again changes nothing. So from its
close on, a session owns just what later payloads of its own subscribe to.

    no action opens a closed session again                               (Regular.stays_closed)
    a ∈ pending ↔ the reply reports a                               (Regular.mem_pending_iff)

## Top theorem

    after its close a session owns what its later payloads report            (live_after_close)
-/

namespace PriceFeed

namespace Hub

namespace Regular

variable {h : Hub} (hr : h.Regular)
include hr

/-- What waits for the reply is what the reply reports. -/
theorem mem_pending_iff {session : Nat} {text : String} {a : Activation} :
    a ∈ (h.progressOf session text).pending ↔
      h.Reports session text a.channel a.account a.id := by
  constructor
  · intro ha
    have hid : a.id ∈ (h.replyTo session text).subscriptions := by
      rw [subscriptions_replyTo]
      exact List.mem_map_of_mem ha
    obtain ⟨channel, account, hreports⟩ := exists_reports hr.covers hid
    have hsame : a = ⟨a.id, account, channel⟩ :=
      List.inj_on_of_nodup_map (hr.follows session text).nodup_pending ha
        (hreports.mem_pending hr.covers) rfl
    rw [hsame]
    exact hreports
  · exact fun hreports => hreports.mem_pending hr.covers

theorem mem_made_iff {session : Nat} {text : String} {s : Subscription} :
    s ∈ h.made (.payload session text) ↔
      s.session = session ∧ h.Reports session text s.channel s.account s.id := by
  rw [made, List.mem_reverse, List.mem_map]
  constructor
  · rintro ⟨a, ha, rfl⟩
    exact ⟨rfl, hr.mem_pending_iff.1 ha⟩
  · rintro ⟨rfl, hreports⟩
    exact ⟨⟨s.id, s.account, s.channel⟩, hr.mem_pending_iff.2 hreports, rfl⟩

/-- A session that was closed is not opened again. -/
theorem stays_closed {id : Nat} (hknown : h.known id = true) (hclosed : h.isOpen id = false)
    (a : Action) : (h.step a).known id = true ∧ (h.step a).isOpen id = false := by
  have hlike := like_deliverAll (h.issue a).2 (h.issue a).1
  rw [step_eq, known_eq, hlike.roster, ← known_eq, hlike.isOpen]
  have hissued := h.issued a
  generalize (h.issue a).2 = h' at hissued
  cases hissued with
  | payload session text =>
    rw [known_eq, isOpen_eq, hr.roster_process, ← known_eq, ← isOpen_eq]
    exact ⟨hknown, hclosed⟩
  | opened publisher =>
    rcases h.session?_openSession publisher id with ⟨hsame, -⟩ | ⟨hunknown, -⟩
    · rw [known, isOpen, hsame]
      exact ⟨hknown, hclosed⟩
    · rw [hknown] at hunknown
      cases hunknown
  | closed session =>
    rw [known_closeSession, isOpen_closeSession, hclosed, Bool.and_false]
    exact ⟨hknown, rfl⟩
  | quiet _ commits hl =>
    rw [known_eq, hl.roster, hl.isOpen]
    exact ⟨(known_eq h id).symm.trans hknown, hclosed⟩

/-- One action on a hub with a closed session: the session keeps what it has, and gets what a
payload of its own reports. -/
theorem mem_live_step_of_closed {s : Subscription} (hclosed : h.isOpen s.session = false)
    (a : Action) :
    s ∈ (h.step a).subscriptions.live ↔ s ∈ h.made a ∨ s ∈ h.subscriptions.live := by
  rw [(hr.live_step a).1, List.mem_append, List.mem_filter, hclosed, Bool.and_false]
  exact or_congr_right (and_iff_left rfl)

/-- A run of a hub with a closed session. -/
theorem mem_live_run_of_closed {s : Subscription} (hknown : h.known s.session = true)
    (hclosed : h.isOpen s.session = false) (l : List Action) :
    s ∈ (h.run l).subscriptions.live ↔ s ∈ h.subscriptions.live ∨
      ∃ before text after, l = before ++ .payload s.session text :: after ∧
        (h.run before).Reports s.session text s.channel s.account s.id := by
  induction l generalizing h with
  | nil =>
    refine ⟨.inl, fun hmem => hmem.resolve_right ?_⟩
    rintro ⟨before, text, after, he, -⟩
    cases before <;> cases he
  | cons a rest ih =>
    obtain ⟨hknown', hclosed'⟩ := hr.stays_closed hknown hclosed a
    refine (ih (hr.step a) hknown' hclosed').trans ?_
    rw [hr.mem_live_step_of_closed hclosed]
    constructor
    · rintro ((hmade | hmem) | ⟨before, text, after, rfl, hreports⟩)
      · cases a with
        | payload session text =>
          obtain ⟨rfl, hreports⟩ := hr.mem_made_iff.1 hmade
          exact .inr ⟨[], text, rest, rfl, hreports⟩
        | _ => cases hmade
      · exact .inl hmem
      · exact .inr ⟨a :: before, text, after, rfl, hreports⟩
    · rintro (hmem | ⟨before, text, after, he, hreports⟩)
      · exact .inl (.inr hmem)
      · cases before with
        | nil =>
          obtain ⟨rfl, rfl⟩ := List.cons.inj he
          exact .inl (.inl (hr.mem_made_iff.2 ⟨rfl, hreports⟩))
        | cons b before =>
          obtain ⟨rfl, rfl⟩ := List.cons.inj he
          exact .inr ⟨before, text, after, rfl, hreports⟩

end Regular

/-- **From its close on, a session owns just the subscriptions that later payloads of its own
report**, in every run, whatever else happens and however often it is closed again. -/
theorem live_after_close (registry : Registry) (policy : Policy) (schedule : SchedulePolicy)
    (capacity : Nat) (commits : Option CommitQueue) (pre post : List Action) (s : Subscription)
    (hopen : ((create registry policy schedule capacity commits).run pre).isOpen s.session = true) :
    let closed := ((create registry policy schedule capacity commits).run pre).closeSession s.session
    s ∈ (closed.run post).subscriptions.live ↔
      ∃ before text after, post = before ++ .payload s.session text :: after ∧
        (closed.run before).Reports s.session text s.channel s.account s.id := by
  intro closed
  have hbefore := (regular_create registry policy schedule capacity commits).run pre
  have hknown : closed.known s.session = true := by
    obtain ⟨session, hsession, -⟩ := isOpen_iff.1 hopen
    rw [known_closeSession, known, hsession, Option.isSome_some]
  have hclosed : closed.isOpen s.session = false := by
    rw [isOpen_closeSession]
    simp
  have hgone : s ∉ closed.subscriptions.live := by
    rw [(hbefore.subscriptions_closeSession s.session).2.1, List.mem_filter, hopen]
    simp
  rw [(hbefore.closeSession s.session).mem_live_run_of_closed hknown hclosed]
  exact or_iff_right hgone

/-- A subscription that a payload makes on a closed session. -/
def leftover : Subscription := ⟨0, 1, "px", .price⟩

theorem live_after_close_watch :
    ((create watchRegistry {} .updateDriven 8 none).run [.openSession none]).isOpen
        leftover.session = true ∧
      leftover ∈ ((((create watchRegistry {} .updateDriven 8 none).run
        [.openSession none]).closeSession leftover.session).run
          [.payload leftover.session watchText]).subscriptions.live := by
  have hopen : (watchHub.run [.openSession none]).isOpen leftover.session = true := by
    decide +kernel
  have hreports : (((watchHub.run [.openSession none]).closeSession leftover.session).run
      []).Reports leftover.session watchText leftover.channel leftover.account leftover.id := by
    decide +kernel
  have hlive := live_after_close watchRegistry {} .updateDriven 8 none [.openSession none]
    [.payload leftover.session watchText] leftover hopen
  exact ⟨hopen, hlive.2 ⟨[], watchText, [], rfl, hreports⟩⟩

/-- A closed session can come to own a subscription, and closing it again does not help. -/
theorem closed_session_subscribes :
    ¬ ∀ (pre post : List Action) (session : Nat), (watchHub.run pre).isOpen session = true →
      ∀ s ∈ (watchHub.run (pre ++ .closeSession session :: post)).subscriptions.live,
        s.session ≠ session := by
  intro hnever
  have hopen : (watchHub.run [.openSession (some "ann")]).isOpen 1 = true := by decide +kernel
  have howned : ⟨0, 1, "px", .price⟩ ∈ (watchHub.run ([.openSession (some "ann")] ++
      .closeSession 1 :: [.payload 1 watchText, .closeSession 1])).subscriptions.live := by
    decide +kernel
  exact hnever _ _ 1 hopen _ howned rfl

end Hub

end PriceFeed
