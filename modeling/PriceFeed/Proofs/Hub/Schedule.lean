import PriceFeed.Proofs.Hub.Feed
import PriceFeed.Proofs.Subscriptions.Ledger

/-!
# The slots of a schedule subscription

A schedule subscription is sent the slots in which its publisher is to submit. One is sent when it
becomes live, one with every tick and, if the policy says so, one with every change of the aggregate
of its instrument, until its session is closed. A tick goes through the live schedule subscriptions
by their ids. Nothing else is sent about any subscription, so none is sent what is for the other
channel. What is sent goes to the mailbox of the session, in order.

    the slots due to a schedule subscription in a run                        (Regular.dues_schedule)
    what is due to a subscription is for its channel                                   (suits_dues)
    a tick reaches each live schedule subscription, ascending by id           (Sound.handed_tick)
    a mailbox takes in the slots of its session from a tick                  (Sound.mailbox_tick)

## Top theorem

    the slots of all schedule subscriptions, counted                               (schedule_slots)
-/

namespace PriceFeed

def Action.isTick : Action → Bool
  | tick => true
  | _ => false

/-- The message is a notification of the subscription on its own channel. -/
def Subscription.Suits (s : Subscription) (m : Message) : Prop :=
  match s.channel with
  | .price => ∃ aggregate, m = .price s.id aggregate
  | .schedule => m = .schedule s.id

namespace Subscription

variable {s : Subscription} {m : Message}

theorem suits_first (s : Subscription) (aggregate : Aggregate) : s.Suits (s.first aggregate) := by
  unfold Suits first
  cases s.channel with
  | price => exact ⟨aggregate, rfl⟩
  | schedule => rfl

theorem suits_onChange {schedule : SchedulePolicy} {aggregate : Aggregate}
    (hm : m ∈ s.onChange schedule aggregate) : s.Suits m := by
  unfold onChange at hm
  unfold Suits
  cases hchannel : s.channel with
  | price =>
    rw [hchannel] at hm
    exact ⟨aggregate, List.mem_singleton.1 hm⟩
  | schedule =>
    simp only [hchannel] at hm
    split at hm
    · exact List.mem_singleton.1 hm
    · cases hm

/-- What a message is a notification of, if it suits a subscription. -/
theorem Suits.channel_eq (h : s.Suits m) :
    (∀ id, m = .schedule id → s.channel = .schedule) ∧
      ∀ id aggregate, m = .price id aggregate → s.channel = .price := by
  unfold Suits at h
  cases hchannel : s.channel with
  | price =>
    simp only [hchannel] at h
    obtain ⟨aggregate, rfl⟩ := h
    exact ⟨nofun, fun _ _ _ => rfl⟩
  | schedule =>
    simp only [hchannel] at h
    subst h
    exact ⟨fun _ _ => rfl, nofun⟩

/-- A message that suits a subscription notifies of it alone. -/
theorem Suits.notifies (h : s.Suits m) :
    m.noticeKind?.isNone = false ∧ m.subscriptions = [s.id] := by
  unfold Suits at h
  cases hchannel : s.channel with
  | price =>
    simp only [hchannel] at h
    obtain ⟨aggregate, rfl⟩ := h
    exact ⟨rfl, rfl⟩
  | schedule =>
    simp only [hchannel] at h
    subst h
    exact ⟨rfl, rfl⟩

end Subscription

namespace Hub

/-! ## What is due -/

theorem suits_due {h : Hub} {s : Subscription} {a : Action} {m : Message} (hm : m ∈ h.due s a) :
    s.Suits m := by
  cases a with
  | payload session text =>
    obtain ⟨aggregate, -, hm⟩ := List.mem_flatMap.1 hm
    exact Subscription.suits_onChange hm
  | tick =>
    unfold due at hm
    unfold Subscription.Suits
    by_cases hchannel : s.channel = .schedule
    · simpa [hchannel] using hm
    · simp [hchannel] at hm
  | _ => cases hm

/-- All that is due to a subscription is for its channel. -/
theorem suits_dues {h : Hub} {s : Subscription} {l : List Action} {m : Message}
    (hm : m ∈ h.dues s l) : s.Suits m := by
  induction l generalizing h with
  | nil => cases hm
  | cons a rest ih =>
    rcases List.mem_append.1 hm with hm | hm
    · exact suits_due hm
    · exact ih hm

/-- What an action makes due to a schedule subscription. -/
theorem due_schedule (h : Hub) {s : Subscription} (hs : s.channel = .schedule) (a : Action) :
    h.due s a = List.replicate ((if a.isTick then 1 else 0) +
      if h.schedule = .updateDriven then (h.changesBy s.account a).length else 0)
        (.schedule s.id) := by
  cases a with
  | payload session text =>
    have hchange : s.onChange h.schedule = fun _ =>
        if h.schedule = .updateDriven then [.schedule s.id] else [] := by
      unfold Subscription.onChange
      rw [hs]
    show (h.changesIn s.account session text).flatMap (s.onChange h.schedule) = _
    rw [hchange]
    by_cases hdriven : h.schedule = .updateDriven
    · simp [hdriven, Action.isTick, changesBy, ← List.map_eq_flatMap]
    · simp [hdriven, Action.isTick]
  | tick => simp [due, hs, Action.isTick, changesBy]
  | _ => simp [due, Action.isTick, changesBy]

/-! ## The policy -/

namespace Regular

variable {h : Hub} (hr : h.Regular)
include hr

/-- A schedule subscription is due a slot for each tick, and one for each change of its aggregate if
the policy says so. -/
theorem dues_schedule {s : Subscription} (hs : s.channel = .schedule) (l : List Action) :
    h.dues s l = List.replicate (l.countP Action.isTick +
      if h.schedule = .updateDriven then (h.changesOver s.account l).length else 0)
        (.schedule s.id) := by
  induction l generalizing h with
  | nil => simp [dues, changesOver]
  | cons a rest ih =>
    have hrest := ih (hr.step a)
    rw [(hr.settings_step a).2.1] at hrest
    rw [dues, h.due_schedule hs a, hrest, List.replicate_append_replicate, changesOver,
      List.length_append, List.countP_cons]
    congr 1
    by_cases hdriven : h.schedule = .updateDriven
    · simp only [hdriven, if_true]
      omega
    · simp only [hdriven, if_false]
      omega

end Regular

namespace Sound

variable {h : Hub} (hs : h.Sound)
include hs

/-! ## Ticks -/

/-- A tick reaches every live schedule subscription, in the order of their ids. -/
theorem handed_tick : h.handed .tick =
    (h.subscriptions.onChannel .schedule).map fun s => ⟨s.session, .schedule s.id⟩ := by
  refine List.filter_eq_self.2 fun p hp => ?_
  obtain ⟨s, hmem, rfl⟩ := List.mem_map.1 hp
  have hlive := Subscriptions.Coherent.mem_live_of_mem_onChannel hmem
  exact reaches_of_isOpen (hs.session_open s hlive)

/-- A mailbox takes in a slot for each schedule subscription of its session. -/
theorem mailbox_tick (k : Nat) :
    ((h.step .tick).session? k).map (·.mailbox) = (h.session? k).map fun s =>
      (((h.subscriptions.onChannel .schedule).filter (·.session = k)).map
        fun t => Message.schedule t.id).foldl (fun b m => (b.deliver m).2) s.mailbox := by
  have hsent : ((h.handed .tick).filter (·.session = k)).map (·.message) =
      ((h.subscriptions.onChannel .schedule).filter (·.session = k)).map
        fun t => Message.schedule t.id := by
    rw [hs.handed_tick, List.filter_map, List.map_map]
    rfl
  rw [← hsent]
  exact mailbox_step_of_same rfl

/-! ## Channels -/

/-- All notifications of a reported subscription are for its channel. -/
theorem channel_of_mem_log {pre post : List Action} {session : Nat} {text : String}
    {channel : Channel} {account : String} {id : Nat}
    (hl : h.Admits (pre ++ .payload session text :: post))
    (hr : (h.run pre).Reports session text channel account id) {p : Post}
    (hp : p ∈ h.log (pre ++ .payload session text :: post)) :
    (p.message = .schedule id → channel = .schedule) ∧
      ∀ aggregate, p.message = .price id aggregate → channel = .price := by
  obtain ⟨first, hlife⟩ := hs.mentioning_reported hl hr
  have hsuits (hmentions : p.message.mentions id = true)
      (hnotice : p.message.noticeKind?.isSome = true) :
      (Subscription.mk id session account channel).Suits p.message := by
    have hmem : p ∈ mentioning id (h.log (pre ++ .payload session text :: post)) :=
      List.mem_filter.2 ⟨hp, hmentions⟩
    rw [hlife] at hmem
    obtain ⟨m, hm, rfl⟩ := List.mem_map.1 hmem
    simp only [List.mem_cons] at hm
    rcases hm with rfl | rfl | hm
    · cases hnotice
    · exact Subscription.suits_first _ _
    · exact suits_dues hm
  constructor
  · intro he
    have hmentions : p.message.mentions id = true := by
      rw [he]
      exact decide_eq_true List.mem_cons_self
    exact (hsuits hmentions (by rw [he]; rfl)).channel_eq.1 id he
  · intro aggregate he
    have hmentions : p.message.mentions id = true := by
      rw [he]
      exact decide_eq_true List.mem_cons_self
    exact (hsuits hmentions (by rw [he]; rfl)).channel_eq.2 id aggregate he

end Sound

/-! ## Top theorem -/

/-- **A schedule subscription is sent just the slots it is due**: one after the reply that reports
it, and, until its session is closed, one with every tick and one with every change of its aggregate
if the policy says so. A tick goes to each live schedule subscription, in the order of their ids,
and no subscription is notified of what is for the other channel. What the log lists for a session is
what its mailbox takes in. -/
theorem schedule_slots (registry : Registry) (policy : Policy) (schedule : SchedulePolicy)
    (capacity : Nat) (commits : Option CommitQueue) (l : List Action)
    (hl : (create registry policy schedule capacity commits).Orderly l) :
    let start := create registry policy schedule capacity commits
    let h := start.run l
    (∀ pre session text post, l = pre ++ .payload session text :: post →
      let before := start.run pre
      let after := before.step (.payload session text)
      let meantime := post.takeWhile fun a => !a.closes session
      (∀ account id, before.Reports session text .schedule account id →
        mentioning id (start.log l) =
          (.reply (before.replyTo session text) :: .schedule id ::
            List.replicate (meantime.countP Action.isTick +
              if schedule = .updateDriven then (after.changesOver account meantime).length else 0)
                (.schedule id)).map (Post.mk session)) ∧
      ∀ channel account id, before.Reports session text channel account id →
        ∀ p ∈ start.log l, (p.message = .schedule id → channel = .schedule) ∧
          ∀ aggregate, p.message = .price id aggregate → channel = .price) ∧
    h.tick.1 = (h.subscriptions.live.filter (·.channel = .schedule)).length ∧
    (∃ notified : List Subscription,
      notified.Perm (h.subscriptions.live.filter (·.channel = .schedule)) ∧
      notified.Pairwise (·.id < ·.id) ∧
      (h.handed .tick = notified.map fun s => ⟨s.session, .schedule s.id⟩) ∧
      ∀ k, ((h.step .tick).session? k).map (·.mailbox) = (h.session? k).map fun s =>
        ((notified.filter (·.session = k)).map fun t => Message.schedule t.id).foldl
          (fun b m => (b.deliver m).2) s.mailbox) ∧
    (∀ done a rest, l = done ++ a :: rest →
      let h := start.run done
      ∀ k s, h.session? k = some s → ((h.step a).session? k).map (·.mailbox) =
        some ((((h.handed a).filter (·.session = k)).map (·.message)).foldl
          (fun b m => (b.deliver m).2) (s.mailbox.run (a.onMailbox k)))) ∧
    ∀ k s, h.session? k = some s →
      s.mailbox = Mailbox.run { capacity } (start.opsOver k l) ∧
      (Mailbox.handed { capacity } (start.opsOver k l)).map (·.message) =
        ((start.log l).filter (·.session = k)).map (·.message) := by
  intro start h
  have hstart : start.Sound := sound_create ..
  have hadmits : start.Admits l := hl.admits hstart rfl
  have hs : h.Sound := hstart.run hadmits
  have hperm : (h.subscriptions.onChannel .schedule).Perm
      (h.subscriptions.live.filter (·.channel = .schedule)) := List.mergeSort_perm ..
  refine ⟨?_, ?_, ⟨_, hperm, hs.coherent.byId_ascending _, hs.handed_tick, hs.mailbox_tick⟩,
    fun done a rest _ k s hk => (hstart.regular.run done).mailbox_action a hk,
    fun k s hk => ⟨mailbox_of_new registry policy schedule capacity commits hk,
      message_handed_opsOver _ start k l⟩⟩
  · rintro pre session text post rfl before after meantime
    have hbefore : before.Regular := hstart.regular.run pre
    have hafter : after.Regular := hbefore.step _
    have hpolicy : after.schedule = schedule :=
      (hbefore.settings_step _).2.1.trans (hstart.regular.settings_run pre).2.1
    refine ⟨fun account id hr => ?_, fun channel account id hr p hp => ?_⟩
    · obtain ⟨first, hlife⟩ := hstart.mentioning_reported hadmits hr
      rw [hafter.dues_schedule rfl, hpolicy] at hlife
      exact hlife
    · exact hstart.channel_of_mem_log hadmits hr hp
  · exact (List.length_map _).trans hperm.length_eq

/-- A request for the slots of the instrument. -/
def slotsText : String :=
  "\x7b\"id\":1,\"method\":\"subscribe_price_sched\",\"params\":\x7b\"account\":\"px\"\x7d\x7d"

/-- One slot at once and one with the first tick. The second tick comes after the closing, and the
policy leaves the quote to the clock. -/
theorem schedule_slots_interval :
    let start := create watchRegistry {} (.interval 1000) 8 none
    let pre := [.openSession (some "ann")]
    let post := [.payload 1 quoteText, .tick, .closeSession 1, .tick]
    let l := pre ++ .payload 1 slotsText :: post
    start.Orderly l ∧ (start.run pre).Reports 1 slotsText .schedule "px" 0 ∧
      (mentioning 0 (start.log l)).tail = List.replicate 2 ⟨1, .schedule 0⟩ ∧
      ∃ s, (start.run l).session? 1 = some s ∧
        s.mailbox = Mailbox.run { capacity := 8 } (start.opsOver 1 l) := by
  intro start pre post l
  have hl : start.Orderly l := by
    have hopened : start.Orderly pre := start.orderly_nil.snoc (by simp)
    have hasked : start.Orderly (pre ++ [.payload 1 slotsText]) := by
      refine hopened.snoc fun session text he => ?_
      cases he
      exact ⟨by decide +kernel, by simp [pre, Action.closes]⟩
    have hquoted : start.Orderly (pre ++ [.payload 1 slotsText] ++ [.payload 1 quoteText]) := by
      refine hasked.snoc fun session text he => ?_
      cases he
      exact ⟨by decide +kernel, by simp [pre, Action.closes]⟩
    have hticked := (hquoted.snoc (a := .tick) (by simp)).snoc (a := .closeSession 1) (by simp)
    exact hticked.snoc (a := .tick) (by simp)
  have hr : (start.run pre).Reports 1 slotsText .schedule "px" 0 := by decide +kernel
  have hticks : (post.takeWhile fun a => !a.closes 1).countP Action.isTick = 1 := by decide
  have hthere : (start.run l).known 1 = true := by
    have hregular : (start.run pre).Regular := (regular_create ..).run pre
    have hknown : (start.run pre).known 1 = true := by decide +kernel
    have hrun : start.run l = (start.run pre).run (.payload 1 slotsText :: post) := run_append ..
    rw [hrun]
    exact hregular.known_run hknown _
  obtain ⟨hslots, -, -, -, hboxes⟩ := schedule_slots watchRegistry {} (.interval 1000) 8 none l hl
  obtain ⟨hsent, -⟩ := hslots pre 1 slotsText post rfl
  obtain ⟨s, hs⟩ := Option.isSome_iff_exists.1 hthere
  refine ⟨hl, hr, ?_, s, hs, (hboxes 1 s hs).1⟩
  rw [hsent "px" 0 hr, hticks, if_neg (by simp), List.map_cons, List.tail_cons, List.map_cons,
    List.map_replicate]
  rfl

end Hub

end PriceFeed
