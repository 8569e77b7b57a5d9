import PriceFeed.Proofs.Hub.Notices

/-!
# Runs of a hub

A run is a list of actions, in any order and on any sessions. A hub stays regular in every run. It
stays sound while payloads come only from sessions that are not closed (`Admits`). In a run of a new
hub this is so if payloads come only from sessions that were opened and are not closed before
(`Orderly`).

    h.Regular → (h.run l).Regular                                                    (Regular.run)
    h.Sound → h.Admits l → (h.run l).Sound                                             (Sound.run)
    a live subscription stays until its session is closed                    (Sound.mem_live_step)
    (create …).Orderly l → (create …).Admits l                                  (Orderly.admits)
-/

namespace PriceFeed

/-- What can happen to a hub. -/
inductive Action where
  | openSession (publisher : Option String)
  | closeSession (session : Nat)
  | payload (session : Nat) (text : String)
  | unreadable (session : Nat)
  | tick
  | receive (session count : Nat)
  | hangUp (session : Nat)
  | dropReceiver (session : Nat)
  /-- The worker does something to the commit queue. -/
  | work (f : CommitQueue → CommitQueue)

/-- The action closes a session. -/
def Action.closes (session : Nat) : Action → Bool
  | closeSession id => id = session
  | _ => false

namespace Hub

/-! ## Actions -/

def step (h : Hub) : Action → Hub
  | .openSession publisher => (h.openSession publisher).2
  | .closeSession session => h.closeSession session
  | .payload session text => h.handlePayload session text
  | .unreadable session => h.handleUnreadable session
  | .tick => h.tick.2
  | .receive session count => (h.receive session count).2
  | .hangUp session => h.hangUp session
  | .dropReceiver session => h.dropReceiver session
  | .work f => { h with commits := h.commits.map f }

def run (h : Hub) (l : List Action) : Hub := l.foldl step h

/-- The posts that an action delivers, and the hub to which it delivers them. -/
def issue (h : Hub) : Action → List Post × Hub
  | .payload session text => h.process session text
  | .unreadable session =>
    ([⟨session, .reply (.single ⟨.null, .error .parseError⟩)⟩], h.count (.errors .parseError))
  | .tick => (h.tickPosts, h)
  | a => ([], h.step a)

theorem step_eq (h : Hub) (a : Action) : h.step a = (h.issue a).2.deliverAll (h.issue a).1 := by
  cases a <;> rfl

theorem run_append (h : Hub) (l l' : List Action) : h.run (l ++ l') = (h.run l).run l' :=
  List.foldl_append

theorem like_receive (h : Hub) (session count : Nat) : h.Like (h.receive session count).2 := by
  unfold receive
  split
  · exact .refl h
  · exact h.like_modifyMailbox ..

/-- All that an action can do before its posts are delivered. -/
inductive Issued (h : Hub) : Action → Hub → Prop
  | payload (session : Nat) (text : String) :
    Issued h (.payload session text) (h.process session text).2
  | opened (publisher : Option String) :
    Issued h (.openSession publisher) (h.openSession publisher).2
  | closed (session : Nat) : Issued h (.closeSession session) (h.closeSession session)
  | quiet {a : Action} {h' : Hub} (hcloses : ∀ session, a.closes session = false)
    (commits : Option CommitQueue) (hl : ({ h with commits } : Hub).Like h') : Issued h a h'

theorem issued (h : Hub) (a : Action) : Issued h a (h.issue a).2 := by
  cases a with
  | payload session text => exact .payload session text
  | openSession publisher => exact .opened publisher
  | closeSession session => exact .closed session
  | unreadable session => exact .quiet (fun _ => rfl) h.commits (like_count h rfl)
  | tick => exact .quiet (fun _ => rfl) h.commits (.refl h)
  | receive session count => exact .quiet (fun _ => rfl) h.commits (like_receive h session count)
  | hangUp session => exact .quiet (fun _ => rfl) h.commits (like_hangUp h session)
  | dropReceiver session => exact .quiet (fun _ => rfl) h.commits (h.like_modifyMailbox ..)
  | work f => exact .quiet (fun _ => rfl) (h.commits.map f) (.refl _)

theorem subscriptions_step (h : Hub) (a : Action) :
    (h.step a).subscriptions = (h.issue a).2.subscriptions := by
  rw [step_eq]
  exact (like_deliverAll ..).subscriptions

/-! ## Regularity -/

/-- The subscriptions that an action makes live, latest first. -/
def made (h : Hub) : Action → List Subscription
  | .payload session text =>
    ((h.progressOf session text).pending.map (·.subscription session)).reverse
  | _ => []

namespace Regular

variable {h : Hub} (hr : h.Regular)
include hr

theorem issue (a : Action) : (h.issue a).2.Regular := by
  have hissued := h.issued a
  generalize (h.issue a).2 = h' at hissued
  cases hissued with
  | payload session text => exact hr.process session text
  | opened publisher => exact ⟨hr.covers, hr.coherent⟩
  | closed session => exact hr.closeSession session
  | quiet hcloses commits hl =>
    have hsame : ({ h with commits } : Hub).Regular := ⟨hr.covers, hr.coherent⟩
    exact hsame.like hl

theorem step (a : Action) : (h.step a).Regular := by
  rw [step_eq]
  exact (hr.issue a).like (like_deliverAll ..)

/-- What a hub is created with stays as it is. -/
theorem settings_step (a : Action) :
    (h.step a).registry = h.registry ∧ (h.step a).schedule = h.schedule ∧
      (h.step a).capacity = h.capacity := by
  have hlike := like_deliverAll (h.issue a).2 (h.issue a).1
  rw [step_eq, hlike.registry, hlike.schedule, hlike.capacity]
  have hissued := h.issued a
  generalize (h.issue a).2 = h' at hissued
  cases hissued with
  | payload session text =>
    have ha := hr.activated session text
    have hf := hr.follows session text
    exact ⟨ha.registry.trans hf.registry, ha.schedule.trans hf.schedule,
      ha.capacity.trans hf.capacity⟩
  | opened publisher => exact ⟨rfl, rfl, rfl⟩
  | closed session =>
    rcases h.closeSession_cases session with ⟨-, he⟩ | ⟨-, he⟩ <;> rw [he]
    · exact ⟨rfl, rfl, rfl⟩
    · exact ⟨rfl, rfl, rfl⟩
  | quiet hcloses commits hl => exact ⟨hl.registry, hl.schedule, hl.capacity⟩

theorem registry_step (a : Action) : (h.step a).registry = h.registry := (hr.settings_step a).1

/-- Only an opening adds a session. -/
theorem known_step_eq {a : Action} (ha : ¬ ∃ publisher, a = .openSession publisher) (id : Nat) :
    (h.step a).known id = h.known id := by
  have hlike := like_deliverAll (h.issue a).2 (h.issue a).1
  rw [step_eq, known_eq, hlike.roster, ← known_eq]
  have hissued := h.issued a
  generalize (h.issue a).2 = h' at hissued
  cases hissued with
  | payload session text => rw [known_eq, hr.roster_process, ← known_eq]
  | opened publisher => exact absurd ⟨publisher, rfl⟩ ha
  | closed session => exact known_closeSession ..
  | quiet _ commits hl =>
    rw [known_eq, hl.roster]
    exact (known_eq h id).symm

/-- All that an action can do to the live subscriptions: closing an open session removes its own,
and those of a payload join with new ids. -/
theorem live_step (a : Action) :
    (h.step a).subscriptions.live = h.made a ++
        h.subscriptions.live.filter (fun s => !(a.closes s.session && h.isOpen s.session)) ∧
      (∀ s ∈ h.made a, h.subscriptions.nextId ≤ s.id ∧ s.id < (h.step a).subscriptions.nextId) ∧
      h.subscriptions.nextId ≤ (h.step a).subscriptions.nextId := by
  have hkeep : h.subscriptions.live = h.subscriptions.live.filter fun s =>
      !(false && h.isOpen s.session) := (List.filter_eq_self.2 fun _ _ => rfl).symm
  rw [subscriptions_step]
  cases a with
  | payload session text =>
    obtain ⟨-, hlive, hnext⟩ := hr.subscriptions_process session text
    have hnext : (h.issue (.payload session text)).2.subscriptions.nextId = _ := hnext
    refine ⟨hlive.trans (congrArg _ hkeep), fun s hmem => ?_, ?_⟩
    · rw [made, List.mem_reverse, List.mem_map] at hmem
      obtain ⟨b, hb, rfl⟩ := hmem
      rw [hnext]
      exact (hr.follows session text).id_pending hb
    · rw [hnext]
      exact Nat.le_add_right ..
  | closeSession session =>
    obtain ⟨-, hlive, hnext⟩ := hr.subscriptions_closeSession session
    refine ⟨hlive.trans (List.filter_congr fun s _ => ?_), nofun, Nat.le_of_eq hnext.symm⟩
    by_cases hid : s.session = session
    · simp [Action.closes, hid]
    · simp [Action.closes, hid, eq_comm (a := session)]
  | receive session count =>
    have hsame : (h.issue (.receive session count)).2.subscriptions = h.subscriptions :=
      (like_receive h session count).subscriptions
    rw [hsame]
    exact ⟨hkeep, nofun, Nat.le_refl _⟩
  | _ => exact ⟨hkeep, nofun, Nat.le_refl _⟩

theorem run (l : List Action) : (h.run l).Regular := by
  induction l generalizing h with
  | nil => exact hr
  | cons a rest ih => exact ih (hr.step a)

theorem settings_run (l : List Action) :
    (h.run l).registry = h.registry ∧ (h.run l).schedule = h.schedule ∧
      (h.run l).capacity = h.capacity := by
  induction l generalizing h with
  | nil => exact ⟨rfl, rfl, rfl⟩
  | cons a rest ih =>
    obtain ⟨hregistry, hschedule, hcapacity⟩ := hr.settings_step a
    obtain ⟨hregistry', hschedule', hcapacity'⟩ := ih (hr.step a)
    exact ⟨hregistry'.trans hregistry, hschedule'.trans hschedule, hcapacity'.trans hcapacity⟩

theorem registry_run (l : List Action) : (h.run l).registry = h.registry := (hr.settings_run l).1

end Regular

/-! ## Soundness -/

/-- A payload is allowed from a session that is not closed. -/
def Allows (h : Hub) : Action → Prop
  | .payload session _ => h.isOpen session = true
  | _ => True

/-- Every action of a run is allowed when it comes. -/
def Admits (h : Hub) : List Action → Prop
  | [] => True
  | a :: rest => h.Allows a ∧ (h.step a).Admits rest

theorem admits_append {h : Hub} {l l' : List Action} :
    h.Admits (l ++ l') ↔ h.Admits l ∧ (h.run l).Admits l' := by
  induction l generalizing h with
  | nil => exact (true_and _ ▸ Iff.rfl)
  | cons a rest ih =>
    rw [List.cons_append, Admits, ih, Admits, and_assoc]
    rfl

namespace Sound

variable {h : Hub} (hs : h.Sound)
include hs

theorem issue {a : Action} (ha : h.Allows a) : (h.issue a).2.Sound := by
  have hissued := h.issued a
  generalize (h.issue a).2 = h' at hissued
  cases hissued with
  | payload session text => exact hs.process session text ha
  | opened publisher => exact hs.openSession publisher
  | closed session => exact hs.closeSession session
  | quiet hcloses commits hl =>
    have hsame : ({ h with commits } : Hub).Sound :=
      ⟨hs.covers, hs.coherent, hs.session_open, hs.registered, hs.gauged.sessions,
        hs.gauged.subscriptions⟩
    exact hsame.like hl

theorem step {a : Action} (ha : h.Allows a) : (h.step a).Sound := by
  rw [step_eq]
  exact (hs.issue ha).like (like_deliverAll ..)

theorem registry_step (a : Action) : (h.step a).registry = h.registry :=
  hs.regular.registry_step a

/-- Closing a session removes its subscriptions, and those of a payload join with new ids. -/
theorem live_step (a : Action) :
    ∃ new, (h.step a).subscriptions.live =
        new ++ h.subscriptions.live.filter (fun s => !a.closes s.session) ∧
      (∀ s ∈ new, h.subscriptions.nextId ≤ s.id ∧ s.id < (h.step a).subscriptions.nextId) ∧
      h.subscriptions.nextId ≤ (h.step a).subscriptions.nextId := by
  obtain ⟨hlive, hnew, hnext⟩ := hs.regular.live_step a
  refine ⟨h.made a, hlive.trans (congrArg _ (List.filter_congr fun s hmem => ?_)), hnew, hnext⟩
  rw [hs.session_open s hmem, Bool.and_true]

/-- Ids are handed out in ascending order. -/
theorem nextId_step_le (a : Action) : h.subscriptions.nextId ≤ (h.step a).subscriptions.nextId := by
  obtain ⟨new, -, -, hnext⟩ := hs.live_step a
  exact hnext

/-- What is live after an action was live before, or is new. -/
theorem of_mem_live_step {a : Action} {s : Subscription}
    (hmem : s ∈ (h.step a).subscriptions.live) :
    s ∈ h.subscriptions.live ∧ a.closes s.session = false ∨
      h.subscriptions.nextId ≤ s.id ∧ s.id < (h.step a).subscriptions.nextId := by
  obtain ⟨new, hlive, hnew, -⟩ := hs.live_step a
  rw [hlive, List.mem_append, List.mem_filter] at hmem
  rcases hmem with hmem | ⟨hmem, hkeep⟩
  · exact .inr (hnew s hmem)
  · exact .inl ⟨hmem, by simpa using hkeep⟩

/-- A live subscription stays live until its session is closed. -/
theorem mem_live_step {a : Action} {s : Subscription} (hmem : s ∈ h.subscriptions.live)
    (hcloses : a.closes s.session = false) : s ∈ (h.step a).subscriptions.live := by
  obtain ⟨new, hlive, -, -⟩ := hs.live_step a
  rw [hlive, List.mem_append, List.mem_filter, hcloses]
  exact .inr ⟨hmem, rfl⟩

theorem run {l : List Action} (hl : h.Admits l) : (h.run l).Sound := by
  induction l generalizing h with
  | nil => exact hs
  | cons a rest ih => exact ih (hs.step hl.1) hl.2

theorem registry_run {l : List Action} (_ : h.Admits l) : (h.run l).registry = h.registry :=
  hs.regular.registry_run l

theorem nextId_run_le {l : List Action} (hl : h.Admits l) :
    h.subscriptions.nextId ≤ (h.run l).subscriptions.nextId := by
  induction l generalizing h with
  | nil => exact Nat.le_refl _
  | cons a rest ih => exact Nat.le_trans (hs.nextId_step_le a) (ih (hs.step hl.1) hl.2)

end Sound

/-! ## Sessions in the course of a run -/

namespace Sound

variable {h : Hub} (hs : h.Sound)
include hs

/-- A session stays open until it is closed. -/
theorem isOpen_step {id : Nat} (hopen : h.isOpen id = true) {a : Action}
    (hcloses : a.closes id = false) : (h.step a).isOpen id = true := by
  rw [step_eq, (like_deliverAll ..).isOpen]
  have hissued := h.issued a
  generalize (h.issue a).2 = h' at hissued
  cases hissued with
  | payload session text => rw [isOpen_eq, hs.regular.roster_process, ← isOpen_eq, hopen]
  | opened publisher => exact isOpen_openSession hopen publisher
  | closed session =>
    rw [isOpen_closeSession, hopen, Bool.and_true]
    exact decide_eq_true fun he => of_decide_eq_false hcloses he.symm
  | quiet _ commits hl => rw [hl.isOpen, ← hopen]; rfl

/-- A session that is there after an action was there before, or is open. -/
theorem known_step {id : Nat} {a : Action} (hknown : (h.step a).known id = true) :
    h.known id = true ∨ (h.step a).isOpen id = true := by
  by_cases ha : ∃ publisher, a = .openSession publisher
  · obtain ⟨publisher, rfl⟩ := ha
    rcases h.session?_openSession publisher id with ⟨-, hbefore⟩ | ⟨-, hnew⟩
    · exact .inl hbefore
    · obtain ⟨s, hsome⟩ := Option.isSome_iff_exists.1 hknown
      exact .inr (isOpen_iff.2 ⟨s, hsome, (hnew s hsome).1⟩)
  · exact .inl (hs.regular.known_step_eq ha id ▸ hknown)

end Sound

/-- Payloads are handled only on sessions that were opened and are not closed before. -/
def Orderly (h : Hub) (l : List Action) : Prop :=
  ∀ pre session text post, l = pre ++ .payload session text :: post →
    (h.run pre).known session = true ∧ ∀ a ∈ pre, a.closes session = false

theorem orderly_nil (h : Hub) : h.Orderly [] := by
  intro pre session text post he
  cases pre <;> cases he

theorem Orderly.of_append {h : Hub} {l l' : List Action} (hl : h.Orderly (l ++ l')) :
    h.Orderly l := by
  intro pre session text post he
  exact hl pre session text (post ++ l') (by rw [he, List.append_assoc]; rfl)

theorem Orderly.snoc {h : Hub} {l : List Action} (hl : h.Orderly l) {a : Action}
    (ha : ∀ session text, a = .payload session text →
      (h.run l).known session = true ∧ ∀ b ∈ l, b.closes session = false) :
    h.Orderly (l ++ [a]) := by
  intro pre session text post he
  rcases List.eq_nil_or_concat post with rfl | ⟨before, last, rfl⟩
  · obtain ⟨rfl, hlast⟩ := List.append_inj' he rfl
    exact ha session text (List.singleton_inj.1 hlast)
  · rw [List.concat_eq_append, ← List.cons_append, ← List.append_assoc] at he
    exact hl pre session text before (List.append_inj' he rfl).1

/-- In an orderly run of a new hub a payload never meets a closed session. -/
theorem Orderly.admits {h : Hub} (hs : h.Sound) (hnew : h.sessions = []) {l : List Action}
    (hl : h.Orderly l) : h.Admits l := by
  -- proved together: a session that is there and was not closed is open
  have hboth : h.Admits l ∧ ∀ id, (∀ a ∈ l, a.closes id = false) →
      (h.run l).known id = true → (h.run l).isOpen id = true := by
    induction l using List.reverseRecOn with
    | nil =>
      refine ⟨trivial, fun id _ hknown => ?_⟩
      have hnone : h.known id = false := by
        unfold known session?
        rw [hnew]
        rfl
      rw [show h.run [] = h from rfl, hnone] at hknown
      cases hknown
    | append_singleton l a ih =>
      obtain ⟨hadmits, hopen⟩ := ih hl.of_append
      have hsound := hs.run hadmits
      have hallows : (h.run l).Allows a := by
        cases a with
        | payload session text =>
          obtain ⟨hknown, hcloses⟩ := hl l session text [] rfl
          exact hopen session hcloses hknown
        | _ => trivial
      refine ⟨admits_append.2 ⟨hadmits, hallows, trivial⟩, fun id hcloses hknown => ?_⟩
      rw [run_append] at hknown ⊢
      have hlast := hcloses a (List.mem_append_right _ List.mem_cons_self)
      rcases hsound.known_step hknown with hbefore | hafter
      · have hfirst : ∀ b ∈ l, b.closes id = false := fun b hb =>
          hcloses b (List.mem_append_left _ hb)
        exact hsound.isOpen_step (hopen id hfirst hbefore) hlast
      · exact hafter
  exact hboth.1

end Hub

end PriceFeed
