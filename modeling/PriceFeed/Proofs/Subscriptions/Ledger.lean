import Mathlib.Data.Finset.Card
import PriceFeed.Proofs.Subscriptions

/-!
# Subscription tables and their ledger

The history of a table lists the ids that it handed out, the subscriptions that were made live and
the sessions that were removed. Its ledger is the list of those subscriptions that a reader of the
history finds to be live. Whatever happens to a table, all of its views agree with the ledger.

## Lemmas

    every id of the history is below the next one                              (Kept.issued_lt)
    an id that waits to be activated has no live subscription                  (Kept.waits)
    the live subscriptions are those of the ledger, latest first               (Kept.live_eq)
    History l t → Kept l t                                                     (History.kept)

## Top theorem

    History l t → every view of t lists what the ledger of l has               (views_eq_ledger)
-/

namespace PriceFeed

/-! ## Distinct values -/

section Distinct

variable {α : Type} [BEq α] [LawfulBEq α]

theorem nodup_eraseDups (l : List α) : l.eraseDups.Nodup := by
  match l with
  | [] => exact List.nodup_nil
  | a :: rest =>
    rw [List.eraseDups_cons, List.nodup_cons]
    refine ⟨fun ha => ?_, nodup_eraseDups (rest.filter fun b => !b == a)⟩
    rw [List.mem_eraseDups, List.mem_filter] at ha
    simp at ha
termination_by l.length
decreasing_by exact Nat.lt_succ_of_le (List.length_filter_le ..)

theorem length_eraseDups [DecidableEq α] (l : List α) : l.eraseDups.length = l.toFinset.card := by
  have hset : l.eraseDups.toFinset = l.toFinset := by
    ext a
    rw [List.mem_toFinset, List.mem_toFinset, List.mem_eraseDups]
  rw [← hset, List.toFinset_card_of_nodup (nodup_eraseDups l)]

end Distinct

namespace Subscriptions

/-! ## Histories -/

/-- What a table is seen to do. -/
inductive Event where
  | reserved (id : Nat)
  | activated (s : Subscription)
  | added (s : Subscription)
  | removed (session : Nat)

/-- The id that an event hands out. -/
def Event.issued? : Event → Option Nat
  | reserved id => some id
  | added s => some s.id
  | activated _ => none
  | removed _ => none

/-- The ids that were handed out, in order. -/
def issued (l : List Event) : List Nat := l.filterMap (·.issued?)

/-- The id was reserved and is not activated yet. -/
def Waits (l : List Event) (id : Nat) : Prop :=
  .reserved id ∈ l ∧ ∀ s, .activated s ∈ l → s.id ≠ id

/-- The tables with their histories. Only an id that waits is activated. -/
inductive History : List Event → Subscriptions → Prop
  | new : History [] {}
  | reserve {l : List Event} {t : Subscriptions} (h : History l t) :
    History (l ++ [.reserved t.reserve.1]) t.reserve.2
  | activate {l : List Event} {t : Subscriptions} (h : History l t) {s : Subscription}
    (hs : Waits l s.id) : History (l ++ [.activated s]) (t.activate s)
  | add {l : List Event} {t : Subscriptions} (h : History l t) (session : Nat) (account : String)
    (channel : Channel) :
    History (l ++ [.added ⟨(t.add session account channel).1, session, account, channel⟩])
      (t.add session account channel).2
  | removeAll {l : List Event} {t : Subscriptions} (h : History l t) (session : Nat) :
    History (l ++ [.removed session]) (t.removeAll session).2

/-! ## Ledgers -/

/-- A ledger with an event entered. -/
def enter (ledger : List Subscription) : Event → List Subscription
  | .reserved _ => ledger
  | .activated s => ledger ++ [s]
  | .added s => ledger ++ [s]
  | .removed session => ledger.filter (·.session ≠ session)

/-- The live subscriptions of a history, in the order in which they became live. -/
def ledger (l : List Event) : List Subscription := l.foldl enter []

/-- The subscriptions of a ledger that satisfy `p`, each once and ascending by id. -/
def Lists (ledger : List Subscription) (p : Subscription → Prop) (found : List Subscription) :
    Prop :=
  found.Pairwise (·.id < ·.id) ∧ ∀ s, s ∈ found ↔ s ∈ ledger ∧ p s

theorem ledger_snoc (l : List Event) (e : Event) : ledger (l ++ [e]) = enter (ledger l) e :=
  List.foldl_append

theorem issued_snoc (l : List Event) (e : Event) :
    issued (l ++ [e]) = issued l ++ e.issued?.toList := by
  unfold issued
  rw [List.filterMap_append]
  cases h : e.issued? <;> simp [h]

/-- What waits after an event waited before, unless the event reserved it. -/
theorem Waits.of_snoc {l : List Event} {e : Event} {id : Nat} (h : Waits (l ++ [e]) id) :
    Waits l id ∨ e = .reserved id := by
  rcases List.mem_append.1 h.1 with hmem | hmem
  · exact .inl ⟨hmem, fun s hs => h.2 s (List.mem_append_left _ hs)⟩
  · exact .inr (List.mem_singleton.1 hmem).symm

/-! ## What every history keeps -/

/-- A coherent table whose live subscriptions and ids are those of the history. -/
structure Kept (l : List Event) (t : Subscriptions) : Prop where
  coherent : t.Coherent
  live_eq : t.live = (ledger l).reverse
  waits : ∀ id, Waits l id → id < t.nextId ∧ ∀ s ∈ t.live, s.id ≠ id
  issued_lt : ∀ id ∈ issued l, id < t.nextId
  ascending : (issued l).Pairwise (· < ·)

namespace Kept

variable {l : List Event} {t : Subscriptions} (k : Kept l t)
include k

theorem ascending_snoc : (issued l ++ [t.nextId]).Pairwise (· < ·) := by
  refine List.pairwise_append.2 ⟨k.ascending, List.pairwise_singleton .., fun a ha b hb => ?_⟩
  rw [List.mem_singleton.1 hb]
  exact k.issued_lt a ha

theorem issued_snoc_lt : ∀ id ∈ issued l ++ [t.nextId], id < t.nextId + 1 := by
  intro id hid
  rcases List.mem_append.1 hid with hid | hid
  · exact Nat.lt_succ_of_lt (k.issued_lt id hid)
  · rw [List.mem_singleton.1 hid]
    exact Nat.lt_succ_self _

theorem reserve : Kept (l ++ [.reserved t.reserve.1]) t.reserve.2 where
  coherent := k.coherent.reserve
  live_eq := by
    rw [ledger_snoc]
    exact k.live_eq
  waits := by
    intro id hid
    rcases hid.of_snoc with hwaits | hnew
    · obtain ⟨hlt, hlive⟩ := k.waits id hwaits
      exact ⟨Nat.lt_succ_of_lt hlt, hlive⟩
    · obtain rfl : t.nextId = id := Event.reserved.inj hnew
      exact ⟨Nat.lt_succ_self _, fun s hs => Nat.ne_of_lt (k.coherent.id_lt s hs)⟩
  issued_lt := by
    rw [issued_snoc]
    exact k.issued_snoc_lt
  ascending := by
    rw [issued_snoc]
    exact k.ascending_snoc

theorem activate {s : Subscription} (hs : Waits l s.id) :
    Kept (l ++ [.activated s]) (t.activate s) := by
  obtain ⟨hlt, hfresh⟩ := k.waits s.id hs
  have hlive := Coherent.live_activate hfresh
  have hissued : issued (l ++ [.activated s]) = issued l := (issued_snoc ..).trans (List.append_nil _)
  refine ⟨k.coherent.activate hfresh hlt, ?_, ?_, ?_, ?_⟩
  · rw [hlive, ledger_snoc, k.live_eq]
    exact List.reverse_concat.symm
  · intro id hid
    have hne : s.id ≠ id := hid.2 s (List.mem_append_right _ List.mem_cons_self)
    rcases hid.of_snoc with hwaits | hnew
    · obtain ⟨hid_lt, hid_live⟩ := k.waits id hwaits
      refine ⟨hid_lt, fun s' hs' => ?_⟩
      rcases List.mem_cons.1 (hlive ▸ hs') with rfl | hs'
      · exact hne
      · exact hid_live s' hs'
    · cases hnew
  · rw [hissued]
    exact k.issued_lt
  · rw [hissued]
    exact k.ascending

theorem add (session : Nat) (account : String) (channel : Channel) :
    Kept (l ++ [.added ⟨(t.add session account channel).1, session, account, channel⟩])
      (t.add session account channel).2 := by
  -- the id that is added at once is above every id that is live or waits
  have hfresh : ∀ old ∈ t.reserve.2.live, old.id ≠ t.nextId := fun old hold =>
    Nat.ne_of_lt (k.coherent.id_lt old hold)
  have hlive : (t.add session account channel).2.live =
      ⟨t.nextId, session, account, channel⟩ :: t.live :=
    Coherent.live_activate (s := ⟨t.nextId, session, account, channel⟩) hfresh
  refine ⟨k.coherent.reserve.activate hfresh (Nat.lt_succ_self _), ?_, ?_, ?_, ?_⟩
  · rw [hlive, ledger_snoc, k.live_eq]
    exact List.reverse_concat.symm
  · intro id hid
    rcases hid.of_snoc with hwaits | hnew
    · obtain ⟨hid_lt, hid_live⟩ := k.waits id hwaits
      refine ⟨Nat.lt_succ_of_lt hid_lt, fun s hs => ?_⟩
      rcases List.mem_cons.1 (hlive ▸ hs) with rfl | hs
      · exact Nat.ne_of_gt hid_lt
      · exact hid_live s hs
    · cases hnew
  · rw [issued_snoc]
    exact k.issued_snoc_lt
  · rw [issued_snoc]
    exact k.ascending_snoc

theorem removeAll (session : Nat) : Kept (l ++ [.removed session]) (t.removeAll session).2 := by
  have hlive := k.coherent.live_removeAll session
  have hissued : issued (l ++ [.removed session]) = issued l :=
    (issued_snoc ..).trans (List.append_nil _)
  refine ⟨k.coherent.removeAll session, ?_, ?_, ?_, ?_⟩
  · rw [hlive, ledger_snoc, k.live_eq, List.filter_reverse]
    rfl
  · intro id hid
    rcases hid.of_snoc with hwaits | hnew
    · obtain ⟨hid_lt, hid_live⟩ := k.waits id hwaits
      refine ⟨hid_lt, fun s hs => ?_⟩
      rw [hlive] at hs
      exact hid_live s (List.mem_filter.1 hs).1
    · cases hnew
  · rw [hissued]
    exact k.issued_lt
  · rw [hissued]
    exact k.ascending

end Kept

theorem History.kept {l : List Event} {t : Subscriptions} (h : History l t) : Kept l t := by
  induction h with
  | new => exact ⟨coherent_empty, rfl, fun _ h => (List.not_mem_nil h.1).elim, nofun, .nil⟩
  | reserve h ih => exact ih.reserve
  | activate h hs ih => exact ih.activate hs
  | add h session account channel ih => exact ih.add session account channel
  | removeAll h session ih => exact ih.removeAll session

/-! ## Views -/

namespace Coherent

variable {t : Subscriptions} (h : t.Coherent)
include h

/-- Some of the live subscriptions, put in order, ascend strictly. -/
theorem byId_ascending (p : Subscription → Bool) :
    (byId (t.live.filter p)).Pairwise (·.id < ·.id) := by
  have hle : (byId (t.live.filter p)).Pairwise (·.id ≤ ·.id) :=
    (List.pairwise_mergeSort (by simp only [decide_eq_true_eq]; omega)
      (by simp only [Bool.or_eq_true, decide_eq_true_eq]; omega) _).imp of_decide_eq_true
  have hne : (byId (t.live.filter p)).Pairwise (·.id ≠ ·.id) := by
    rw [← List.pairwise_map, ← List.nodup_iff_pairwise_ne]
    have hperm := (List.mergeSort_perm (t.live.filter p) fun a b => a.id ≤ b.id).map (·.id)
    exact hperm.nodup_iff.2 (h.nodup.sublist (List.filter_sublist.map _))
  exact hle.and hne |>.imp fun ⟨hle, hne⟩ => Nat.lt_of_le_of_ne hle hne

theorem removed_eq (session : Nat) :
    (t.removeAll session).1 = byId (t.live.filter (·.session = session)) := by
  unfold Subscriptions.removeAll
  refine congrArg byId (List.filter_congr fun s hs => ?_)
  simp [h.mem_sessionIds_iff hs session]

/-- What was removed is not there to be removed again. -/
theorem removeAll_removeAll (session : Nat) :
    (t.removeAll session).2.removeAll session = ([], (t.removeAll session).2) := by
  have hids : (t.removeAll session).2.sessionIds session = [] := by
    have hnone : (t.live.filter (·.session ≠ session)).filter (·.session = session) = [] := by
      simp [List.filter_filter]
    rw [(h.removeAll session).sessionIds_eq, h.live_removeAll, hnone, byId, List.mergeSort_nil,
      List.map_nil]
  generalize ht : (t.removeAll session).2 = t' at hids
  have howners : t'.owners.filter (·.1 ≠ session) = t'.owners := by
    rw [← ht]
    simp [Subscriptions.removeAll, List.filter_filter]
  unfold Subscriptions.removeAll
  simp only [hids, List.not_mem_nil, not_false_eq_true, decide_true, decide_false,
    List.filter_true, List.filter_false, List.map_nil, howners, byId, List.mergeSort_nil]

theorem stats_eq : t.stats =
    ⟨t.live.length, (t.live.map (·.session)).toFinset.card,
      (t.live.map (·.target)).toFinset.card⟩ := by
  unfold stats
  rw [h.owners_eq, h.targets_eq, List.map_map, List.map_map, length_eraseDups, length_eraseDups]
  rfl

end Coherent

/-- **All views of a table agree with the ledger of its history.** -/
theorem views_eq_ledger {l : List Event} {t : Subscriptions} (h : History l t) :
    (∀ id s, t.get? id = some s ↔ s ∈ ledger l ∧ s.id = id) ∧
    (∀ target, Lists (ledger l) (·.target = target) (t.subscribersOf target)) ∧
    (∀ channel, Lists (ledger l) (·.channel = channel) (t.onChannel channel)) ∧
    (∀ session, (t.sessionIds session).Pairwise (· < ·) ∧
      ∀ id, id ∈ t.sessionIds session ↔ ∃ s ∈ ledger l, s.session = session ∧ s.id = id) ∧
    (((ledger l).map (·.id)).Nodup ∧
      t.stats = ⟨(ledger l).length, ((ledger l).map (·.session)).toFinset.card,
        ((ledger l).map (·.target)).toFinset.card⟩) ∧
    (∀ session, Lists (ledger l) (·.session = session) (t.removeAll session).1 ∧
      (∀ id s, (t.removeAll session).2.get? id = some s ↔
        s ∈ ledger l ∧ s.session ≠ session ∧ s.id = id) ∧
      (t.removeAll session).2.removeAll session = ([], (t.removeAll session).2)) ∧
    (issued l).Pairwise (· < ·) := by
  have k := h.kept
  have hmem : ∀ s, s ∈ t.live ↔ s ∈ ledger l := fun s => by rw [k.live_eq, List.mem_reverse]
  have hlists : ∀ (p : Subscription → Prop) [DecidablePred p],
      Lists (ledger l) p (byId (t.live.filter p)) := by
    intro p _
    refine ⟨k.coherent.byId_ascending _, fun s => ?_⟩
    rw [byId, List.mem_mergeSort, List.mem_filter, hmem, decide_eq_true_eq]
  refine ⟨fun id s => ?_, fun target => ?_, fun channel => ?_, fun session => ⟨?_, fun id => ?_⟩,
    ⟨?_, ?_⟩, fun session => ⟨?_, fun id s => ?_, ?_⟩, k.ascending⟩
  · rw [k.coherent.get?_eq_some_iff, hmem]
  · rw [k.coherent.subscribersOf_eq]
    exact hlists _
  · exact hlists _
  · rw [k.coherent.sessionIds_eq, List.pairwise_map]
    exact k.coherent.byId_ascending _
  · rw [k.coherent.sessionIds_eq, List.mem_map]
    simp only [(hlists _).2, and_assoc]
  · have hnodup := k.coherent.nodup
    rw [k.live_eq, List.map_reverse, List.nodup_reverse] at hnodup
    exact hnodup
  · rw [k.coherent.stats_eq, k.live_eq]
    simp
  · rw [k.coherent.removed_eq]
    exact hlists _
  · rw [(k.coherent.removeAll session).get?_eq_some_iff, k.coherent.live_removeAll,
      List.mem_filter, hmem, decide_eq_true_eq, and_assoc]
  · exact k.coherent.removeAll_removeAll session

/-- A history in which an id is activated after a later one, for another session. -/
def lateEvents : List Event :=
  [.reserved 0, .added ⟨1, 1, "px", .price⟩, .activated ⟨0, 2, "px", .price⟩, .removed 1]

theorem views_eq_ledger_late : ∃ t, History lateEvents t ∧
    (∀ s, s ∈ t.subscribersOf ("px", .price) ↔ s = ⟨0, 2, "px", .price⟩) ∧
    t.stats = ⟨1, 1, 1⟩ := by
  have hwaits : Waits [.reserved 0, .added ⟨1, 1, "px", .price⟩] 0 :=
    ⟨List.mem_cons_self, by simp⟩
  have hlate : History lateEvents _ :=
    .removeAll (.activate (.add (.reserve .new) 1 "px" .price) (s := ⟨0, 2, "px", .price⟩) hwaits) 1
  obtain ⟨-, hsubscribers, -, -, ⟨-, hstats⟩, -⟩ := views_eq_ledger hlate
  refine ⟨_, hlate, fun s => ?_, hstats⟩
  have hledger : ledger lateEvents = [⟨0, 2, "px", .price⟩] := rfl
  rw [(hsubscribers _).2, hledger, List.mem_singleton, and_iff_left_of_imp]
  rintro rfl
  rfl

end Subscriptions

end PriceFeed
