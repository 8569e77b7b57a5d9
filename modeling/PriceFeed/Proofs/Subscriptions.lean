import PriceFeed.Proofs.Keys
import PriceFeed.Subscriptions

/-!
# Coherent subscription tables

The relations of a table from targets and from sessions to ids are read off its live subscriptions,
each of which has an id of its own below the next one. Every operation keeps this, provided that an
id is activated only once, so all views of a table agree with the list of live subscriptions.

    t.get? id = some s ↔ s ∈ t.live ∧ s.id = id                      (Coherent.get?_eq_some_iff)
    t.subscribersOf target = byId (t.live.filter (·.target = target))   (Coherent.subscribersOf_eq)
    (t.removeAll session).2.live = t.live.filter (·.session ≠ session)  (Coherent.live_removeAll)
-/

namespace PriceFeed.Subscriptions

structure Coherent (t : Subscriptions) : Prop where
  nodup : (t.live.map (·.id)).Nodup
  id_lt : ∀ s ∈ t.live, s.id < t.nextId
  targets_eq : t.targets = t.live.map fun s => (s.target, s.id)
  owners_eq : t.owners = t.live.map fun s => (s.session, s.id)

theorem coherent_empty : Coherent {} where
  nodup := List.nodup_nil
  id_lt := nofun
  targets_eq := rfl
  owners_eq := rfl

namespace Coherent

variable {t : Subscriptions} (h : t.Coherent)
include h

theorem reserve : t.reserve.2.Coherent where
  nodup := h.nodup
  id_lt := fun s hs => Nat.lt_succ_of_lt (h.id_lt s hs)
  targets_eq := h.targets_eq
  owners_eq := h.owners_eq

theorem eq_of_id {s s' : Subscription} (hs : s ∈ t.live) (hs' : s' ∈ t.live)
    (hid : s.id = s'.id) : s = s' :=
  List.inj_on_of_nodup_map h.nodup hs hs' hid

/-! ## Activation -/

omit h in
theorem live_activate {s : Subscription} (hfresh : ∀ old ∈ t.live, old.id ≠ s.id) :
    (t.activate s).live = s :: t.live := by
  have hkeep : t.live.filter (·.id ≠ s.id) = t.live := by
    rw [List.filter_eq_self]
    intro old hold
    simpa using hfresh old hold
  simp only [Subscriptions.activate, hkeep]

theorem activate {s : Subscription} (hfresh : ∀ old ∈ t.live, old.id ≠ s.id)
    (hlt : s.id < t.nextId) : (t.activate s).Coherent := by
  have hlive := live_activate hfresh
  have htarget : (s.target, s.id) ∉ t.targets := by
    rw [h.targets_eq]
    intro hm
    obtain ⟨old, hold, he⟩ := List.mem_map.1 hm
    exact hfresh old hold (Prod.mk.inj he).2
  have howner : (s.session, s.id) ∉ t.owners := by
    rw [h.owners_eq]
    intro hm
    obtain ⟨old, hold, he⟩ := List.mem_map.1 hm
    exact hfresh old hold (Prod.mk.inj he).2
  refine ⟨?_, ?_, ?_, ?_⟩
  · rw [hlive, List.map_cons, List.nodup_cons]
    refine ⟨fun hm => ?_, h.nodup⟩
    obtain ⟨old, hold, he⟩ := List.mem_map.1 hm
    exact hfresh old hold he
  · intro s' hs'
    rcases List.mem_cons.1 (hlive ▸ hs') with rfl | hs'
    · exact hlt
    · exact h.id_lt s' hs'
  · rw [hlive, List.map_cons, ← h.targets_eq]
    exact List.insert_of_not_mem htarget
  · rw [hlive, List.map_cons, ← h.owners_eq]
    exact List.insert_of_not_mem howner

omit h in
/-- Subscriptions with new ids, each handed out before, join the live ones. -/
theorem activateAll {l : List Subscription} (ht : t.Coherent) (hnodup : (l.map (·.id)).Nodup)
    (hfresh : ∀ s ∈ l, ∀ old ∈ t.live, old.id ≠ s.id) (hlt : ∀ s ∈ l, s.id < t.nextId) :
    (l.foldl Subscriptions.activate t).Coherent ∧
      (l.foldl Subscriptions.activate t).live = l.reverse ++ t.live ∧
      (l.foldl Subscriptions.activate t).nextId = t.nextId := by
  induction l generalizing t with
  | nil => exact ⟨ht, rfl, rfl⟩
  | cons s rest ih =>
    rw [List.map_cons, List.nodup_cons] at hnodup
    have hlive := live_activate (hfresh s List.mem_cons_self)
    have hstep := ht.activate (hfresh s List.mem_cons_self) (hlt s List.mem_cons_self)
    have hrest : ∀ s' ∈ rest, ∀ old ∈ (t.activate s).live, old.id ≠ s'.id := by
      intro s' hs' old hold
      rw [hlive] at hold
      rcases List.mem_cons.1 hold with rfl | hold
      · exact fun he => hnodup.1 (he ▸ List.mem_map_of_mem hs')
      · exact hfresh s' (List.mem_cons_of_mem _ hs') old hold
    obtain ⟨hc, hl, hn⟩ :=
      ih hstep hnodup.2 hrest fun s' hs' => hlt s' (List.mem_cons_of_mem _ hs')
    refine ⟨hc, ?_, hn⟩
    rw [List.foldl_cons, hl, hlive, List.reverse_cons, List.append_assoc]
    rfl

/-! ## Looking up -/

theorem get?_eq_some_iff {id : Nat} {s : Subscription} :
    t.get? id = some s ↔ s ∈ t.live ∧ s.id = id :=
  find?_key_eq_some_iff h.nodup

omit h in
/-- The ids that a relation has for a key are those of the subscriptions with that key. -/
theorem ids_eq {κ : Type} [DecidableEq κ] (key : Subscription → κ) (l : List Subscription) (k : κ) :
    (((l.map fun s => (key s, s.id)).filter (·.1 = k)).map (·.2)).mergeSort (· ≤ ·) =
      (byId (l.filter (key · = k))).map (·.id) := by
  have hmap : ((l.filter (key · = k)).map (·.id)).mergeSort (· ≤ ·) =
      (byId (l.filter (key · = k))).map (·.id) :=
    (List.map_mergeSort (f := Subscription.id) (r := fun a b => a.id ≤ b.id)
      fun _ _ _ _ => rfl).symm
  rw [← hmap, List.filter_map, List.map_map]
  rfl

theorem targetIds_eq (target : Target) :
    t.targetIds target = (byId (t.live.filter (·.target = target))).map (·.id) := by
  unfold targetIds
  rw [h.targets_eq]
  exact ids_eq Subscription.target t.live target

theorem sessionIds_eq (session : Nat) :
    t.sessionIds session = (byId (t.live.filter (·.session = session))).map (·.id) := by
  unfold sessionIds
  rw [h.owners_eq]
  exact ids_eq Subscription.session t.live session

/-- The subscriptions to a target are the live ones with that target. -/
theorem subscribersOf_eq (target : Target) :
    t.subscribersOf target = byId (t.live.filter (·.target = target)) := by
  unfold subscribersOf
  rw [h.targetIds_eq, List.filterMap_map]
  have hget : ∀ s ∈ byId (t.live.filter (·.target = target)), (t.get? ∘ (·.id)) s = some s := by
    intro s hs
    have hmem := List.mem_mergeSort.1 hs
    exact h.get?_eq_some_iff.2 ⟨(List.mem_filter.1 hmem).1, rfl⟩
  rw [List.filterMap_congr hget, List.filterMap_some]

/-- Among some of the live subscriptions, put in order, each occurs once. -/
theorem filter_byId {s : Subscription} (hs : s ∈ t.live) (p : Subscription → Bool) :
    (byId (t.live.filter p)).filter (·.id = s.id) = if p s then [s] else [] := by
  have hperm := (List.mergeSort_perm (t.live.filter p) fun a b => a.id ≤ b.id).filter (·.id = s.id)
  rw [List.filter_comm, filter_key_of_mem h.nodup hs] at hperm
  split
  · next hp =>
    rw [List.filter_cons_of_pos hp] at hperm
    exact List.perm_singleton.1 hperm
  · next hp =>
    rw [List.filter_cons_of_neg hp] at hperm
    exact List.perm_nil.1 hperm

/-- A live subscription is notified once for its target, and for no other. -/
theorem filter_subscribersOf {s : Subscription} (hs : s ∈ t.live) (target : Target) :
    (t.subscribersOf target).filter (·.id = s.id) = if s.target = target then [s] else [] := by
  rw [h.subscribersOf_eq, h.filter_byId hs]
  simp only [decide_eq_true_eq]

theorem filter_onChannel {s : Subscription} (hs : s ∈ t.live) (channel : Channel) :
    (t.onChannel channel).filter (·.id = s.id) = if s.channel = channel then [s] else [] := by
  rw [onChannel, h.filter_byId hs]
  simp only [decide_eq_true_eq]

omit h in
theorem mem_live_of_mem_subscribersOf {s : Subscription} {target : Target}
    (hs : s ∈ t.subscribersOf target) : s ∈ t.live := by
  obtain ⟨id, -, hget⟩ := List.mem_filterMap.1 hs
  exact List.mem_of_find?_eq_some hget

omit h in
theorem mem_live_of_mem_onChannel {s : Subscription} {channel : Channel}
    (hs : s ∈ t.onChannel channel) : s ∈ t.live :=
  (List.mem_filter.1 (List.mem_mergeSort.1 hs)).1

/-! ## Removal -/

theorem mem_sessionIds_iff {s : Subscription} (hs : s ∈ t.live) (session : Nat) :
    s.id ∈ t.sessionIds session ↔ s.session = session := by
  rw [h.sessionIds_eq, List.mem_map]
  constructor
  · rintro ⟨old, hold, hid⟩
    obtain ⟨hmem, hsession⟩ := List.mem_filter.1 (List.mem_mergeSort.1 hold)
    rw [← h.eq_of_id hmem hs hid]
    exact of_decide_eq_true hsession
  · intro hsession
    exact ⟨s, List.mem_mergeSort.2 (List.mem_filter.2 ⟨hs, decide_eq_true hsession⟩), rfl⟩

theorem live_removeAll (session : Nat) :
    (t.removeAll session).2.live = t.live.filter (·.session ≠ session) := by
  unfold Subscriptions.removeAll
  apply List.filter_congr
  intro s hs
  simp [h.mem_sessionIds_iff hs session]

theorem removeAll (session : Nat) : (t.removeAll session).2.Coherent := by
  have hlive := h.live_removeAll session
  refine ⟨?_, ?_, ?_, ?_⟩
  · rw [hlive]
    exact h.nodup.sublist (List.filter_sublist.map _)
  · intro s hs
    rw [hlive] at hs
    exact h.id_lt s (List.mem_filter.1 hs).1
  · rw [hlive]
    simp only [Subscriptions.removeAll]
    rw [h.targets_eq, List.filter_map]
    congr 1
    apply List.filter_congr
    intro s hs
    have hmem : (s.target, s.id) ∈ (t.live.filter (·.id ∈ t.sessionIds session)).map
        (fun s => (s.target, s.id)) ↔ s.session = session := by
      rw [← h.mem_sessionIds_iff hs session, List.mem_map]
      constructor
      · rintro ⟨old, hold, he⟩
        obtain ⟨-, hid⟩ := List.mem_filter.1 hold
        rw [← (Prod.mk.inj he).2]
        simpa using hid
      · intro hid
        exact ⟨s, List.mem_filter.2 ⟨hs, by simpa using hid⟩, rfl⟩
    simp only [Function.comp_apply, hmem, ne_eq]
  · rw [hlive]
    simp only [Subscriptions.removeAll]
    rw [h.owners_eq, List.filter_map]
    rfl

end Coherent

end PriceFeed.Subscriptions
