import PriceFeed.Proofs.Hub.Runs

/-!
# Counts of the commit queue

The hub counts what it does itself, and leaves it to the commit queue to count the commits that are
dropped or refused. So what the metrics show of these is what the queue has counted.

    the metrics show a queue's own counts                                  (get_allMetrics)
    no action counts for the queue                                         (queueCounts_step)
-/

namespace PriceFeed

/-- The commit queue counts these events, not the hub. -/
def Series.ofQueue : Series → Bool
  | .commitsDropped => true
  | .commitsFailed => true
  | _ => false

namespace Hub

/-- What the hub itself has counted of dropped and of refused commits. -/
def queueCounts (h : Hub) : Nat × Nat :=
  (h.metrics.get .commitsDropped, h.metrics.get .commitsFailed)

theorem get_allMetrics {h : Hub} {q : CommitQueue} (hq : h.commits = some q)
    (hnone : h.queueCounts = (0, 0)) :
    h.allMetrics.get .commitsDropped = q.dropped ∧ h.allMetrics.get .commitsFailed = q.failed := by
  obtain ⟨hdropped, hfailed⟩ := Prod.mk.inj hnone
  unfold allMetrics
  rw [hq]
  simp only
  rw [Metrics.get_add_of_ne (by decide), Metrics.get_add_self, Metrics.get_add_self,
    Metrics.get_add_of_ne (by decide), hdropped, hfailed, Nat.zero_add, Nat.zero_add]
  exact ⟨rfl, rfl⟩

theorem queueCounts_count {s : Series} (hs : s.ofQueue = false) (h : Hub) :
    (h.count s).queueCounts = h.queueCounts := by
  have hne : ∀ t : Series, t.ofQueue = true → t ≠ s := by
    rintro t ht rfl
    rw [hs] at ht
    cases ht
  exact Prod.ext (Metrics.get_add_of_ne (hne _ rfl) ..) (Metrics.get_add_of_ne (hne _ rfl) ..)

theorem queueCounts_countAll {l : List Series} (hl : ∀ s ∈ l, s.ofQueue = false) (h : Hub) :
    (h.countAll l).queueCounts = h.queueCounts := by
  induction l generalizing h with
  | nil => rfl
  | cons s rest ih =>
    exact (ih (fun t ht => hl t (List.mem_cons_of_mem _ ht)) _).trans
      (queueCounts_count (hl s List.mem_cons_self) h)

theorem queueCounts_updateGauges (h : Hub) : h.updateGauges.queueCounts = h.queueCounts := by
  unfold updateGauges queueCounts
  simp only
  rw [Metrics.get_set_of_ne (by decide), Metrics.get_set_of_ne (by decide),
    Metrics.get_set_of_ne (by decide), Metrics.get_set_of_ne (by decide)]

/-! ## Delivery -/

theorem queueCounts_handOver (h : Hub) (s : Session) (m : Message) :
    (h.handOver s m).2.queueCounts = h.queueCounts := by
  rcases h.handOver_cases s m with he | he <;> rw [he]
  · rfl
  · exact queueCounts_count rfl _

theorem queueCounts_deliver (h : Hub) (p : Post) : (h.deliver p).queueCounts = h.queueCounts := by
  unfold deliver
  split
  · cases h.session? p.session with
    | none => rfl
    | some s => exact queueCounts_handOver ..
  · cases (h.session? p.session).filter (·.listed) with
    | none => exact queueCounts_count rfl h
    | some s =>
      have hbefore := queueCounts_handOver h s p.message
      simp only
      cases he : h.handOver s p.message with
      | mk delivery h' =>
        rw [he] at hbefore
        cases delivery <;> exact (queueCounts_count rfl h').trans hbefore

theorem queueCounts_deliverAll (h : Hub) (posts : List Post) :
    (h.deliverAll posts).queueCounts = h.queueCounts := by
  induction posts generalizing h with
  | nil => rfl
  | cons p rest ih => exact (ih (h.deliver p)).trans (h.queueCounts_deliver p)

/-! ## Payloads -/

theorem Answered.queueCounts {publisher : Option String} {p p' : Progress} {item : Envelope}
    {r : Response} (ha : Answered publisher p item r p') :
    p'.hub.queueCounts = p.hub.queueCounts := by
  cases ha with
  | refused served =>
    exact queueCounts_countAll (by cases served <;> simp [Series.ofQueue]) _
  | listed hmethod => exact queueCounts_countAll (by simp [Series.ofQueue]) _
  | subscribed channel hmethod hparams hlookup =>
    exact (queueCounts_countAll (by simp [Series.ofQueue]) _).trans rfl
  | updated hmethod hparams hlookup hready hsubmit =>
    exact (queueCounts_countAll (by simp [Series.ofQueue]) _).trans rfl

theorem queueCounts_answerAll (p : Progress) (publisher : Option String)
    (items : List Envelope) :
    (answerAll p publisher items).2.hub.queueCounts = p.hub.queueCounts := by
  induction items generalizing p with
  | nil => rfl
  | cons item rest ih => exact (ih _).trans (answered p publisher item).queueCounts

theorem queueCounts_activateAll (h : Hub) (session : Nat) (l : List Activation) :
    (h.activateAll session l).2.queueCounts = h.queueCounts := by
  induction l generalizing h with
  | nil => rfl
  | cons a rest ih =>
    refine (ih (h.activate session a).2).trans ?_
    unfold activate
    cases h.board.read a.account with
    | error e => rfl
    | ok aggregate => exact queueCounts_updateGauges _

theorem queueCounts_process (h : Hub) (session : Nat) (text : String) :
    (h.process session text).2.queueCounts = h.queueCounts := by
  refine (queueCounts_activateAll ..).trans ?_
  rcases h.reply_cases (h.publisherOf session) text with he | ⟨-, e, he⟩
  · exact (congrArg (·.hub.queueCounts) (Prod.mk.inj he).2).trans (queueCounts_answerAll ..)
  · exact (congrArg (·.2.hub.queueCounts) he).trans (queueCounts_count rfl h)

/-! ## Actions -/

theorem queueCounts_closeSession (h : Hub) (id : Nat) :
    (h.closeSession id).queueCounts = h.queueCounts := by
  rcases h.closeSession_cases id with ⟨-, he⟩ | ⟨-, he⟩ <;> rw [he]
  · rfl
  · exact queueCounts_updateGauges _

theorem queueCounts_step (h : Hub) (a : Action) : (h.step a).queueCounts = h.queueCounts := by
  rw [step_eq, queueCounts_deliverAll]
  cases a with
  | payload session text => exact queueCounts_process h session text
  | openSession publisher => exact queueCounts_updateGauges _
  | closeSession session => exact queueCounts_closeSession h session
  | unreadable session => exact queueCounts_count rfl h
  | receive session count =>
    show (h.receive session count).2.queueCounts = _
    unfold receive
    split <;> rfl
  | _ => rfl

end Hub

end PriceFeed
