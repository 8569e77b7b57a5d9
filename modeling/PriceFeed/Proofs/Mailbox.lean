import PriceFeed.Mailbox

/-!
# Runs of a mailbox

Both sides act on a mailbox in any order. While the receiver is there, what it has received and what
still waits are together the messages that were queued, in order. A closed mailbox queues nothing
more, so what was queued is the beginning of all that was handed in, without a gap.

    all that handing in a message can do                                          (deliver_cases)
    b.Kept handed received → it is kept after an operation, too                        (Kept.step)
    b.isClosed → it stays closed and queues nothing                                   (closed_run)
    b.receiveMany count = what `count` times `receive` comes to                   (receiveMany_eq)

## Top theorem

    a receiver gets all messages up to the closing, in order                  (received_in_order)
-/

namespace PriceFeed

/-- The message that was found, if there was one. -/
def Receipt.message? {μ : Type} : Receipt μ → Option μ
  | message m => some m
  | empty => none
  | disconnected => none

namespace Mailbox

variable {μ : Type}

/-! ## Operations -/

/-- What the two sides can do with a mailbox. -/
inductive Op (μ : Type) where
  | deliver (m : μ)
  | receive
  /-- Either side closes the mailbox. -/
  | cancel
  | dropSender
  | dropReceiver

/-- The message that an operation hands in. -/
def Op.message? : Op μ → Option μ
  | deliver m => some m
  | _ => none

/-- A message that was handed in, and what became of it. -/
structure Handed (μ : Type) where
  message : μ
  delivery : Delivery
  deriving DecidableEq, Repr

/-- The messages that were queued, of those handed in. -/
def queued (l : List (Handed μ)) : List μ := (l.filter (·.delivery = .queued)).map (·.message)

def step (b : Mailbox μ) : Op μ → Mailbox μ
  | .deliver m => (b.deliver m).2
  | .receive => b.receive.2
  | .cancel => b.cancel
  | .dropSender => b.dropSender
  | .dropReceiver => b.dropReceiver

/-- What an operation hands in. -/
def handedBy (b : Mailbox μ) : Op μ → List (Handed μ)
  | .deliver m => [⟨m, (b.deliver m).1⟩]
  | _ => []

/-- What an operation takes out. -/
def receivedBy (b : Mailbox μ) : Op μ → List μ
  | .receive => b.receive.1.message?.toList
  | _ => []

/-- All that handing in a message can do. -/
theorem deliver_cases (b : Mailbox μ) (m : μ) :
    b.isClosed = true ∧ b.deliver m = (.closed, b) ∨
      b.isClosed = false ∧ b.queue.length < b.room ∧
        b.deliver m = (.queued, { b with queue := b.queue ++ [m] }) ∨
      b.isClosed = false ∧ b.room ≤ b.queue.length ∧
        b.deliver m = (.overflow, { b with cancelled := true }) := by
  unfold deliver
  split
  · next hclosed => exact .inl ⟨hclosed, rfl⟩
  · next hopen =>
    have hopen := Bool.eq_false_iff.2 hopen
    split
    · next hroom => exact .inr (.inl ⟨hopen, hroom, rfl⟩)
    · next hfull => exact .inr (.inr ⟨hopen, Nat.not_lt.1 hfull, rfl⟩)

/-- To look for a message takes the oldest one out, if one waits. -/
theorem receive_eq (b : Mailbox μ) :
    b.queue = b.receivedBy .receive ++ b.receive.2.queue ∧
      b.receive.2 = { b with queue := b.receive.2.queue } := by
  unfold receivedBy receive
  cases hqueue : b.queue with
  | nil =>
    constructor
    · cases b.senderGone <;> simp [Receipt.message?, hqueue]
    · rfl
  | cons m rest => exact ⟨rfl, rfl⟩

/-! ## Runs -/

def run (b : Mailbox μ) (l : List (Op μ)) : Mailbox μ := l.foldl step b

/-- What a run hands in, and what becomes of it. -/
def handed (b : Mailbox μ) : List (Op μ) → List (Handed μ)
  | [] => []
  | o :: rest => b.handedBy o ++ (b.step o).handed rest

/-- What a run takes out. -/
def received (b : Mailbox μ) : List (Op μ) → List μ
  | [] => []
  | o :: rest => b.receivedBy o ++ (b.step o).received rest

theorem run_append (b : Mailbox μ) (l l' : List (Op μ)) : b.run (l ++ l') = (b.run l).run l' :=
  List.foldl_append

/-- To hand in several messages is to hand in one after another. -/
theorem run_deliver (b : Mailbox μ) {α : Type} (f : α → μ) (l : List α) :
    b.run (l.map fun a => .deliver (f a)) =
      (l.map f).foldl (fun b m => (b.deliver m).2) b := by
  rw [run, List.foldl_map, List.foldl_map]
  rfl

/-- The messages that are handed in are those of the operations, whatever becomes of them. -/
theorem message_handed (b : Mailbox μ) (l : List (Op μ)) :
    (b.handed l).map (·.message) = l.filterMap (·.message?) := by
  induction l generalizing b with
  | nil => rfl
  | cons o rest ih =>
    rw [handed, List.map_append, ih]
    cases o with
    | deliver m => rfl
    | _ => rfl

@[simp] theorem room_step (b : Mailbox μ) (o : Op μ) : (b.step o).room = b.room := by
  cases o with
  | deliver m =>
    rcases b.deliver_cases m with ⟨-, he⟩ | ⟨-, -, he⟩ | ⟨-, -, he⟩ <;> simp [step, he, room]
  | receive =>
    show b.receive.2.room = b.room
    rw [b.receive_eq.2]
    rfl
  | _ => rfl

theorem room_run (b : Mailbox μ) (l : List (Op μ)) : (b.run l).room = b.room := by
  induction l generalizing b with
  | nil => rfl
  | cons o rest ih => exact (ih (b.step o)).trans (b.room_step o)

/-! ## Messages -/

/-- What became of the messages of a mailbox, where `handed` went in and `received` came out. -/
structure Kept (b : Mailbox μ) (handed : List (Handed μ)) (received : List μ) : Prop where
  /-- A receiver that goes away loses what it has not received. -/
  whole : ∃ lost, queued handed = received ++ (b.queue ++ lost) ∧
    (b.receiverGone = false → lost = [])
  gapless : queued handed <+: handed.map (·.message)
  taken : b.isClosed = false → queued handed = handed.map (·.message)
  fits : b.queue.length ≤ b.room
  overflowed : handed.countP (·.delivery = .overflow) ≤ if b.cancelled then 1 else 0

theorem kept_new (capacity : Nat) : Kept (μ := μ) { capacity } [] [] where
  whole := ⟨[], rfl, fun _ => rfl⟩
  gapless := List.prefix_rfl
  taken := fun _ => rfl
  fits := Nat.zero_le _
  overflowed := Nat.le_refl _

namespace Kept

variable {b : Mailbox μ} {handed : List (Handed μ)} {received : List μ}

theorem deliver (h : b.Kept handed received) (m : μ) :
    (b.deliver m).2.Kept (handed ++ [⟨m, (b.deliver m).1⟩]) received := by
  obtain ⟨lost, hwhole, hlost⟩ := h.whole
  -- a message that is not queued only adds to what was handed in
  have hgapless : queued handed <+: handed.map (·.message) ++ [m] :=
    h.gapless.trans (List.prefix_append ..)
  rcases b.deliver_cases m with ⟨hclosed, he⟩ | ⟨hopen, hroom, he⟩ | ⟨hopen, hfull, he⟩
  · have hqueued : queued (handed ++ [⟨m, .closed⟩]) = queued handed := by simp [queued]
    rw [he]
    refine ⟨⟨lost, hqueued.trans hwhole, hlost⟩, ?_, fun hopen => ?_, h.fits, ?_⟩
    · simpa [hqueued] using hgapless
    · rw [hclosed] at hopen
      cases hopen
    · simpa using h.overflowed
  · have hgone : b.receiverGone = false := by
      simp only [isClosed, Bool.or_eq_false_iff] at hopen
      exact hopen.2
    obtain rfl := hlost hgone
    have hqueued : queued (handed ++ [⟨m, .queued⟩]) = queued handed ++ [m] := by simp [queued]
    have hall : queued (handed ++ [⟨m, .queued⟩]) =
        (handed ++ [Handed.mk m .queued]).map (·.message) := by
      rw [hqueued, h.taken hopen]
      simp
    rw [he]
    refine ⟨⟨[], ?_, fun _ => rfl⟩, ?_, fun _ => hall, ?_, ?_⟩
    · rw [hqueued, hwhole]
      simp
    · exact hall ▸ List.prefix_rfl
    · show (b.queue ++ [m]).length ≤ b.room
      rw [List.length_append, List.length_singleton]
      omega
    · simpa using h.overflowed
  · have hqueued : queued (handed ++ [⟨m, .overflow⟩]) = queued handed := by simp [queued]
    have hfirst : b.cancelled = false := by
      simp only [isClosed, Bool.or_eq_false_iff] at hopen
      exact hopen.1
    have hnone := h.overflowed
    rw [hfirst, if_neg Bool.false_ne_true] at hnone
    rw [he]
    refine ⟨⟨lost, hqueued.trans hwhole, hlost⟩, ?_, fun hopen' => ?_, h.fits, ?_⟩
    · simpa [hqueued] using hgapless
    · simp [isClosed] at hopen'
    · show (handed ++ [Handed.mk m .overflow]).countP (·.delivery = .overflow) ≤ 1
      rw [List.countP_append, Nat.le_zero.1 hnone]
      simp

theorem receive (h : b.Kept handed received) :
    b.receive.2.Kept handed (received ++ b.receivedBy .receive) := by
  obtain ⟨hqueue, hb⟩ := b.receive_eq
  obtain ⟨lost, hwhole, hlost⟩ := h.whole
  have hfits := h.fits
  rw [hqueue, List.length_append] at hfits
  rw [hqueue, List.append_assoc, ← List.append_assoc] at hwhole
  rw [hb]
  refine ⟨⟨lost, hwhole, hlost⟩, h.gapless, h.taken, ?_, h.overflowed⟩
  show b.receive.2.queue.length ≤ b.room
  omega

theorem cancel (h : b.Kept handed received) : b.cancel.Kept handed received where
  whole := h.whole
  gapless := h.gapless
  taken := nofun
  fits := h.fits
  overflowed := by
    have := h.overflowed
    show _ ≤ 1
    split at this <;> omega

theorem dropReceiver (h : b.Kept handed received) : b.dropReceiver.Kept handed received where
  whole := by
    obtain ⟨lost, hwhole, -⟩ := h.whole
    exact ⟨b.queue ++ lost, hwhole, nofun⟩
  gapless := h.gapless
  taken := by
    intro hopen
    simp [isClosed, Mailbox.dropReceiver] at hopen
  fits := Nat.zero_le _
  overflowed := h.overflowed

theorem step (h : b.Kept handed received) (o : Op μ) :
    (b.step o).Kept (handed ++ b.handedBy o) (received ++ b.receivedBy o) := by
  cases o with
  | deliver m =>
    rw [show b.receivedBy (.deliver m) = [] from rfl, List.append_nil]
    exact h.deliver m
  | receive =>
    rw [show b.handedBy .receive = [] from rfl, List.append_nil]
    exact h.receive
  | cancel =>
    simp only [handedBy, receivedBy, List.append_nil]
    exact h.cancel
  | dropSender =>
    simp only [handedBy, receivedBy, List.append_nil]
    exact ⟨h.whole, h.gapless, h.taken, h.fits, h.overflowed⟩
  | dropReceiver =>
    simp only [handedBy, receivedBy, List.append_nil]
    exact h.dropReceiver

theorem run (h : b.Kept handed received) (l : List (Op μ)) :
    (b.run l).Kept (handed ++ b.handed l) (received ++ b.received l) := by
  induction l generalizing b handed received with
  | nil =>
    rw [Mailbox.handed, Mailbox.received, List.append_nil, List.append_nil]
    exact h
  | cons o rest ih =>
    have hrest := ih (h.step o)
    rw [List.append_assoc, List.append_assoc] at hrest
    exact hrest

end Kept

/-! ## Closing -/

/-- A closed mailbox stays closed, and nothing that is handed in later is queued. -/
theorem closed_step {b : Mailbox μ} (h : b.isClosed = true) (o : Op μ) :
    (b.step o).isClosed = true ∧ ∀ f ∈ b.handedBy o, f.delivery = .closed := by
  cases o with
  | deliver m =>
    rcases b.deliver_cases m with ⟨-, he⟩ | ⟨hopen, -⟩ | ⟨hopen, -⟩
    · simp [step, handedBy, he, h]
    · rw [h] at hopen
      cases hopen
    · rw [h] at hopen
      cases hopen
  | receive =>
    refine ⟨?_, nofun⟩
    show b.receive.2.isClosed = true
    rw [b.receive_eq.2]
    exact h
  | cancel => exact ⟨rfl, nofun⟩
  | dropSender => exact ⟨h, nofun⟩
  | dropReceiver => exact ⟨by simp [step, Mailbox.dropReceiver, isClosed], nofun⟩

theorem closed_run {b : Mailbox μ} (h : b.isClosed = true) (l : List (Op μ)) :
    (b.run l).isClosed = true ∧ ∀ f ∈ b.handed l, f.delivery = .closed := by
  induction l generalizing b with
  | nil => exact ⟨h, nofun⟩
  | cons o rest ih =>
    obtain ⟨hclosed, hfirst⟩ := closed_step h o
    obtain ⟨hend, hrest⟩ := ih hclosed
    refine ⟨hend, fun f hf => ?_⟩
    rcases List.mem_append.1 hf with hf | hf
    · exact hfirst f hf
    · exact hrest f hf

/-! ## Receiving -/

/-- To take several messages out at once is to take them out one by one, be the mailbox closed or
not. -/
theorem receiveMany_eq (b : Mailbox μ) (count : Nat) :
    b.receiveMany count =
      (b.received (List.replicate count .receive), b.run (List.replicate count .receive)) := by
  induction count generalizing b with
  | zero => rfl
  | succ count ih =>
    have hstep : b.receiveMany (count + 1) =
        (b.receivedBy .receive ++ (b.receive.2.receiveMany count).1,
          (b.receive.2.receiveMany count).2) := by
      unfold receivedBy receive
      cases hqueue : b.queue with
      | nil => cases hgone : b.senderGone <;> simp [receiveMany, hqueue, Receipt.message?]
      | cons m rest => simp [receiveMany, hqueue, Receipt.message?]
    rw [hstep, ih]
    rfl

/-! ## Top theorem -/

/-- **A receiver gets all messages that are handed in up to the closing, in order**, whatever both
sides do: those that were queued are the beginning of those handed in, and while the receiver is
there each of them was received or waits. -/
theorem received_in_order (capacity : Nat) (l : List (Op μ)) :
    let start : Mailbox μ := { capacity }
    let b := start.run l
    let handed := start.handed l
    (start.received l <+: queued handed ∧
      (b.receiverGone = false → start.received l ++ b.queue = queued handed)) ∧
    queued handed <+: handed.map (·.message) ∧
    b.queue.length ≤ max 1 capacity ∧
    handed.countP (·.delivery = .overflow) ≤ 1 ∧
    (∀ m, (b.deliver m).1 = .overflow ↔
      b.isClosed = false ∧ b.queue.length = max 1 capacity) ∧
    (b.isClosed = true → ∀ l', (b.run l').isClosed = true ∧
      ∀ f ∈ b.handed l', f.delivery = .closed) ∧
    b.received (List.replicate b.queue.length .receive) = b.queue := by
  intro start b handed
  have hdrain : b.received (List.replicate b.queue.length .receive) = b.queue.take b.queue.length :=
    (congrArg Prod.fst (b.receiveMany_eq b.queue.length)).symm
  have hkept : b.Kept handed (start.received l) := (kept_new capacity).run l
  have hroom : b.room = max 1 capacity := start.room_run l
  obtain ⟨lost, hwhole, hlost⟩ := hkept.whole
  refine ⟨⟨hwhole ▸ List.prefix_append .., fun hthere => ?_⟩, hkept.gapless, hroom ▸ hkept.fits, ?_,
    fun m => ?_, fun hclosed => closed_run hclosed, hdrain.trans List.take_length⟩
  · rw [hwhole, hlost hthere, List.append_nil]
  · have := hkept.overflowed
    split at this <;> omega
  · have hfits := hkept.fits
    rw [← hroom]
    rcases b.deliver_cases m with ⟨hclosed, he⟩ | ⟨hopen, hfree, he⟩ | ⟨hopen, hfull, he⟩
    · simp [he, hclosed]
    · simp [he, hopen]
      omega
    · simp [he, hopen]
      omega

/-- With room for one message the second one closes the mailbox, the first is received all the same,
and a third one comes too late. -/
theorem received_in_order_overflow :
    let start : Mailbox String := { capacity := 0 }
    let l := [.deliver "a", .deliver "b", .receive, .deliver "c"]
    start.handed l = [⟨"a", .queued⟩, ⟨"b", .overflow⟩, ⟨"c", .closed⟩] ∧
      start.received l ++ (start.run l).queue = ["a"] := by
  intro start l
  have hhanded : start.handed l = [⟨"a", .queued⟩, ⟨"b", .overflow⟩, ⟨"c", .closed⟩] := by decide
  obtain ⟨⟨-, hall⟩, -⟩ := received_in_order 0 l
  refine ⟨hhanded, (hall (by decide)).trans ?_⟩
  rw [hhanded]
  decide

end Mailbox

end PriceFeed
