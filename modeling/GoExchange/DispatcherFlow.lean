import GoExchange.DispatcherPool

/-!
# Where every event of the queue is

Every event read from the queue is in one place: the trades are dispatched, in
hand or carried, in queue order; the terminals are dispatched, ready, waiting,
carried, dropped, or refused as a second terminal of their order.
-/
namespace GoExchange.Dispatcher

variable {cfg : Config} {feed : Feed} {s t : State} {a : Label} {e : OutboxEvent}

/-- What the history holds of one kind, oldest first. -/
def inOrder {β : Type} (f : Action → List β) (history : List Action) : List β :=
  history.reverse.flatMap f

namespace Action

@[simp] def receivedEvent : Action → List OutboxEvent
  | .received e => [e]
  | _ => []

@[simp] def dispatchedJob : Action → List SettlementJob
  | .dispatched job => [job]
  | _ => []

@[simp] def result : Action → List SettlementResult
  | .retired res => [res]
  | _ => []

@[simp] def droppedEvent : Action → List OutboxEvent
  | .dropped e => [e]
  | _ => []

@[simp] def duplicateEvent : Action → List OutboxEvent
  | .duplicate e => [e]
  | _ => []

end Action

section InOrder

variable {β : Type} (f : Action → List β)

@[simp] theorem inOrder_nil : inOrder f [] = [] := rfl

@[simp] theorem inOrder_cons (x : Action) (h : List Action) :
    inOrder f (x :: h) = inOrder f h ++ f x := by
  simp [inOrder]

theorem inOrder_broadcasts (hf : ∀ m, f (.broadcast m) = []) (ms : List BroadcastMessage)
    (h : List Action) : inOrder f (ms.map Action.broadcast ++ h) = inOrder f h := by
  induction ms with
  | nil => rfl
  | cons m ms ih => simp [ih, hf]

end InOrder

def received (h : List Action) : List OutboxEvent := inOrder Action.receivedEvent h

def dispatchedJobs (h : List Action) : List SettlementJob := inOrder Action.dispatchedJob h

def results (h : List Action) : List SettlementResult := inOrder Action.result h

def dropped (h : List Action) : List OutboxEvent := inOrder Action.droppedEvent h

def duplicates (h : List Action) : List OutboxEvent := inOrder Action.duplicateEvent h

@[simp] theorem received_cons (x : Action) (h : List Action) :
    received (x :: h) = received h ++ x.receivedEvent := inOrder_cons _ x h

@[simp] theorem dispatchedJobs_cons (x : Action) (h : List Action) :
    dispatchedJobs (x :: h) = dispatchedJobs h ++ x.dispatchedJob := inOrder_cons _ x h

@[simp] theorem results_cons (x : Action) (h : List Action) :
    results (x :: h) = results h ++ x.result := inOrder_cons _ x h

@[simp] theorem dropped_cons (x : Action) (h : List Action) :
    dropped (x :: h) = dropped h ++ x.droppedEvent := inOrder_cons _ x h

@[simp] theorem duplicates_cons (x : Action) (h : List Action) :
    duplicates (x :: h) = duplicates h ++ x.duplicateEvent := inOrder_cons _ x h

/-- Nothing was dispatched, retired, dropped or refused in between. -/
structure SameRecords (h h' : List Action) : Prop where
  dispatchedJobs : dispatchedJobs h' = dispatchedJobs h
  results : results h' = results h
  dropped : dropped h' = dropped h
  duplicates : duplicates h' = duplicates h

theorem SameRecords.broadcasts (m : List BroadcastMessage) (h : List Action) :
    SameRecords h (m.map Action.broadcast ++ h) where
  dispatchedJobs := inOrder_broadcasts _ (fun _ => rfl) m h
  results := inOrder_broadcasts _ (fun _ => rfl) m h
  dropped := inOrder_broadcasts _ (fun _ => rfl) m h
  duplicates := inOrder_broadcasts _ (fun _ => rfl) m h

theorem SameRecords.refl (h : List Action) : SameRecords h h := ⟨rfl, rfl, rfl, rfl⟩

theorem SameRecords.received (e : OutboxEvent) (h : List Action) :
    SameRecords h (.received e :: h) := by
  constructor <;> simp

theorem SameRecords.flush (s : State) : SameRecords s.history s.flushBroadcasts.history := by
  obtain ⟨p, ms, n, he⟩ := flushBroadcasts_eq s
  rw [he]
  exact .broadcasts ms s.history

def isTrade (e : OutboxEvent) : Bool := e.event.terminalOrder?.isNone

@[simp] def Work.trades : Work → List OutboxEvent
  | .trade _ batch => batch
  | .terminal _ => []

@[simp] def Work.terminals : Work → List OutboxEvent
  | .trade _ _ => []
  | .terminal e => [e]

/-- The trade events handed to workers, in the order they were handed out. -/
def dispatchedTrades (h : List Action) : List OutboxEvent :=
  (dispatchedJobs h).flatMap (fun job => job.work.trades)

def dispatchedTerminals (h : List Action) : List OutboxEvent :=
  (dispatchedJobs h).flatMap (fun job => job.work.terminals)

@[simp] theorem dispatchedTrades_cons (x : Action) (h : List Action) :
    dispatchedTrades (x :: h) =
      dispatchedTrades h ++ x.dispatchedJob.flatMap (fun job => job.work.trades) := by
  simp [dispatchedTrades]

@[simp] theorem dispatchedTerminals_cons (x : Action) (h : List Action) :
    dispatchedTerminals (x :: h) =
      dispatchedTerminals h ++ x.dispatchedJob.flatMap (fun job => job.work.terminals) := by
  simp [dispatchedTerminals]

@[simp] def Position.batch : Position → List OutboxEvent
  | .collect batch => batch
  | _ => []

@[simp] def State.readyWork (s : State) (f : Work → List OutboxEvent) : List OutboxEvent :=
  (s.readyJob.map (fun job => f job.work)).getD []

/-- The trades read but not dispatched yet. -/
def State.tradesInHand (s : State) : List OutboxEvent :=
  s.position.batch ++ s.readyWork Work.trades ++ s.carry.toList.filter isTrade

/-- The terminals read and still to be dispatched. -/
def State.terminalsInHand (s : State) : List OutboxEvent :=
  s.readyWork Work.terminals ++ s.waiting.map WaitingTerminal.event ++
    s.carry.toList.filter (fun e => !isTrade e)

structure FlowInv (feed : Feed) (s : State) : Prop where
  feed_eq : received s.history ++ (s.queue ++ s.source) = feed.events
  trades_eq : (received s.history).filter isTrade = dispatchedTrades s.history ++ s.tradesInHand
  terminals_eq : ∀ e, ((received s.history).filter (fun e => !isTrade e)).count e =
    (dispatchedTerminals s.history).count e + s.terminalsInHand.count e +
      (dropped s.history).count e + (duplicates s.history).count e
  collecting : ∀ batch, s.position = .collect batch → s.carry = none
  carry_last : ∀ e, s.carry = some e → ∃ pre, received s.history = pre ++ [e]

theorem init_flow (feed : Feed) : FlowInv feed (init feed) := by
  constructor <;> simp [init, received, dispatchedTrades, dispatchedTerminals, dispatchedJobs,
    dropped, duplicates, State.tradesInHand, State.terminalsInHand]

theorem FlowInv.frame (h : FlowInv feed s) (hh : SameRecords s.history t.history)
    (hrec : received t.history = received s.history)
    (hq : t.queue ++ t.source = s.queue ++ s.source) (hp : t.position.batch = s.position.batch)
    (hr : t.readyJob = s.readyJob) (hw : t.waiting = s.waiting) (hc : t.carry = s.carry)
    (hcoll : ∀ batch, t.position = .collect batch → t.carry = none) : FlowInv feed t where
  feed_eq := by rw [hrec, hq]; exact h.feed_eq
  trades_eq := by
    simpa only [hrec, hh.dispatchedJobs, dispatchedTrades, State.tradesInHand,
      State.readyWork, hp, hr, hc] using h.trades_eq
  terminals_eq := by
    simpa [hrec, hh.dispatchedJobs, hh.dropped, hh.duplicates, dispatchedTerminals,
      State.terminalsInHand, hr, hw, hc] using h.terminals_eq
  collecting := hcoll
  carry_last := by simpa [hrec, hc] using h.carry_last

theorem FlowInv.flush (h : FlowInv feed s) : FlowInv feed s.flushBroadcasts := by
  obtain ⟨p, ms, n, he⟩ := flushBroadcasts_eq s
  rw [he]
  exact h.frame (.broadcasts ms _) (inOrder_broadcasts _ (fun _ => rfl) ms _) rfl rfl rfl rfl rfl
    h.collecting

/-- An event taken by step (2), just before the dispatcher decides what it is: it is the last
one read, and no other event is in hand. -/
structure AtHand (feed : Feed) (e : OutboxEvent) (s : State) : Prop where
  carry : s.carry = none
  readyJob : s.readyJob = none
  feed_eq : received s.history ++ (s.queue ++ s.source) = feed.events
  last : ∃ pre, received s.history = pre ++ [e] ∧ pre.filter isTrade = dispatchedTrades s.history
  terminals_eq : ∀ e', ((received s.history).filter (fun e => !isTrade e)).count e' =
    (dispatchedTerminals s.history).count e' + (s.waiting.map WaitingTerminal.event).count e' +
      ([e].filter (fun e => !isTrade e)).count e' + (dropped s.history).count e' +
      (duplicates s.history).count e'

theorem FlowInv.taken (h : FlowInv feed s) (hp : s.position = .fetch) (hr : s.readyJob = none)
    (ht : Taken s e t) : AtHand feed e t := by
  have htr := h.trades_eq
  have hte := h.terminals_eq
  cases ht with
  | carried hc =>
    simp [State.tradesInHand, State.terminalsInHand, hp, hr, hc] at htr hte
    obtain ⟨pre, hpre⟩ := h.carry_last e hc
    refine ⟨rfl, hr, h.feed_eq, ⟨pre, hpre, ?_⟩, fun e' => ?_⟩
    · rw [hpre, List.filter_append] at htr
      exact List.append_cancel_right htr
    · have := hte e'
      simp at this ⊢
      omega
  | @fromQueue rest hc ho hq =>
    simp [State.tradesInHand, State.terminalsInHand, hp, hr, hc] at htr hte
    refine ⟨hc, hr, ?_, ⟨received s.history, ?_, ?_⟩, fun e' => ?_⟩
    · have := h.feed_eq
      simpa [hq] using this
    · simp
    · simpa using htr
    · have := hte e'
      simp at this ⊢
      omega

/-- Taking the first ready terminal out of the waiting list. -/
theorem perm_of_find? {α : Type} {p : α → Bool} {l : List α} {w : α} (h : l.find? p = some w) :
    l.Perm (w :: l.eraseP p) := by
  obtain ⟨hw, as, bs, rfl, has⟩ := List.find?_eq_some_iff_append.mp h
  have has' : ∀ b ∈ as, ¬ p b = true := fun b hb => by simpa using has b hb
  rw [List.eraseP_append_right _ has', List.eraseP_cons_of_pos hw]
  exact List.perm_middle

theorem isTrade_of_terminal {x : Nat} (hx : e.event.terminalOrder? = some x) :
    isTrade e = false := by
  simp [isTrade, hx]

theorem isTrade_of_none (hx : e.event.terminalOrder? = none) : isTrade e = true := by
  simp [isTrade, hx]

/-- The trades read so far are all dispatched when the event at hand is a terminal. -/
theorem AtHand.trades_eq (h : AtHand feed e s) (he : isTrade e = false) :
    (received s.history).filter isTrade = dispatchedTrades s.history := by
  obtain ⟨pre, hpre, htr⟩ := h.last
  simp [hpre, htr, he]

theorem AtHand.duplicate (h : AtHand feed e s) (he : isTrade e = false) :
    FlowInv feed { s with history := .duplicate e :: s.history, position := .terminals } := by
  refine ⟨by simpa using h.feed_eq, ?_, fun e' => ?_, by simp, by simp [h.carry]⟩
  · simpa [State.tradesInHand, h.carry, h.readyJob] using h.trades_eq he
  · have := h.terminals_eq e'
    simp [State.terminalsInHand, h.carry, h.readyJob, he] at this ⊢
    omega

theorem AtHand.wait (h : AtHand feed e s) (he : isTrade e = false) (x : Nat) :
    FlowInv feed { s with waiting := s.waiting ++ [⟨e, x⟩], position := .terminals } := by
  refine ⟨h.feed_eq, ?_, fun e' => ?_, by simp, by simp [h.carry]⟩
  · simpa [State.tradesInHand, h.carry, h.readyJob]
      using h.trades_eq he
  · have := h.terminals_eq e'
    simp [State.terminalsInHand, h.carry, h.readyJob, he] at this ⊢
    omega

theorem AtHand.start (h : AtHand feed e s) (he : isTrade e = true) :
    FlowInv feed { s with position := .collect [e] } := by
  obtain ⟨pre, hpre, htr⟩ := h.last
  refine ⟨h.feed_eq, ?_, fun e' => ?_, fun _ _ => h.carry, by simp [h.carry]⟩
  · simp [State.tradesInHand, h.carry, h.readyJob, hpre, htr, he]
  · have := h.terminals_eq e'
    simpa [State.terminalsInHand, h.carry, h.readyJob, he] using this

/-- A retired job changes nothing about the events. -/
theorem FlowInv.retired (h : FlowInv feed s) (hp : s.position = .select) {res : SettlementResult}
    (hh : t.history = .retired res :: s.history) (hq : t.queue ++ t.source = s.queue ++ s.source)
    (htp : t.position = .terminals) (hr : t.readyJob = s.readyJob) (hw : t.waiting = s.waiting)
    (hc : t.carry = s.carry) : FlowInv feed t := by
  refine ⟨?_, ?_, fun e => ?_, by simp [htp], ?_⟩
  · simpa [hh, hq] using h.feed_eq
  · simpa [hh, State.tradesInHand, hp, htp, hr, hc] using h.trades_eq
  · simpa [hh, State.terminalsInHand, hr, hw, hc] using h.terminals_eq e
  · simpa [hh, hc] using h.carry_last

theorem FlowInv.move (h : FlowInv feed s) (hpool : PoolInv cfg s) (hm : Step cfg s a t) :
    FlowInv feed t := by
  cases hm with
  | noTerminal hp | busy hp | inputClosed hp | noInput hp | exitSelect hp | selectClosed hp =>
    exact h.frame (.refl _) rfl rfl (by rw [hp]; rfl) rfl rfl rfl (by simp)
  | take | finishForeign | finish | close | foreign =>
    exact h.frame (.refl _) rfl rfl rfl rfl rfl rfl h.collecting
  | put hs => exact h.frame (.refl _) rfl (by simp [hs]) rfl rfl rfl rfl h.collecting
  | exitReturn hp =>
    obtain ⟨p, ms, n, he⟩ := flushBroadcasts_eq s
    rw [he]
    exact h.frame (.broadcasts ms _) (inOrder_broadcasts _ (fun _ => rfl) ms _) rfl
      (by rw [hp]; rfl) rfl rfl rfl (by simp)
  | @dropTerminal w hp hi hw hq =>
    refine ⟨by simpa using h.feed_eq, ?_, fun e => ?_, by simp, by simpa using h.carry_last⟩
    · simpa [State.tradesInHand, hp] using h.trades_eq
    · have he := h.terminals_eq e
      have hc := ((perm_of_find? hw).map WaitingTerminal.event).count_eq e
      simp [State.terminalsInHand, List.count_cons] at he hc ⊢
      omega
  | @takeTerminal w hp hi hw hq =>
    refine ⟨h.feed_eq, ?_, fun e => ?_, by simp, h.carry_last⟩
    · simpa [State.tradesInHand, hp, hi.1]
        using h.trades_eq
    · have he := h.terminals_eq e
      have hc := ((perm_of_find? hw).map WaitingTerminal.event).count_eq e
      simp [State.terminalsInHand, List.count_cons, hi.1] at he hc ⊢
      omega
  | duplicate hp hi ht hx => exact (h.taken hp hi.1 ht).duplicate (isTrade_of_terminal hx)
  | @wait e x s' hp hi ht hx =>
    have := (h.taken hp hi.1 ht).wait (isTrade_of_terminal hx) x
    rwa [ht.waiting_eq] at this
  | start hp hi ht hx => exact (h.taken hp hi.1 ht).start (isTrade_of_none hx)
  | @collectTrade batch e rest hp hq hx =>
    have hr := (hpool.collecting batch hp).1
    have hc := h.collecting batch hp
    refine ⟨?_, ?_, fun e' => ?_, fun _ _ => hc, by simp [hc]⟩
    · simpa [hq] using h.feed_eq
    · have := h.trades_eq
      simp [State.tradesInHand, hp, hr, hc] at this
      simp [State.tradesInHand, hr, hc, this, isTrade_of_none hx]
    · simpa [State.terminalsInHand, isTrade_of_none hx] using h.terminals_eq e'
  | @collectTerminal batch e rest x hp hq hx =>
    have hr := (hpool.collecting batch hp).1
    have hc := h.collecting batch hp
    have he := isTrade_of_terminal hx
    refine ⟨?_, ?_, fun e' => ?_, by simp [finishBatch], by simp [finishBatch]⟩
    · simpa [finishBatch, hq] using h.feed_eq
    · simpa [finishBatch, State.tradesInHand, hp, hr, hc, he] using h.trades_eq
    · have := h.terminals_eq e'
      simp [finishBatch, State.terminalsInHand, hr, hc, he] at this ⊢
      omega
  | @collectClosed batch hp | @collectDone batch hp =>
    have hr := (hpool.collecting batch hp).1
    have hc := h.collecting batch hp
    refine ⟨h.feed_eq, ?_, fun e' => ?_, by simp [finishBatch], by simp [finishBatch, hc]⟩
    · simpa [finishBatch, State.tradesInHand, hp, hr, hc] using h.trades_eq
    · simpa [finishBatch, State.terminalsInHand, hr] using h.terminals_eq e'
  | @dispatch job hp hr hj =>
    refine ⟨by simpa using h.feed_eq, ?_, fun e' => ?_, by simp, by simpa using h.carry_last⟩
    · simpa [State.tradesInHand, hp, hr] using h.trades_eq
    · have := h.terminals_eq e'
      simp [State.terminalsInHand, hr] at this ⊢
      omega
  | completeTerminal hp => exact h.retired hp rfl rfl rfl rfl rfl rfl
  | completeTrade hp =>
    refine FlowInv.flush ?_
    exact h.retired hp rfl rfl rfl rfl rfl rfl
  | @input e rest hp ho hi hc hq =>
    refine ⟨by simpa [hq] using h.feed_eq, ?_, fun e' => ?_, by simp, by simp⟩
    · simpa [State.tradesInHand, hp, hi.1, hc] using h.trades_eq
    · have := h.terminals_eq e'
      simp [State.terminalsInHand, hi.1, hc] at this ⊢
      omega

theorem reach_flow {ok : State → Label → Prop} (h : Lts.Reach (step cfg) ok (init feed) s) :
    FlowInv feed s :=
  h.invariant _ (init_flow feed) fun _ _ _ hr hi _ hs => hi.move (reach_pool hr) (move_of_step hs)

/-- The trades handed out are the first trades of the queue. -/
theorem FlowInv.trades_prefix (h : FlowInv feed s) :
    dispatchedTrades s.history <+: feed.events.filter isTrade := by
  rw [← h.feed_eq, List.filter_append, h.trades_eq, List.append_assoc]
  exact List.prefix_append _ _

theorem FlowInv.received_returned (h : FlowInv feed s) (hin : InputInv s)
    (hret : s.position = .returned) : received s.history = feed.events := by
  have ho := (hin.returned hret).1
  simpa [hin.drained ho] using h.feed_eq

/-- When the dispatcher returns, every trade has been handed out. -/
theorem FlowInv.trades_returned (h : FlowInv feed s) (hin : InputInv s)
    (hret : s.position = .returned) : dispatchedTrades s.history = feed.events.filter isTrade := by
  obtain ⟨-, hr, hc, -⟩ := hin.returned hret
  have htr := h.trades_eq
  simp [State.tradesInHand, hret, hr, hc, h.received_returned hin hret] at htr
  exact htr.symm

end GoExchange.Dispatcher
