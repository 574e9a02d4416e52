import GoExchange.DependencyTracker
import GoExchange.Lts

/-!
# The partition dispatcher

`settlement_pipeline.go`: one dispatcher owns one partition queue, hands jobs to
the worker pool shared by all partitions and takes their completions. Every
receive on the queue is a step of its own, so the producer and the workers may
act between any two of them. A label names who acts and carries what the
environment chooses.
-/
namespace GoExchange.Dispatcher

structure BroadcastMessage where
  coinSymbol : String
  payload : String
  deriving DecidableEq, Repr

/-- What a job carries: a batch with its broadcast number, or one terminal event. -/
inductive Work where
  | trade (seq : Nat) (batch : List OutboxEvent)
  | terminal (event : OutboxEvent)
  deriving DecidableEq, Repr

structure SettlementJob where
  id : Nat
  work : Work
  deriving DecidableEq, Repr

/-- A completion; only a trade job has a broadcast number. -/
structure SettlementResult where
  id : Nat
  seq : Option Nat
  messages : List BroadcastMessage
  undurableOrderIDs : List Nat
  deriving DecidableEq, Repr

structure WaitingTerminal where
  event : OutboxEvent
  orderID : Nat
  deriving DecidableEq, Repr

/-- Where the dispatcher's goroutine is: before step (1), (2), inside
`collectTradeBatch` with the batch so far, before step (3), in the select, gone. -/
inductive Position where
  | terminals
  | fetch
  | collect (batch : List OutboxEvent)
  | exit
  | select
  | returned
  deriving DecidableEq, Repr

/-- What the dispatcher did, as an observer sees it. -/
inductive Action where
  | received (e : OutboxEvent)
  | dispatched (job : SettlementJob)
  | retired (res : SettlementResult)
  | dropped (e : OutboxEvent)
  | duplicate (e : OutboxEvent)
  | broadcast (m : BroadcastMessage)
  deriving DecidableEq, Repr

/-- Pool and queue sizes. `SettlementConcurrencyFromEnv` and the queue size are positive. -/
structure Config where
  concurrency : Nat
  concurrency_pos : 0 < concurrency
  queueSize : Nat
  queueSize_pos : 0 < queueSize
  maxBatch : Nat

namespace Config

def maxOutstanding (cfg : Config) : Nat := 2 * cfg.concurrency

end Config

/-- One worker, with the sizes of `cmd/main.go`. -/
def singleWorker : Config where
  concurrency := 1
  concurrency_pos := by decide
  queueSize := 256
  queueSize_pos := by decide
  maxBatch := 32

/-- The events a partition queue carries: committed outbox rows, so no id twice. -/
structure Feed where
  events : List OutboxEvent
  outboxIDs_nodup : (events.map OutboxEvent.outboxID).Nodup

/-- The queue, the pool and the locals of `runPartitionDispatcher`. In the job
channel and the pool `none` is a job of another partition. `history` is newest first. -/
structure State where
  source : List OutboxEvent
  queue : List OutboxEvent
  closed : Bool
  jobs : List (Option SettlementJob)
  running : List (Option SettlementJob)
  completions : List SettlementResult
  position : Position
  dep : DependencyTracker
  nextJobID : Nat
  nextSeq : Nat
  nextBroadcast : Nat
  pending : List (Nat × SettlementResult)
  waiting : List WaitingTerminal
  readyJob : Option SettlementJob
  queueOpen : Bool
  carry : Option OutboxEvent
  history : List Action

def init (feed : Feed) : State where
  source := feed.events
  queue := []
  closed := false
  jobs := []
  running := []
  completions := []
  position := .terminals
  dep := .new
  nextJobID := 1
  nextSeq := 1
  nextBroadcast := 1
  pending := []
  waiting := []
  readyJob := none
  queueOpen := true
  carry := none
  history := []

/-- What a receive on the queue sees. -/
inductive Received where
  | event (e : OutboxEvent) (rest : List OutboxEvent)
  | closed
  | empty

namespace State

def receive (s : State) : Received :=
  match s.queue with
  | e :: rest => .event e rest
  | [] => if s.closed then .closed else .empty

/-- The event leaves the queue. -/
@[simp] def pop (s : State) (e : OutboxEvent) (rest : List OutboxEvent) : State :=
  { s with queue := rest, history := .received e :: s.history }

/-- The loop of `flushBroadcasts`, which ends at the first gap; each round takes
one entry out of `pending`. -/
def flushLoop : Nat → State → State
  | 0, s => s
  | fuel + 1, s =>
    match s.pending.lookup s.nextBroadcast with
    | none => s
    | some res =>
      flushLoop fuel
        { s with
          pending := s.pending.filter (fun p => p.1 != s.nextBroadcast)
          history := (res.messages.map Action.broadcast).reverse ++ s.history
          nextBroadcast := s.nextBroadcast + 1 }

def flushBroadcasts (s : State) : State := flushLoop s.pending.length s

def isReady (s : State) (w : WaitingTerminal) : Bool := s.dep.ready w.orderID

/-- Take the first waiting terminal whose batches are all retired. One of a
quarantined order is taken out and dropped, and nothing is returned then, whatever
else is waiting. -/
def takeReadyTerminal (s : State) : State × Option WaitingTerminal :=
  match s.waiting.find? s.isReady with
  | none => (s, none)
  | some w =>
    let rest := s.waiting.eraseP s.isReady
    if s.dep.quarantined w.orderID then
      ({ s with
          waiting := rest
          dep := s.dep.clearQuarantine w.orderID
          history := .dropped w.event :: s.history }, none)
    else ({ s with waiting := rest }, some w)

/-- A terminal event starts to wait; the second one of an order is not accepted. -/
def appendWaiting (s : State) (e : OutboxEvent) (orderID : Nat) : State :=
  if s.waiting.any (fun w => w.orderID == orderID) then
    { s with history := .duplicate e :: s.history }
  else { s with waiting := s.waiting ++ [⟨e, orderID⟩] }

end State

/-- Step (1): a terminal that can run comes before new batches. -/
def terminalsPhase (cfg : Config) (s : State) : State :=
  if s.readyJob.isNone && decide (s.dep.outstanding < cfg.maxOutstanding) then
    match s.takeReadyTerminal with
    | (s, none) => { s with position := .fetch }
    | (s, some w) =>
      { s with
        position := .fetch
        readyJob := some ⟨s.nextJobID, .terminal w.event⟩
        nextJobID := s.nextJobID + 1 }
  else { s with position := .fetch }

/-- Step (2) with the first event at hand: a terminal waits and the loop starts
over, a trade starts a batch. -/
def startWith (s : State) (e : OutboxEvent) : State :=
  match e.event.terminalOrder? with
  | some orderID => { s.appendWaiting e orderID with position := .terminals }
  | none => { s with position := .collect [e] }

/-- Step (2): the carried event first, else a receive that does not block. -/
def fetchPhase (cfg : Config) (s : State) : State :=
  if s.readyJob.isNone && decide (s.dep.outstanding < cfg.maxOutstanding) then
    match s.carry with
    | some e => startWith { s with carry := none } e
    | none =>
      if s.queueOpen then
        match s.receive with
        | .event e rest => startWith (s.pop e rest) e
        | .closed => { s with queueOpen := false, position := .exit }
        | .empty => { s with position := .exit }
      else { s with position := .exit }
  else { s with position := .exit }

/-- The batch is complete and becomes the ready job. -/
def finishBatch (s : State) (batch : List OutboxEvent) : State :=
  { s with
    position := .exit
    readyJob := some ⟨s.nextJobID, .trade s.nextSeq batch⟩
    nextJobID := s.nextJobID + 1
    nextSeq := s.nextSeq + 1 }

/-- One round of the loop of `collectTradeBatch`. -/
def collectRound (cfg : Config) (s : State) (batch : List OutboxEvent) : State :=
  if batch.length < cfg.maxBatch then
    match s.receive with
    | .event e rest =>
      match e.event.terminalOrder? with
      | some _ => finishBatch { s.pop e rest with carry := some e } batch
      | none => { s.pop e rest with position := .collect (batch ++ [e]) }
    | .closed => finishBatch { s with queueOpen := false } batch
    | .empty => finishBatch s batch
  else finishBatch s batch

/-- Step (3): return when the input is closed and nothing is left to do. -/
def exitPhase (s : State) : State :=
  if !s.queueOpen && s.readyJob.isNone && s.dep.outstanding == 0 && s.carry.isNone &&
      s.waiting.isEmpty then
    { s.flushBroadcasts with position := .returned }
  else { s with position := .select }

/-- The steps between two selects. -/
def advance (cfg : Config) (s : State) : Option State :=
  match s.position with
  | .terminals => some (terminalsPhase cfg s)
  | .fetch => some (fetchPhase cfg s)
  | .collect batch => some (collectRound cfg s batch)
  | .exit => some (exitPhase s)
  | .select => none
  | .returned => none

/-- The orders registered with a job: those of its batch. -/
def Work.orders : Work → List Nat
  | .trade _ batch => DependencyTracker.touchedOrderIDs batch
  | .terminal _ => []

/-- `case dispatchCh <- dispatchJob`. -/
def selectDispatch (cfg : Config) (s : State) : Option State :=
  match s.position, s.readyJob with
  | .select, some job =>
    if s.jobs.length < cfg.concurrency then
      some { s with
        jobs := s.jobs ++ [some job]
        dep := s.dep.register job.id job.work.orders
        readyJob := none
        history := .dispatched job :: s.history
        position := .terminals }
    else none
  | _, _ => none

/-- `case res := <-completions`. -/
def selectComplete (s : State) : Option State :=
  match s.position, s.completions with
  | .select, res :: rest =>
    let s := { s with
      completions := rest
      dep := s.dep.retire res.id res.undurableOrderIDs
      history := .retired res :: s.history
      position := .terminals }
    match res.seq with
    | none => some s
    | some seq =>
      some { s with
        pending := (seq, res) :: s.pending.filter (fun p => p.1 != seq) }.flushBroadcasts
  | _, _ => none

/-- `case ev, ok := <-inputCh`. -/
def selectInput (cfg : Config) (s : State) : Option State :=
  if s.position = .select ∧ s.queueOpen ∧ s.readyJob.isNone ∧ s.carry.isNone ∧
      s.dep.outstanding < cfg.maxOutstanding then
    match s.receive with
    | .event e rest => some { s.pop e rest with carry := some e, position := .terminals }
    | .closed => some { s with queueOpen := false, position := .terminals }
    | .empty => none
  else none

/-- An idle worker takes the oldest job of the channel. -/
def workerTake (cfg : Config) (s : State) : Option State :=
  match s.jobs with
  | [] => none
  | job :: rest =>
    if s.running.length < cfg.concurrency then
      some { s with jobs := rest, running := s.running ++ [job] }
    else none

/-- What a worker reports: messages and undurable orders for a batch, neither for a terminal. -/
def resultOf (job : SettlementJob) (messages : List BroadcastMessage) (undurable : List Nat) :
    SettlementResult :=
  match job.work with
  | .trade seq _ => ⟨job.id, some seq, messages, undurable⟩
  | .terminal _ => ⟨job.id, none, [], []⟩

/-- The `i`th busy worker finishes its job; the send waits while `completions` is full. -/
def workerFinish (cfg : Config) (s : State) (i : Nat) (messages : List BroadcastMessage)
    (undurable : List Nat) : Option State :=
  match s.running[i]? with
  | none => none
  | some none => some { s with running := s.running.eraseIdx i }
  | some (some job) =>
    if s.completions.length < cfg.maxOutstanding then
      some { s with
        running := s.running.eraseIdx i
        completions := s.completions ++ [resultOf job messages undurable] }
    else none

inductive Label where
  | advance
  | dispatch
  | complete
  | input
  | take
  | finish (i : Nat) (messages : List BroadcastMessage) (undurable : List Nat)
  | put
  | close
  | foreign
  deriving DecidableEq, Repr

/-- Steps of the dispatcher and of the workers, as against those of the
producer and of the other partitions. -/
def Label.internal : Label → Bool
  | .put | .close | .foreign => false
  | _ => true

/-- The producer puts the next event, if the queue has room. -/
def put (cfg : Config) (s : State) : Option State :=
  match s.source with
  | [] => none
  | e :: rest =>
    if s.queue.length < cfg.queueSize then some { s with source := rest, queue := s.queue ++ [e] }
    else none

/-- The producer closes the queue after its last event. -/
def close (s : State) : Option State :=
  if s.source = [] ∧ s.closed = false then some { s with closed := true } else none

/-- Another partition's dispatcher sends a job to the shared pool. -/
def foreign (cfg : Config) (s : State) : Option State :=
  if s.jobs.length < cfg.concurrency then some { s with jobs := s.jobs ++ [none] } else none

def step (cfg : Config) : Label → State → Option State
  | .advance, s => advance cfg s
  | .dispatch, s => selectDispatch cfg s
  | .complete, s => selectComplete s
  | .input, s => selectInput cfg s
  | .take, s => workerTake cfg s
  | .finish i messages undurable, s => workerFinish cfg s i messages undurable
  | .put, s => put cfg s
  | .close, s => close s
  | .foreign, s => foreign cfg s

/-! ## What a step can do -/

/-- Step (2) has its first event: the carried one, or the head of the open queue. -/
inductive Taken (s : State) (e : OutboxEvent) : State → Prop
  | carried (h : s.carry = some e) : Taken s e { s with carry := none }
  | fromQueue {rest} (hc : s.carry = none) (ho : s.queueOpen = true) (hq : s.queue = e :: rest) :
      Taken s e (s.pop e rest)

/-- Neither a ready job nor too many outstanding ones. -/
def State.Idle (cfg : Config) (s : State) : Prop :=
  s.readyJob = none ∧ s.dep.outstanding < cfg.maxOutstanding

/-- The dispatcher's moves, one constructor for each way through a phase. -/
inductive Step (cfg : Config) (s : State) : Label → State → Prop
  | noTerminal (hp : s.position = .terminals)
      (h : s.Idle cfg → s.waiting.find? s.isReady = none) :
      Step cfg s .advance { s with position := .fetch }
  | dropTerminal {w} (hp : s.position = .terminals) (hi : s.Idle cfg)
      (hw : s.waiting.find? s.isReady = some w) (hq : w.orderID ∈ s.dep.unsafeOrders) :
      Step cfg s .advance { s with
        position := .fetch
        waiting := s.waiting.eraseP s.isReady
        dep := s.dep.clearQuarantine w.orderID
        history := .dropped w.event :: s.history }
  | takeTerminal {w} (hp : s.position = .terminals) (hi : s.Idle cfg)
      (hw : s.waiting.find? s.isReady = some w) (hq : w.orderID ∉ s.dep.unsafeOrders) :
      Step cfg s .advance { s with
        position := .fetch
        waiting := s.waiting.eraseP s.isReady
        readyJob := some ⟨s.nextJobID, .terminal w.event⟩
        nextJobID := s.nextJobID + 1 }
  | busy (hp : s.position = .fetch) (h : ¬ s.Idle cfg) :
      Step cfg s .advance { s with position := .exit }
  | duplicate {e x s'} (hp : s.position = .fetch) (hi : s.Idle cfg) (ht : Taken s e s')
      (hx : e.event.terminalOrder? = some x) (hd : ∃ w ∈ s.waiting, w.orderID = x) :
      Step cfg s .advance { s' with history := .duplicate e :: s'.history, position := .terminals }
  | wait {e x s'} (hp : s.position = .fetch) (hi : s.Idle cfg) (ht : Taken s e s')
      (hx : e.event.terminalOrder? = some x) (hd : ∀ w ∈ s.waiting, w.orderID ≠ x) :
      Step cfg s .advance { s' with waiting := s.waiting ++ [⟨e, x⟩], position := .terminals }
  | start {e s'} (hp : s.position = .fetch) (hi : s.Idle cfg) (ht : Taken s e s')
      (hx : e.event.terminalOrder? = none) :
      Step cfg s .advance { s' with position := .collect [e] }
  | inputClosed (hp : s.position = .fetch) (hi : s.Idle cfg) (hc : s.carry = none)
      (ho : s.queueOpen = true) (hq : s.queue = []) (hcl : s.closed = true) :
      Step cfg s .advance { s with queueOpen := false, position := .exit }
  | noInput (hp : s.position = .fetch) (hi : s.Idle cfg) (hc : s.carry = none)
      (h : s.queueOpen = true → s.queue = [] ∧ s.closed = false) :
      Step cfg s .advance { s with position := .exit }
  | collectTrade {batch e rest} (hp : s.position = .collect batch) (hq : s.queue = e :: rest)
      (hx : e.event.terminalOrder? = none) :
      Step cfg s .advance { s.pop e rest with position := .collect (batch ++ [e]) }
  | collectTerminal {batch e rest x} (hp : s.position = .collect batch) (hq : s.queue = e :: rest)
      (hx : e.event.terminalOrder? = some x) :
      Step cfg s .advance (finishBatch { s.pop e rest with carry := some e } batch)
  | collectClosed {batch} (hp : s.position = .collect batch) (hq : s.queue = [])
      (hcl : s.closed = true) :
      Step cfg s .advance (finishBatch { s with queueOpen := false } batch)
  | collectDone {batch} (hp : s.position = .collect batch) :
      Step cfg s .advance (finishBatch s batch)
  | exitReturn (hp : s.position = .exit) (ho : s.queueOpen = false) (hr : s.readyJob = none)
      (hd : s.dep.outstanding = 0) (hc : s.carry = none) (hw : s.waiting = []) :
      Step cfg s .advance { s.flushBroadcasts with position := .returned }
  | exitSelect (hp : s.position = .exit)
      (h : ¬ (s.queueOpen = false ∧ s.readyJob = none ∧ s.dep.outstanding = 0 ∧ s.carry = none ∧
        s.waiting = [])) : Step cfg s .advance { s with position := .select }
  | dispatch {job} (hp : s.position = .select) (hr : s.readyJob = some job)
      (hj : s.jobs.length < cfg.concurrency) :
      Step cfg s .dispatch { s with
        jobs := s.jobs ++ [some job]
        dep := s.dep.register job.id job.work.orders
        readyJob := none
        history := .dispatched job :: s.history
        position := .terminals }
  | completeTerminal {res rest} (hp : s.position = .select) (hc : s.completions = res :: rest)
      (hs : res.seq = none) :
      Step cfg s .complete { s with
        completions := rest
        dep := s.dep.retire res.id res.undurableOrderIDs
        history := .retired res :: s.history
        position := .terminals }
  | completeTrade {res rest seq} (hp : s.position = .select) (hc : s.completions = res :: rest)
      (hs : res.seq = some seq) :
      Step cfg s .complete { s with
        completions := rest
        dep := s.dep.retire res.id res.undurableOrderIDs
        history := .retired res :: s.history
        position := .terminals
        pending := (seq, res) :: s.pending.filter (fun p => p.1 != seq) }.flushBroadcasts
  | input {e rest} (hp : s.position = .select) (ho : s.queueOpen = true) (hi : s.Idle cfg)
      (hc : s.carry = none) (hq : s.queue = e :: rest) :
      Step cfg s .input { s.pop e rest with carry := some e, position := .terminals }
  | selectClosed (hp : s.position = .select) (ho : s.queueOpen = true) (hi : s.Idle cfg)
      (hc : s.carry = none) (hq : s.queue = []) (hcl : s.closed = true) :
      Step cfg s .input { s with queueOpen := false, position := .terminals }
  | take {job rest} (hj : s.jobs = job :: rest) (hr : s.running.length < cfg.concurrency) :
      Step cfg s .take { s with jobs := rest, running := s.running ++ [job] }
  | finishForeign {i messages undurable} (hr : s.running[i]? = some none) :
      Step cfg s (.finish i messages undurable) { s with running := s.running.eraseIdx i }
  | finish {i job messages undurable}
      (hr : s.running[i]? = some (some job)) (hc : s.completions.length < cfg.maxOutstanding) :
      Step cfg s (.finish i messages undurable) { s with
        running := s.running.eraseIdx i
        completions := s.completions ++ [resultOf job messages undurable] }
  | put {e rest} (hs : s.source = e :: rest) (hq : s.queue.length < cfg.queueSize) :
      Step cfg s .put { s with source := rest, queue := s.queue ++ [e] }
  | close (hs : s.source = []) : Step cfg s .close { s with closed := true }
  | foreign (hj : s.jobs.length < cfg.concurrency) :
      Step cfg s .foreign { s with jobs := s.jobs ++ [none] }

variable {cfg : Config} {s t : State}

theorem receive_cases (s : State) :
    (∃ e rest, s.queue = e :: rest ∧ s.receive = .event e rest) ∨
    (s.queue = [] ∧ s.closed = true ∧ s.receive = .closed) ∨
    (s.queue = [] ∧ s.closed = false ∧ s.receive = .empty) := by
  cases hq : s.queue with
  | cons e rest => exact .inl ⟨e, rest, rfl, by simp [State.receive, hq]⟩
  | nil => cases hc : s.closed <;> simp [State.receive, hq, hc]

theorem idle_iff : (s.readyJob.isNone && decide (s.dep.outstanding < cfg.maxOutstanding)) = true ↔
    s.Idle cfg := by
  simp [State.Idle]

theorem move_terminals (hp : s.position = .terminals) :
    Step cfg s .advance (terminalsPhase cfg s) := by
  unfold terminalsPhase
  by_cases hi : s.Idle cfg
  · rw [if_pos (idle_iff.mpr hi)]
    unfold State.takeReadyTerminal
    cases hw : s.waiting.find? s.isReady with
    | none => exact .noTerminal hp fun _ => hw
    | some w =>
      by_cases hq : w.orderID ∈ s.dep.unsafeOrders
      · simpa [hq] using Step.dropTerminal hp hi hw hq
      · simpa [hq] using Step.takeTerminal hp hi hw hq
  · rw [if_neg (mt idle_iff.mp hi)]
    exact .noTerminal hp fun h => absurd h hi

theorem Taken.waiting_eq {e : OutboxEvent} (h : Taken s e t) : t.waiting = s.waiting := by
  cases h <;> rfl

theorem move_startWith {e : OutboxEvent} (hp : s.position = .fetch) (hi : s.Idle cfg)
    (ht : Taken s e t) : Step cfg s .advance (startWith t e) := by
  unfold startWith
  cases hx : e.event.terminalOrder? with
  | none => exact .start hp hi ht hx
  | some x =>
    unfold State.appendWaiting
    by_cases hd : ∃ w ∈ s.waiting, w.orderID = x
    · simpa [ht.waiting_eq, hd] using Step.duplicate hp hi ht hx hd
    · simpa [ht.waiting_eq, hd] using Step.wait hp hi ht hx (by simpa using hd)

theorem move_fetch (hp : s.position = .fetch) : Step cfg s .advance (fetchPhase cfg s) := by
  unfold fetchPhase
  by_cases hi : s.Idle cfg
  · rw [if_pos (idle_iff.mpr hi)]
    cases hc : s.carry with
    | some e => exact move_startWith hp hi (.carried hc)
    | none =>
      cases ho : s.queueOpen with
      | false => simpa [hc, ho] using Step.noInput hp hi hc (by simp [ho])
      | true =>
        obtain ⟨e, rest, hq, hr⟩ | ⟨hq, hcl, hr⟩ | ⟨hq, hcl, hr⟩ := receive_cases s
        · simpa [hr] using move_startWith hp hi (.fromQueue hc ho hq)
        · simpa [hr, hc] using Step.inputClosed hp hi hc ho hq hcl
        · simpa [hr, hc, ho] using Step.noInput hp hi hc fun _ => ⟨hq, hcl⟩
  · rw [if_neg (mt idle_iff.mp hi)]
    exact .busy hp hi

theorem move_collect {batch : List OutboxEvent} (hp : s.position = .collect batch) :
    Step cfg s .advance (collectRound cfg s batch) := by
  unfold collectRound
  split
  · obtain ⟨e, rest, hq, hr⟩ | ⟨hq, hcl, hr⟩ | ⟨hq, hcl, hr⟩ := receive_cases s
    · rw [hr]
      cases hx : e.event.terminalOrder? with
      | none => simpa [hx] using Step.collectTrade hp hq hx
      | some x => simpa [hx] using Step.collectTerminal hp hq hx
    · simpa [hr] using Step.collectClosed hp hq hcl
    · simpa [hr] using Step.collectDone hp
  · exact .collectDone hp

theorem move_exit (hp : s.position = .exit) : Step cfg s .advance (exitPhase s) := by
  unfold exitPhase
  split <;> rename_i h
  · simp only [Bool.and_eq_true, Bool.not_eq_eq_eq_not, Bool.not_true, Option.isNone_iff_eq_none,
      beq_iff_eq, List.isEmpty_iff] at h
    obtain ⟨⟨⟨⟨ho, hr⟩, hd⟩, hc⟩, hw⟩ := h
    exact .exitReturn hp ho hr hd hc hw
  · refine .exitSelect hp fun ⟨ho, hr, hd, hc, hw⟩ => h ?_
    simp [ho, hr, hd, hc, hw]

theorem move_select_complete (h : selectComplete s = some t) : Step cfg s .complete t := by
  unfold selectComplete at h
  split at h
  · rename_i res rest hp hc
    cases hs : res.seq with
    | none =>
      simp only [hs, Option.some.injEq] at h
      exact h ▸ .completeTerminal hp hc hs
    | some seq =>
      simp only [hs, Option.some.injEq] at h
      exact h ▸ .completeTrade hp hc hs
  · cases h

theorem move_select_input (h : selectInput cfg s = some t) : Step cfg s .input t := by
  unfold selectInput at h
  split at h
  · rename_i hg
    obtain ⟨hp, ho, hr, hc, hd⟩ := hg
    have hi : s.Idle cfg := ⟨by simpa using hr, hd⟩
    have hc : s.carry = none := by simpa using hc
    obtain ⟨e, rest, hq, hr⟩ | ⟨hq, hcl, hr⟩ | ⟨hq, hcl, hr⟩ := receive_cases s
    · simp only [hr, Option.some.injEq] at h
      exact h ▸ .input hp ho hi hc hq
    · simp only [hr, Option.some.injEq] at h
      exact h ▸ .selectClosed hp ho hi hc hq hcl
    · simp [hr] at h
  · cases h

/-- Every labelled step is one of the moves. -/
theorem move_of_step {a : Label} (h : step cfg a s = some t) : Step cfg s a t := by
  cases a with
  | advance =>
    simp only [step, advance] at h
    cases hp : s.position with
    | terminals => rw [hp] at h; exact Option.some.inj h ▸ move_terminals hp
    | fetch => rw [hp] at h; exact Option.some.inj h ▸ move_fetch hp
    | collect batch => rw [hp] at h; exact Option.some.inj h ▸ move_collect hp
    | exit => rw [hp] at h; exact Option.some.inj h ▸ move_exit hp
    | select => rw [hp] at h; cases h
    | returned => rw [hp] at h; cases h
  | dispatch =>
    simp only [step, selectDispatch] at h
    split at h
    · rename_i job hp hr
      split at h
      · rename_i hj; exact Option.some.inj h ▸ .dispatch hp hr hj
      · cases h
    · cases h
  | complete => exact move_select_complete h
  | input => exact move_select_input h
  | take =>
    simp only [step, workerTake] at h
    split at h
    · cases h
    · rename_i job rest hj
      split at h
      · rename_i hr; exact Option.some.inj h ▸ .take hj hr
      · cases h
  | finish i messages undurable =>
    simp only [step, workerFinish] at h
    split at h
    · cases h
    · rename_i hr; exact Option.some.inj h ▸ .finishForeign hr
    · rename_i job hr
      split at h
      · rename_i hc; exact Option.some.inj h ▸ .finish hr hc
      · cases h
  | put =>
    simp only [step, put] at h
    split at h
    · cases h
    · rename_i e rest hs
      split at h
      · rename_i hq; exact Option.some.inj h ▸ .put hs hq
      · cases h
  | close =>
    simp only [step, close] at h
    split at h
    · rename_i hs; exact Option.some.inj h ▸ .close hs.1
    · cases h
  | foreign =>
    simp only [step, foreign] at h
    split at h
    · rename_i hj; exact Option.some.inj h ▸ .foreign hj
    · cases h

end GoExchange.Dispatcher
