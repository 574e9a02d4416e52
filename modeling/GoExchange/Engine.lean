import GoExchange.Core
import GoExchange.Lts
import GoExchange.Quantum

/-!
# The scheduler of the matching engine

`runTurn` as a transition system. A turn takes cancels, publishes snapshots,
runs at most one slice of the active sweep, admits an order and then blocks or
starts over. The engine moves by one loop iteration or one phase at a time, so
that the producers of orders and cancels, the consumers, the ticker and `Stop`
may act between any two of its steps.
-/
namespace GoExchange.Engine

open Matching

structure PriceLevelData where
  price : Decimal
  quantity : Decimal
  deriving DecidableEq, Repr

structure OrderBookSnapshot where
  coinSymbol : String
  asks : List PriceLevelData
  bids : List PriceLevelData
  deriving DecidableEq, Repr

def defaultSnapshotDepth : Nat := 30

/-- The levels of one half with what rests there; empty sums are skipped. -/
def levelData (levels : List PriceLevel) : List PriceLevelData :=
  (levels.map fun l => ⟨l.key, (l.items.map Order.amount).sum⟩).filter fun d =>
    decide (0 < d.quantity)

/-- `GetOrderBookSnapshotWithDepth` of a book. -/
def snapshotOf (symbol : String) (book : OrderBook) (depth : Nat) : OrderBookSnapshot :=
  ⟨symbol, (levelData book.sellOrders).take depth, (levelData book.buyOrders).take depth⟩

structure ActiveSweep where
  order : Order
  book : Nat
  trades : Nat
  deriving DecidableEq, Repr

inductive Panic where
  | reservationExhausted | channelNotReady | divisionByZero
  deriving DecidableEq, Repr

/-- Where the engine's goroutine stands. `hadActive` is fixed at the start of the turn. -/
inductive Pc where
  | start
  | cancelHead (hadActive : Bool) (rejectBudget : Nat)
  | cancelTake (hadActive : Bool) (rejectBudget : Nat) (reject : Bool)
  | ticker (hadActive : Bool)
  | flush (hadActive : Bool)
  | slice (hadActive : Bool)
  | matching (hadActive : Bool) (trades : Nat)
  | sliced (hadActive : Bool) (trades : Nat) (done : Bool)
  | stopCheck (hadActive : Bool)
  | admission
  | parkCheck
  | parkSelect
  | drain
  | lastFlush
  | select (orders : Bool)
  | returned
  | crashed (p : Panic)
  deriving DecidableEq, Repr

/-- An event on `ExecutionCh`, with the reservation and the free slots it was sent under. -/
structure Emission where
  event : ExecutionEvent
  reserved : Bool
  remaining : Int
  free : Int
  deriving DecidableEq, Repr

/-- The engine, its channels and, in the last four fields, the history of the run: the orders
sent, the orders admitted, the events emitted and the cancels answered. -/
structure State where
  core : Core
  orderCh : List Order
  cancelCh : List CancelOrderCommand
  executionCh : List ExecutionEvent
  snapshotCh : List OrderBookSnapshot
  capacityCh : Bool
  tickerCh : Bool
  stopClosed : Bool
  outputsClosed : Bool
  reservationActive : Bool
  reservationRemaining : Int
  activeSweep : Option ActiveSweep
  shuttingDown : Bool
  cancelsSinceProgress : Nat
  pendingCancel : Option CancelOrderCommand
  pendingOrder : Option Order
  tickerDue : Bool
  parked : Bool
  dirtySymbols : List String
  snapshotCache : List (String × OrderBookSnapshot)
  pc : Pc
  submitted : List Order
  admitted : List Order
  emitted : List Emission
  answers : List (CancelOrderCommand × CancelOrderResult)

def init (engineID : Nat) : State where
  core := .new engineID
  orderCh := []
  cancelCh := []
  executionCh := []
  snapshotCh := []
  capacityCh := false
  tickerCh := false
  stopClosed := false
  outputsClosed := false
  reservationActive := false
  reservationRemaining := 0
  activeSweep := none
  shuttingDown := false
  cancelsSinceProgress := 0
  pendingCancel := none
  pendingOrder := none
  tickerDue := false
  parked := false
  dirtySymbols := []
  snapshotCache := []
  pc := .start
  submitted := []
  admitted := []
  emitted := []
  answers := []

def orderChCapacity : Nat := 1024
def cancelChCapacity : Nat := 1024
def snapshotChCapacity : Nat := 256

section

variable (cfg : EngineConfig)

def free (s : State) : Int := cfg.executionCapacity - s.executionCh.length

def hasSliceCapacity (s : State) : Bool := cfg.toQuantumConfig.hasSliceCapacity (free cfg s)

def sliceBlockedNow (s : State) : Bool := s.activeSweep.isSome && !hasSliceCapacity cfg s

/-- The high watermark is three quarters of the capacity. -/
def emitBackpressured (s : State) : Bool :=
  decide (cfg.executionCapacity ≠ 0) && decide
    (cfg.executionCapacity * 3 / 4 ≤ s.executionCh.length)

def beginReservation (s : State) (budget : Int) : State :=
  { s with reservationActive := true, reservationRemaining := budget }

def endReservation (s : State) : State :=
  { s with reservationActive := false, reservationRemaining := 0 }

def markDirty (s : State) (symbol : String) : State :=
  { s with
    dirtySymbols := if symbol ∈ s.dirtySymbols then s.dirtySymbols else symbol :: s.dirtySymbols }

def answer (s : State) (cmd : CancelOrderCommand) (result : CancelOrderResult) : State :=
  { s with answers := s.answers ++ [(cmd, result)] }

/-- The event on the channel and in the history. -/
def put (s : State) (e : ExecutionEvent) : State :=
  { s with
    executionCh := s.executionCh ++ [e]
    emitted := s.emitted ++ [⟨e, s.reservationActive, s.reservationRemaining, free cfg s⟩] }

/-- `sendExecution`: inside a reservation it sends or panics, outside it may block. -/
inductive Sent where
  | sent (s : State)
  | panic (p : Panic)
  | blocked

def sendExecution (s : State) (e : ExecutionEvent) : Sent :=
  if s.reservationActive then
    if s.reservationRemaining ≤ 0 then .panic .reservationExhausted
    else if 0 < free cfg s then
      .sent { put cfg s e with reservationRemaining := s.reservationRemaining - 1 }
    else .panic .channelNotReady
  else if 0 < free cfg s then .sent (put cfg s e)
  else .blocked

/-- Go on after a send; a panic ends the process. -/
def Sent.then (sent : Sent) (s : State) (f : State → State) : Option State :=
  match sent with
  | .sent s' => some (f s')
  | .panic p => some { s with pc := .crashed p }
  | .blocked => none

def latchStop (s : State) : State := { s with shuttingDown := true }

/-! ## The phases of a turn -/

/-- One round of `cancelPhase` up to the decision, made before a command is taken. -/
def cancelHead (s : State) (hadActive : Bool) (rejectBudget : Nat) : State :=
  let blocked := sliceBlockedNow cfg s
  let quotaLeft := decide ((s.cancelsSinceProgress : Int) < cfg.maxConsecutiveCancels)
  if quotaLeft && decide (1 ≤ free cfg s) then
    { s with pc := .cancelTake hadActive rejectBudget false }
  else if free cfg s = 0 ∨ (blocked && !quotaLeft) = true then
    if rejectBudget = 0 then { s with pc := .ticker hadActive }
    else { s with pc := .cancelTake hadActive rejectBudget true }
  else { s with pc := .ticker hadActive }

def takeCancel (s : State) : Option (CancelOrderCommand × State) :=
  match s.pendingCancel with
  | some cmd => some (cmd, { s with pendingCancel := none })
  | none =>
    match s.cancelCh with
    | cmd :: rest => some (cmd, { s with cancelCh := rest })
    | [] => none

/-- `processCancel` after `handleCancel`: the mark and the event, then the answer. -/
def finishCancel (s : State) (cmd : CancelOrderCommand) (result : CancelOrderResult) (pc : Pc) :
    Option State :=
  let finish (s : State) : State :=
    { answer s cmd result with cancelsSinceProgress := s.cancelsSinceProgress + 1, pc := pc }
  match result with
  | .removed =>
    let (core, eventID) := s.core.nextTradeEvent
    let s := beginReservation { markDirty s cmd.coinSymbol with core := core } 1
    (sendExecution cfg s
      (.orderCancelled ⟨cmd.commandID, cmd.orderID, cmd.coinSymbol, cmd.side, eventID⟩)).then s
        fun s => finish (endReservation s)
  | _ => some (finish s)

def processCancel (s : State) (cmd : CancelOrderCommand) (pc : Pc) : Option State :=
  let (core, result) := s.core.handleCancel cmd
  finishCancel cfg { s with core := core } cmd result pc

def cancelTake (s : State) (hadActive : Bool) (rejectBudget : Nat) (reject : Bool) : Option State :=
  match takeCancel s with
  | none => some { s with pc := .ticker hadActive }
  | some (cmd, s) =>
    if reject then
      some { answer s cmd .backpressured with pc := .cancelHead hadActive (rejectBudget - 1) }
    else processCancel cfg s cmd (.cancelHead hadActive rejectBudget)

/-- One symbol of `flushSnapshots`. A full snapshot channel drops the snapshot. -/
def flushSymbol (s : State) (symbol : String) : State :=
  let (core, i) := s.core.getOrderBook symbol
  let snapshot := snapshotOf symbol (core.book i) defaultSnapshotDepth
  { s with
    core := core
    snapshotCache := (symbol, snapshot) :: s.snapshotCache.filter (fun e => e.1 != symbol)
    snapshotCh :=
      if s.snapshotCh.length < snapshotChCapacity then s.snapshotCh ++ [snapshot] else s.snapshotCh
    dirtySymbols := s.dirtySymbols.filter (fun d => d != symbol) }

def tickerPhase (s : State) (hadActive : Bool) : State :=
  if s.tickerDue then { s with tickerDue := false, pc := .flush hadActive }
  else if s.tickerCh then { s with tickerCh := false, pc := .flush hadActive }
  else { s with pc := .slice hadActive }

/-- The start of `runSlice`, if there is a sweep and room for its events. -/
def slicePhase (s : State) (hadActive : Bool) : State :=
  if s.activeSweep.isSome && hasSliceCapacity cfg s then
    { beginReservation { s with parked := false } (cfg.maxMatchesPerTurn + 1) with
      pc := .matching hadActive 0 }
  else { s with pc := .stopCheck hadActive }

/-- The trade of an iteration, once the book has changed. -/
def emitTrade (s : State) (order : Order) (fill : Fill) (hadActive : Bool) (trades : Nat) :
    Option State :=
  let (core, eventID) := s.core.nextTradeEvent
  let s := { s with core := core }
  (sendExecution cfg s (.trade (newTrade eventID order fill))).then s
    fun s => { s with pc := .matching hadActive (trades + 1) }

/-- One iteration of the loop `matchSlice` picks. -/
def matchingStep (s : State) (hadActive : Bool) (trades : Nat) : Option State :=
  match s.activeSweep with
  | none => none
  | some sweep =>
    let done : Option State := some { s with pc := .sliced hadActive trades true }
    match kindOf sweep.order with
    | none => done
    | some k =>
      if k.active sweep.order then
        if 0 < cfg.maxMatchesPerTurn ∧ cfg.maxMatchesPerTurn ≤ trades then
          some { s with pc := .sliced hadActive trades false }
        else
          match k.round (s.core.book sweep.book) sweep.order with
          | .stop => done
          | .panic => some { s with pc := .crashed .divisionByZero }
          | .trade book order fill =>
            emitTrade cfg
              { s with core := s.core.setBook sweep.book book, activeSweep := some { sweep with
                order := order } }
              order fill hadActive trades
      else done

/-- The mark a slice leaves when it has traded. -/
def sliceDirty (s : State) (symbol : String) (trades : Nat) : State :=
  if 1 ≤ trades then markDirty s symbol else s

/-- What is left of a limit order is added to its book. -/
def restOrder (s : State) (sweep : ActiveSweep) : State :=
  { s with core := s.core.setBook sweep.book ((s.core.book sweep.book).addOrder sweep.order) }

/-- The end of a slice. -/
def sliceClosed (s : State) (sweep : Option ActiveSweep) (hadActive : Bool) : State :=
  { endReservation s with
    activeSweep := sweep, cancelsSinceProgress := 0, pc := .stopCheck hadActive }

/-- The end of `runSlice`: the last slice finishes the order and frees the slot. -/
def slicedStep (s : State) (hadActive : Bool) (trades : Nat) (done : Bool) : Option State :=
  match s.activeSweep with
  | none => none
  | some sweep =>
    let s := sliceDirty s sweep.order.coinSymbol trades
    if done then
      if sweep.order.orderType = .market then
        (sendExecution cfg s (.marketOrderDone (marketOrderDone sweep.order))).then s
          fun s => sliceClosed s none hadActive
      else if 0 < sweep.order.amount then
        some (sliceClosed (markDirty (restOrder s sweep) sweep.order.coinSymbol) none hadActive)
      else some (sliceClosed s none hadActive)
    else some (sliceClosed s (some { sweep with trades := sweep.trades + trades }) hadActive)

def stopCheck (s : State) (hadActive : Bool) : State :=
  let s := if s.stopClosed then latchStop s else s
  { s with pc := if hadActive then .parkCheck else .admission }

/-- `admit` with the `admitOrder` it calls. -/
def admitOrder (s : State) (order : Order) : State :=
  let s := { s with admitted := s.admitted ++ [order] }
  if orderIsAdmissible order then
    let (core, i) := s.core.getOrderBook order.coinSymbol
    { s with core := core, activeSweep := some ⟨order, i, 0⟩ }
  else s

/-- A latched order goes first; the backpressure gate only holds back new ones. -/
def admitPhase (s : State) : State :=
  let s :=
    match s.pendingOrder with
    | some order => admitOrder { s with pendingOrder := none } order
    | none =>
      if !s.shuttingDown && emitBackpressured cfg s then s
      else
        match s.orderCh with
        | order :: rest => admitOrder { s with orderCh := rest } order
        | [] => s
  { s with cancelsSinceProgress := 0, pc := .parkCheck }

/-- Park, go on, drain or block. -/
def parkCheck (s : State) : State :=
  if sliceBlockedNow cfg s && s.pendingCancel.isNone then
    { s with parked := true, pc := .parkSelect }
  else if s.activeSweep.isSome || s.pendingCancel.isSome || s.pendingOrder.isSome ||
      s.tickerDue then
    { s with pc := .start }
  else if s.shuttingDown then { s with pc := .drain }
  else { s with pc := .select (!emitBackpressured cfg s) }

/-- `latchOneNonBlocking`; with nothing left the outputs are flushed and closed. -/
def drainStep (s : State) : State :=
  match s.cancelCh, s.orderCh with
  | cmd :: rest, _ => { s with cancelCh := rest, pendingCancel := some cmd, pc := .start }
  | [], order :: rest => { s with orderCh := rest, pendingOrder := some order, pc := .start }
  | [], [] => { s with pc := .lastFlush }

/-! ## The transition system -/

/-- The engine's own steps, with the choices of `select` and of the range over the dirty symbols,
and the steps of its surroundings. -/
inductive Label where
  | advance
  | flush (symbol : String)
  | recvCancel
  | recvOrder
  | recvTick
  | recvStop
  | recvCapacity
  | submitOrder (o : Order)
  | sendCancel (cmd : CancelOrderCommand)
  | consume
  | consumeSnapshot
  | tick
  | stop
  | wake
  deriving DecidableEq, Repr

def advance (s : State) : Option State :=
  match s.pc with
  | .start =>
    let rejectBudget := s.cancelCh.length + if s.pendingCancel.isSome then 1 else 0
    some { s with pc := .cancelHead s.activeSweep.isSome rejectBudget }
  | .cancelHead hadActive rejectBudget => some (cancelHead cfg s hadActive rejectBudget)
  | .cancelTake hadActive rejectBudget reject => cancelTake cfg s hadActive rejectBudget reject
  | .ticker hadActive => some (tickerPhase s hadActive)
  | .flush hadActive => if s.dirtySymbols = [] then some { s with pc := .slice hadActive } else none
  | .slice hadActive => some (slicePhase cfg s hadActive)
  | .matching hadActive trades => matchingStep cfg s hadActive trades
  | .sliced hadActive trades done => slicedStep cfg s hadActive trades done
  | .stopCheck hadActive => some (stopCheck s hadActive)
  | .admission => some (admitPhase cfg s)
  | .parkCheck => some (parkCheck cfg s)
  | .drain => some (drainStep s)
  | .lastFlush =>
    if s.dirtySymbols = [] then some { s with outputsClosed := true, pc := .returned } else none
  | .parkSelect | .select _ | .returned | .crashed _ => none

/-- A receive from `CancelCh` in one of the two blocking selects. -/
def recvCancel (s : State) : Option State :=
  match s.cancelCh with
  | cmd :: rest => some { s with cancelCh := rest, pendingCancel := some cmd, pc := .start }
  | [] => none

def recvTick (s : State) : Option State :=
  if s.tickerCh then some { s with tickerCh := false, tickerDue := true, pc := .start } else none

def recvStop (s : State) : Option State :=
  if s.stopClosed && !s.shuttingDown then some { latchStop s with pc := .start } else none

def step : Label → State → Option State
  | .advance, s => advance cfg s
  | .flush symbol, s =>
    match s.pc with
    | .flush _ | .lastFlush => if symbol ∈ s.dirtySymbols then some (flushSymbol s symbol) else none
    | _ => none
  | .recvCancel, s =>
    match s.pc with
    | .select _ | .parkSelect => recvCancel s
    | _ => none
  | .recvOrder, s =>
    match s.pc, s.orderCh with
    | .select true, order :: rest =>
      some { s with orderCh := rest, pendingOrder := some order, pc := .start }
    | _, _ => none
  | .recvTick, s =>
    match s.pc with
    | .select _ | .parkSelect => recvTick s
    | _ => none
  | .recvStop, s =>
    match s.pc with
    | .select _ | .parkSelect => recvStop s
    | _ => none
  | .recvCapacity, s =>
    match s.pc with
    | .parkSelect =>
      if s.capacityCh then some { s with capacityCh := false, pc := .start } else none
    | _ => none
  | .submitOrder o, s =>
    if s.orderCh.length < orderChCapacity then
      some { s with orderCh := s.orderCh ++ [o], submitted := s.submitted ++ [o] }
    else none
  | .sendCancel cmd, s =>
    if s.cancelCh.length < cancelChCapacity then some { s with cancelCh := s.cancelCh ++ [cmd] }
    else none
  | .consume, s =>
    match s.executionCh with
    | _ :: rest => some { s with executionCh := rest }
    | [] => none
  | .consumeSnapshot, s =>
    match s.snapshotCh with
    | _ :: rest => some { s with snapshotCh := rest }
    | [] => none
  | .tick, s => some { s with tickerCh := true }
  | .stop, s => some { s with stopClosed := true }
  | .wake, s => some { s with capacityCh := true }

end

end GoExchange.Engine
