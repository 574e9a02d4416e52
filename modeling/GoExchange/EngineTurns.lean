import GoExchange.Engine
import GoExchange.Rows

/-!
# The turns of the scheduler

Every step of the engine with the state it leaves, by its position. The engine
is the only sender on `ExecutionCh` and consumers only make room; what it has
made sure of before it sends is `ReserveInv`, under which each send succeeds.
-/
namespace GoExchange.Engine

open Matching

variable {cfg : EngineConfig} {s s' t : State} {l : Label}

/-! ## Reservations -/

/-- The reservation of a slice that has made so many trades. -/
def Reserved (cfg : EngineConfig) (s : State) (trades : Nat) : Prop :=
  s.activeSweep.isSome = true ∧ s.reservationActive = true ∧
    s.reservationRemaining = cfg.maxMatchesPerTurn + 1 - trades ∧
    (trades : Int) ≤ cfg.maxMatchesPerTurn ∧ s.reservationRemaining ≤ free cfg s

/-- What the engine has made sure of where it is about to emit. -/
def Granted (cfg : EngineConfig) (s : State) : Prop :=
  match s.pc with
  | .cancelTake _ _ false => 1 ≤ free cfg s
  | .matching _ trades | .sliced _ trades _ => Reserved cfg s trades
  | .crashed p => p = .divisionByZero
  | _ => True

/-- An event was sent inside an open reservation that was not used up, and found a slot. -/
def Emission.Backed (e : Emission) : Prop := e.reserved = true ∧ 0 < e.remaining ∧ 0 < e.free

structure ReserveInv (cfg : EngineConfig) (s : State) : Prop where
  room : s.executionCh.length ≤ cfg.executionCapacity
  granted : Granted cfg s
  log : ∀ e ∈ s.emitted, e.Backed

section

variable {hadActive : Bool} {trades budget : Nat}

theorem ReserveInv.free_of_cancelTake (h : ReserveInv cfg s)
    (hpc : s.pc = .cancelTake hadActive budget false) : 1 ≤ free cfg s := by
  simpa only [Granted, hpc] using h.granted

theorem ReserveInv.of_matching (h : ReserveInv cfg s)
    (hpc : s.pc = .matching hadActive trades) : Reserved cfg s trades := by
  simpa only [Granted, hpc] using h.granted

theorem ReserveInv.of_sliced (h : ReserveInv cfg s) {done : Bool}
    (hpc : s.pc = .sliced hadActive trades done) : Reserved cfg s trades := by
  simpa only [Granted, hpc] using h.granted

end

/-- Inside a reservation with a slot left for it, an event is sent. -/
theorem sendExecution_reserved {e : ExecutionEvent} (hact : s.reservationActive = true)
    (hrem : 0 < s.reservationRemaining) (hle : s.reservationRemaining ≤ free cfg s) :
    sendExecution cfg s e =
      .sent { put cfg s e with reservationRemaining := s.reservationRemaining - 1 } := by
  simp [sendExecution, hact, not_le.mpr hrem, hrem.trans_le hle]

/-! ## Turns -/

/-- Orders sent but not yet admitted, oldest first. -/
def intake (s : State) : List Order := s.pendingOrder.toList ++ s.orderCh

/-- Cancels sent but not yet answered, oldest first. -/
def waiting (s : State) : List CancelOrderCommand := s.pendingCancel.toList ++ s.cancelCh

/-- Some of the quota of cancels is left. -/
def quotaLeft (cfg : EngineConfig) (s : State) : Prop :=
  (s.cancelsSinceProgress : Int) < cfg.maxConsecutiveCancels

/-- `cancelPhase` may only turn commands away. -/
def mustReject (cfg : EngineConfig) (s : State) : Prop :=
  free cfg s = 0 ∨ sliceBlockedNow cfg s = true ∧ ¬ quotaLeft cfg s

/-- The state after the answer to the command that waited longest. -/
def answered (s : State) (cmd : CancelOrderCommand) (rest : List CancelOrderCommand)
    (result : CancelOrderResult) : State :=
  answer { s with pendingCancel := none, cancelCh := rest } cmd result

/-- The state after a cancel that found its order: the book, the event, the answer. -/
def removal (cfg : EngineConfig) (s : State) (cmd : CancelOrderCommand)
    (rest : List CancelOrderCommand) (core : Core) (pc : Pc) : State :=
  let e := .orderCancelled ⟨cmd.commandID, cmd.orderID, cmd.coinSymbol, cmd.side,
    core.nextTradeEvent.2⟩
  { markDirty (answered s cmd rest .removed) cmd.coinSymbol with
    core := core.nextTradeEvent.1
    executionCh := s.executionCh ++ [e]
    emitted := s.emitted ++ [⟨e, true, 1, free cfg s⟩]
    reservationActive := false
    reservationRemaining := 0
    cancelsSinceProgress := s.cancelsSinceProgress + 1
    pc := pc }

/-- The state after one execution of the active sweep. -/
def traded (cfg : EngineConfig) (s : State) (sweep : ActiveSweep) (book : OrderBook) (order : Order)
    (fill : Fill) (pc : Pc) : State :=
  let e := .trade (newTrade s.core.nextTradeEvent.2 order fill)
  { s with
    core := (s.core.setBook sweep.book book).nextTradeEvent.1
    activeSweep := some { sweep with order := order }
    executionCh := s.executionCh ++ [e]
    emitted := s.emitted ++ [⟨e, s.reservationActive, s.reservationRemaining, free cfg s⟩]
    reservationRemaining := s.reservationRemaining - 1
    pc := pc }

/-- Of the state the mark changes only the dirty symbols. -/
theorem sliceDirty_eq (s : State) (symbol : String) (trades : Nat) :
    sliceDirty s symbol trades =
      { s with dirtySymbols := (sliceDirty s symbol trades).dirtySymbols } := by
  unfold sliceDirty
  split <;> rfl

/-- The sweep can trade no more in its book. -/
def Halted (s : State) (sweep : ActiveSweep) : Prop :=
  ∀ k, kindOf sweep.order = some k →
    k.active sweep.order = false ∨ k.round (s.core.book sweep.book) sweep.order = .stop

/-- One step of the engine's own goroutine. -/
inductive Turn (cfg : EngineConfig) (s : State) : State → Prop
  | start (hpc : s.pc = .start) :
      Turn cfg s { s with pc := .cancelHead s.activeSweep.isSome (waiting s).length }
  | accept {hadActive budget} (hpc : s.pc = .cancelHead hadActive budget) (hquota : quotaLeft cfg s)
      (hfree : 1 ≤ free cfg s) : Turn cfg s { s with pc := .cancelTake hadActive budget false }
  | reject {hadActive budget} (hpc : s.pc = .cancelHead hadActive budget)
      (hreject : mustReject cfg s)
      (hbudget : budget ≠ 0) : Turn cfg s { s with pc := .cancelTake hadActive budget true }
  | spent {hadActive} (hpc : s.pc = .cancelHead hadActive 0) (hreject : mustReject cfg s) :
      Turn cfg s { s with pc := .ticker hadActive }
  | held {hadActive budget} (hpc : s.pc = .cancelHead hadActive budget) (hquota : ¬ quotaLeft cfg s)
      (hfree : 1 ≤ free cfg s) (hblocked : sliceBlockedNow cfg s = false) :
      Turn cfg s { s with pc := .ticker hadActive }
  | noCancel {hadActive budget reject} (hpc : s.pc = .cancelTake hadActive budget reject)
      (hnone : waiting s = []) : Turn cfg s { s with pc := .ticker hadActive }
  | rejected {hadActive budget cmd rest} (hpc : s.pc = .cancelTake hadActive budget true)
      (hwait : waiting s = cmd :: rest) :
      Turn cfg s { answered s cmd rest .backpressured with
        pc := .cancelHead hadActive (budget - 1) }
  | refused {hadActive budget cmd rest core result}
      (hpc : s.pc = .cancelTake hadActive budget false)
      (hwait : waiting s = cmd :: rest) (hcancel : s.core.handleCancel cmd = (core, result))
      (hresult : result ≠ .removed) :
      Turn cfg s { answered s cmd rest result with
        core := core, cancelsSinceProgress := s.cancelsSinceProgress + 1,
        pc := .cancelHead hadActive budget }
  | removed {hadActive budget cmd rest core} (hpc : s.pc = .cancelTake hadActive budget false)
      (hwait : waiting s = cmd :: rest) (hcancel : s.core.handleCancel cmd = (core, .removed)) :
      Turn cfg s (removal cfg s cmd rest core (.cancelHead hadActive budget))
  | publish {hadActive due tick} (hpc : s.pc = .ticker hadActive) (hdue : due = false) :
      Turn cfg s { s with tickerDue := due, tickerCh := tick, pc := .flush hadActive }
  | noPublish {hadActive} (hpc : s.pc = .ticker hadActive) (hdue : s.tickerDue = false) :
      Turn cfg s { s with pc := .slice hadActive }
  | published {hadActive} (hpc : s.pc = .flush hadActive) (hdirty : s.dirtySymbols = []) :
      Turn cfg s { s with pc := .slice hadActive }
  | beginSlice {hadActive} (hpc : s.pc = .slice hadActive) (hsweep : s.activeSweep.isSome = true)
      (hcap : hasSliceCapacity cfg s = true) :
      Turn cfg s { beginReservation { s with parked := false } (cfg.maxMatchesPerTurn + 1) with
        pc := .matching hadActive 0 }
  | noSlice {hadActive} (hpc : s.pc = .slice hadActive)
      (hno : s.activeSweep = none ∨ hasSliceCapacity cfg s = false) :
      Turn cfg s { s with pc := .stopCheck hadActive }
  | trade {hadActive trades sweep k book order fill} (hpc : s.pc = .matching hadActive trades)
      (hsweep : s.activeSweep = some sweep) (hkind : kindOf sweep.order = some k)
      (hact : k.active sweep.order = true) (hbudget : ¬ cfg.maxMatchesPerTurn ≤ trades)
      (hround : k.round (s.core.book sweep.book) sweep.order = .trade book order fill) :
      Turn cfg s (traded cfg s sweep book order fill (.matching hadActive (trades + 1)))
  | matched {hadActive trades done} (hpc : s.pc = .matching hadActive trades)
      (hdone : done = true → ∃ sweep, s.activeSweep = some sweep ∧ Halted s sweep) :
      Turn cfg s { s with pc := .sliced hadActive trades done }
  | panicked {hadActive trades sweep k} (hpc : s.pc = .matching hadActive trades)
      (hsweep : s.activeSweep = some sweep) (hkind : kindOf sweep.order = some k)
      (hround : k.round (s.core.book sweep.book) sweep.order = .panic) :
      Turn cfg s { s with pc := .crashed .divisionByZero }
  | yielded {hadActive trades sweep dirty} (hpc : s.pc = .sliced hadActive trades false)
      (hsweep : s.activeSweep = some sweep)
      (hdirty : dirty = (sliceDirty s sweep.order.coinSymbol trades).dirtySymbols) :
      Turn cfg s (sliceClosed { s with dirtySymbols := dirty }
        (some { sweep with trades := sweep.trades + trades }) hadActive)
  | marketDone {hadActive trades sweep dirty em} (hpc : s.pc = .sliced hadActive trades true)
      (hsweep : s.activeSweep = some sweep)
      (hdirty : dirty = (sliceDirty s sweep.order.coinSymbol trades).dirtySymbols)
      (hmarket : sweep.order.orderType = .market)
      (hevent : em.event = .marketOrderDone (marketOrderDone sweep.order)) (hbacked : em.Backed) :
      Turn cfg s (sliceClosed { s with
        dirtySymbols := dirty, executionCh := s.executionCh ++ [em.event],
        emitted := s.emitted ++ [em] } none hadActive)
  | rested {hadActive trades sweep dirty} (hpc : s.pc = .sliced hadActive trades true)
      (hsweep : s.activeSweep = some sweep)
      (hdirty : dirty =
        (markDirty (sliceDirty s sweep.order.coinSymbol trades)
          sweep.order.coinSymbol).dirtySymbols)
      (hlimit : sweep.order.orderType ≠ .market) (hamount : 0 < sweep.order.amount) :
      Turn cfg s (sliceClosed { restOrder s sweep with dirtySymbols := dirty } none hadActive)
  | filled {hadActive trades sweep dirty} (hpc : s.pc = .sliced hadActive trades true)
      (hsweep : s.activeSweep = some sweep)
      (hdirty : dirty = (sliceDirty s sweep.order.coinSymbol trades).dirtySymbols)
      (hlimit : sweep.order.orderType ≠ .market) (hamount : ¬ 0 < sweep.order.amount) :
      Turn cfg s (sliceClosed { s with dirtySymbols := dirty } none hadActive)
  | stopParks {down} (hpc : s.pc = .stopCheck true)
      (hstop : down = (s.shuttingDown || s.stopClosed)) :
      Turn cfg s { s with shuttingDown := down, pc := .parkCheck }
  | stopAdmits {down} (hpc : s.pc = .stopCheck false)
      (hstop : down = (s.shuttingDown || s.stopClosed)) :
      Turn cfg s { s with shuttingDown := down, pc := .admission }
  | admitted {o rest} (hpc : s.pc = .admission) (hnext : intake s = o :: rest)
      (hadm : orderIsAdmissible o = true) :
      Turn cfg s { s with
        pendingOrder := none, orderCh := rest, admitted := s.admitted ++ [o]
        core := (s.core.getOrderBook o.coinSymbol).1
        activeSweep := some ⟨o, (s.core.getOrderBook o.coinSymbol).2, 0⟩
        cancelsSinceProgress := 0, pc := .parkCheck }
  | skipped {o rest} (hpc : s.pc = .admission) (hnext : intake s = o :: rest)
      (hadm : orderIsAdmissible o = false) :
      Turn cfg s { s with
        pendingOrder := none, orderCh := rest, admitted := s.admitted ++ [o],
        cancelsSinceProgress := 0, pc := .parkCheck }
  | noOrder (hpc : s.pc = .admission) (hnone : s.pendingOrder = none) :
      Turn cfg s { s with cancelsSinceProgress := 0, pc := .parkCheck }
  | park (hpc : s.pc = .parkCheck) (hblocked : sliceBlockedNow cfg s = true)
      (hcancel : s.pendingCancel = none) : Turn cfg s { s with parked := true, pc := .parkSelect }
  | again (hpc : s.pc = .parkCheck)
      (hwork : s.activeSweep.isSome = true ∨ s.pendingCancel.isSome = true ∨
        s.pendingOrder.isSome = true ∨ s.tickerDue = true) :
      Turn cfg s { s with pc := .start }
  | leave (hpc : s.pc = .parkCheck) (hsweep : s.activeSweep = none)
      (hcancel : s.pendingCancel = none)
      (horder : s.pendingOrder = none) (hdown : s.shuttingDown = true) :
      Turn cfg s { s with pc := .drain }
  | rest {orders} (hpc : s.pc = .parkCheck) (hsweep : s.activeSweep = none)
      (hcancel : s.pendingCancel = none)
      (horder : s.pendingOrder = none) (hdown : s.shuttingDown = false) :
      Turn cfg s { s with pc := .select orders }
  | drainCancel {cmd rest} (hpc : s.pc = .drain) (hch : s.cancelCh = cmd :: rest) :
      Turn cfg s { s with cancelCh := rest, pendingCancel := some cmd, pc := .start }
  | drainOrder {o rest} (hpc : s.pc = .drain) (hcancels : s.cancelCh = [])
      (hch : s.orderCh = o :: rest) :
      Turn cfg s { s with orderCh := rest, pendingOrder := some o, pc := .start }
  | drained (hpc : s.pc = .drain) (hcancels : s.cancelCh = []) (horders : s.orderCh = []) :
      Turn cfg s { s with pc := .lastFlush }
  | close (hpc : s.pc = .lastFlush) (hdirty : s.dirtySymbols = []) :
      Turn cfg s { s with outputsClosed := true, pc := .returned }

/-! ## Every step is one of them -/

variable {hadActive : Bool} {trades budget : Nat}

/-- A command is taken from the front of what waits, the latch first. -/
theorem takeCancel_eq (s : State) : takeCancel s = (waiting s).head?.map fun cmd =>
    (cmd, { s with pendingCancel := none, cancelCh := (waiting s).tail }) := by
  unfold takeCancel waiting
  cases s.pendingCancel with
  | some cmd => rfl
  | none => cases s.cancelCh <;> rfl

theorem turn_cancelHead (hi : ReserveInv cfg s)
    (hpc : s.pc = .cancelHead hadActive budget) :
    Turn cfg s (cancelHead cfg s hadActive budget) := by
  have hroom : 0 ≤ free cfg s := by
    have := hi.room
    simp only [free]
    omega
  unfold cancelHead
  simp only [Bool.and_eq_true, decide_eq_true_eq, Bool.not_eq_true', decide_eq_false_iff_not]
  split
  · rename_i h
    exact .accept hpc h.1 h.2
  · rename_i hnot
    split <;> rename_i hreject
    · split <;> rename_i hzero
      · subst hzero
        exact .spent hpc hreject
      · exact .reject hpc hreject hzero
    · have hfree : 1 ≤ free cfg s := by
        have : free cfg s ≠ 0 := fun h => hreject (.inl h)
        omega
      have hquota : ¬ quotaLeft cfg s := fun h => hnot ⟨h, hfree⟩
      refine .held hpc hquota hfree ?_
      cases hblocked : sliceBlockedNow cfg s with
      | false => rfl
      | true => exact absurd (.inr ⟨hblocked, hquota⟩) hreject

theorem turn_cancelTake {reject : Bool} (hi : ReserveInv cfg s)
    (hpc : s.pc = .cancelTake hadActive budget reject) :
    ∃ s', cancelTake cfg s hadActive budget reject = some s' ∧ Turn cfg s s' := by
  unfold cancelTake
  rw [takeCancel_eq]
  cases hwait : waiting s with
  | nil => exact ⟨_, rfl, .noCancel hpc hwait⟩
  | cons cmd rest =>
    cases reject with
    | true => exact ⟨_, rfl, .rejected hpc hwait⟩
    | false =>
      simp only [List.head?_cons, List.tail_cons, Option.map_some, processCancel, finishCancel,
        Bool.false_eq_true, if_false]
      cases hres : s.core.handleCancel cmd with
      | mk core result =>
        cases result with
        | removed =>
          simp only
          rw [sendExecution_reserved rfl one_pos (hi.free_of_cancelTake hpc)]
          exact ⟨_, rfl, .removed hpc hwait hres⟩
        | invalidCommand | notFound | backpressured =>
          exact ⟨_, rfl, .refused hpc hwait hres (by simp)⟩

theorem turn_tickerPhase (hpc : s.pc = .ticker hadActive) :
    Turn cfg s (tickerPhase s hadActive) := by
  unfold tickerPhase
  split
  · exact .publish hpc rfl
  · rename_i hdue
    have hdue : s.tickerDue = false := by simpa using hdue
    split
    · exact .publish hpc hdue
    · exact .noPublish hpc hdue

theorem turn_slicePhase (hpc : s.pc = .slice hadActive) :
    Turn cfg s (slicePhase cfg s hadActive) := by
  unfold slicePhase
  split <;> rename_i h
  · rw [Bool.and_eq_true] at h
    exact .beginSlice hpc h.1 h.2
  · refine .noSlice hpc ?_
    cases hsweep : s.activeSweep with
    | none => exact .inl rfl
    | some sweep => simpa [hsweep] using h

theorem turn_matchingStep (hi : ReserveInv cfg s)
    (hpc : s.pc = .matching hadActive trades) :
    ∃ s', matchingStep cfg s hadActive trades = some s' ∧ Turn cfg s s' := by
  obtain ⟨hsome, hact, hrem, hle, hfree⟩ := hi.of_matching hpc
  obtain ⟨sweep, hsweep⟩ := Option.isSome_iff_exists.mp hsome
  have hhalt : Halted s sweep → Turn cfg s { s with pc := .sliced hadActive trades true } :=
    fun h => .matched hpc fun _ => ⟨sweep, hsweep, h⟩
  unfold matchingStep
  rw [hsweep] at hhalt ⊢
  simp only
  split
  · rename_i hkind
    exact ⟨_, rfl, hhalt fun k hk => by rw [hkind] at hk; cases hk⟩
  · rename_i k hkind
    split <;> rename_i hactive
    · split
      · rw [← hsweep]
        exact ⟨_, rfl, .matched hpc nofun⟩
      · rename_i hbudget
        have hm := cfg.one_le.1
        split
        · rename_i hround
          exact ⟨_, rfl, hhalt fun k' hk' => by cases hkind.symm.trans hk'; exact .inr hround⟩
        · rename_i hround
          rw [← hsweep]
          exact ⟨_, rfl, .panicked hpc hsweep hkind hround⟩
        · rename_i book order fill hround
          have hpos : 0 < s.reservationRemaining := by omega
          simp only [emitTrade]
          rw [sendExecution_reserved (by exact hact) (by exact hpos) (by exact hfree)]
          exact ⟨_, rfl, .trade hpc hsweep hkind hactive (by omega) hround⟩
    · refine ⟨_, rfl, hhalt fun k' hk' => ?_⟩
      cases hkind.symm.trans hk'
      exact .inl (by simpa using hactive)

theorem turn_slicedStep {done : Bool} (hi : ReserveInv cfg s)
    (hpc : s.pc = .sliced hadActive trades done) :
    ∃ s', slicedStep cfg s hadActive trades done = some s' ∧ Turn cfg s s' := by
  obtain ⟨hsome, hact, hrem, hle, hfree⟩ := hi.of_sliced hpc
  obtain ⟨sweep, hsweep⟩ := Option.isSome_iff_exists.mp hsome
  have hpos : 0 < s.reservationRemaining := by omega
  unfold slicedStep
  rw [hsweep]
  simp only
  rw [sliceDirty_eq]
  cases done with
  | false => exact ⟨_, rfl, .yielded hpc hsweep rfl⟩
  | true =>
    simp only [if_true]
    split <;> rename_i hmarket
    · rw [sendExecution_reserved (by exact hact) (by exact hpos) (by exact hfree)]
      have hbacked : Emission.Backed ⟨.marketOrderDone (marketOrderDone sweep.order), _, _,
          free cfg s⟩ :=
        ⟨hact, hpos, hpos.trans_le hfree⟩
      exact ⟨_, rfl, .marketDone hpc hsweep rfl hmarket rfl hbacked⟩
    · split <;> rename_i hamount
      · exact ⟨_, rfl, .rested hpc hsweep rfl hmarket hamount⟩
      · exact ⟨_, rfl, .filled hpc hsweep rfl hmarket hamount⟩

theorem turn_stopCheck (hpc : s.pc = .stopCheck hadActive) :
    Turn cfg s (stopCheck s hadActive) := by
  have hstop : stopCheck s hadActive = { s with
      shuttingDown := s.shuttingDown || s.stopClosed, pc := if hadActive then .parkCheck
        else .admission } := by
    cases h : s.stopClosed <;> simp [stopCheck, latchStop, h]
  rw [hstop]
  cases hadActive with
  | true => exact .stopParks hpc rfl
  | false => exact .stopAdmits hpc rfl

theorem turn_admitOrder {o : Order} {rest : List Order} (hpc : s.pc = .admission)
    (hnext : intake s = o :: rest) :
    Turn cfg s { admitOrder { s with pendingOrder := none, orderCh := rest } o with
      cancelsSinceProgress := 0, pc := .parkCheck } := by
  unfold admitOrder
  simp only
  split <;> rename_i hadm
  · exact .admitted hpc hnext hadm
  · exact .skipped hpc hnext (by simpa using hadm)

theorem turn_admitPhase (hpc : s.pc = .admission) : Turn cfg s (admitPhase cfg s) := by
  unfold admitPhase
  split
  · rename_i o ho
    exact turn_admitOrder hpc (by simp [intake, ho])
  · rename_i hnone
    split
    · exact .noOrder hpc hnone
    · split
      · rename_i o rest hch
        have h : Turn cfg s _ :=
          turn_admitOrder hpc (show intake s = o :: rest by simp [intake, hnone, hch])
        rwa [← hnone] at h
      · exact .noOrder hpc hnone

theorem turn_parkCheck (hpc : s.pc = .parkCheck) : Turn cfg s (parkCheck cfg s) := by
  unfold parkCheck
  split
  · rename_i h
    rw [Bool.and_eq_true, Option.isNone_iff_eq_none] at h
    exact .park hpc h.1 h.2
  · split <;> rename_i h
    · simp only [Bool.or_eq_true, or_assoc] at h
      exact .again hpc h
    · simp only [Bool.or_eq_true, not_or, Bool.not_eq_true, Option.isSome_eq_false_iff,
        Option.isNone_iff_eq_none] at h
      obtain ⟨⟨⟨hsweep, hcancel⟩, horder⟩, -⟩ := h
      split <;> rename_i hdown
      · exact .leave hpc hsweep hcancel horder hdown
      · exact .rest hpc hsweep hcancel horder (by simpa using hdown)

theorem turn_drainStep (hpc : s.pc = .drain) : Turn cfg s (drainStep s) := by
  unfold drainStep
  split
  · rename_i hch
    exact .drainCancel hpc hch
  · rename_i hcancels hch
    exact .drainOrder hpc hcancels hch
  · rename_i hcancels horders
    exact .drained hpc hcancels horders

theorem turn_of_advance (hi : ReserveInv cfg s) (h : advance cfg s = some s') : Turn cfg s s' := by
  have hturn : ∀ {next : Option State}, next = some s' → (∃ t, next = some t ∧ Turn cfg s t) →
      Turn cfg s s' := by
    rintro next hnext ⟨t, ht, hturn⟩
    cases hnext.symm.trans ht
    exact hturn
  unfold advance at h
  split at h
  · rename_i hpc
    cases h
    have hlen : (waiting s).length = s.cancelCh.length + if s.pendingCancel.isSome then 1
        else 0 := by
      cases hp : s.pendingCancel <;> simp [waiting, hp]
    rw [← hlen]
    exact .start hpc
  · rename_i hpc
    cases h
    exact turn_cancelHead hi hpc
  · rename_i hpc
    exact hturn h (turn_cancelTake hi hpc)
  · rename_i hpc
    cases h
    exact turn_tickerPhase hpc
  · rename_i hpc
    obtain ⟨hdirty, rfl⟩ := Lts.of_enabled h
    exact .published hpc hdirty
  · rename_i hpc
    cases h
    exact turn_slicePhase hpc
  · rename_i hpc
    exact hturn h (turn_matchingStep hi hpc)
  · rename_i hpc
    exact hturn h (turn_slicedStep hi hpc)
  · rename_i hpc
    cases h
    exact turn_stopCheck hpc
  · rename_i hpc
    cases h
    exact turn_admitPhase hpc
  · rename_i hpc
    cases h
    exact turn_parkCheck hpc
  · rename_i hpc
    cases h
    exact turn_drainStep hpc
  · rename_i hpc
    obtain ⟨hdirty, rfl⟩ := Lts.of_enabled h
    exact .close hpc hdirty
  all_goals cases h

/-- A goroutine that has returned takes no turn. -/
theorem Turn.pc_ne_returned (ht : Turn cfg s s') : s.pc ≠ .returned := by
  intro he
  cases ht <;> simp_all

/-! ## The surroundings -/

/-- The engine waits in one of its two blocking selects. -/
def Pc.Waits : Pc → Prop
  | .select _ | .parkSelect => True
  | _ => False

/-- The engine cannot be waiting once it is on its way out. -/
theorem Pc.Waits.not_leaving {pc : Pc} (h : pc.Waits) : pc ≠ .returned := by
  rintro rfl
  exact h

/-- A step of the engine, a case of a select, or a step of the surroundings. -/
inductive Stepped (cfg : EngineConfig) (s : State) : Label → State → Prop
  | turn {s' : State} (h : Turn cfg s s') : Stepped cfg s .advance s'
  | flush (symbol : String) (hpc : (∃ hadActive, s.pc = .flush hadActive) ∨ s.pc = .lastFlush)
      (hdirty : symbol ∈ s.dirtySymbols) : Stepped cfg s (.flush symbol) (flushSymbol s symbol)
  | recvCancel {cmd rest} (hpc : s.pc.Waits) (hch : s.cancelCh = cmd :: rest) :
      Stepped cfg s .recvCancel { s with cancelCh := rest, pendingCancel := some cmd, pc := .start }
  | recvOrder {o rest} (hpc : s.pc = .select true) (hch : s.orderCh = o :: rest) :
      Stepped cfg s .recvOrder { s with orderCh := rest, pendingOrder := some o, pc := .start }
  | recvTick (hpc : s.pc.Waits) :
      Stepped cfg s .recvTick { s with tickerCh := false, tickerDue := true, pc := .start }
  | recvStop (hpc : s.pc.Waits) (hstop : s.stopClosed = true) :
      Stepped cfg s .recvStop { s with shuttingDown := true, pc := .start }
  | recvCapacity (hpc : s.pc = .parkSelect) (hcap : s.capacityCh = true) :
      Stepped cfg s .recvCapacity { s with capacityCh := false, pc := .start }
  | submitOrder (o : Order) :
      Stepped cfg s (.submitOrder o) { s with
        orderCh := s.orderCh ++ [o], submitted := s.submitted ++ [o] }
  | sendCancel (cmd : CancelOrderCommand) :
      Stepped cfg s (.sendCancel cmd) { s with cancelCh := s.cancelCh ++ [cmd] }
  | consume {e rest} (hch : s.executionCh = e :: rest) :
      Stepped cfg s .consume { s with executionCh := rest }
  | consumeSnapshot {x rest} (hch : s.snapshotCh = x :: rest) :
      Stepped cfg s .consumeSnapshot { s with snapshotCh := rest }
  | tick : Stepped cfg s .tick { s with tickerCh := true }
  | stop : Stepped cfg s .stop { s with stopClosed := true }
  | wake : Stepped cfg s .wake { s with capacityCh := true }

theorem stepped_of_step (hi : ReserveInv cfg s) (h : step cfg l s = some s') :
    Stepped cfg s l s' := by
  have hcancel : ∀ {t : State}, s.pc.Waits → Engine.recvCancel s = some t →
      Stepped cfg s .recvCancel t := by
    intro t hpc h
    unfold Engine.recvCancel at h
    split at h
    · rename_i hch
      cases h
      exact .recvCancel hpc hch
    · cases h
  have htick : ∀ {t : State}, s.pc.Waits → Engine.recvTick s = some t →
      Stepped cfg s .recvTick t := by
    intro t hpc h
    obtain ⟨-, rfl⟩ := Lts.of_enabled h
    exact .recvTick hpc
  have hstop : ∀ {t : State}, s.pc.Waits → Engine.recvStop s = some t →
      Stepped cfg s .recvStop t := by
    intro t hpc h
    obtain ⟨hstop, rfl⟩ := Lts.of_enabled h
    exact .recvStop hpc (Bool.and_eq_true_iff.mp hstop).1
  cases l with
  | advance => exact .turn (turn_of_advance hi h)
  | flush symbol =>
    simp only [step] at h
    split at h
    · rename_i hadActive hpc
      obtain ⟨hdirty, rfl⟩ := Lts.of_enabled h
      exact .flush symbol (.inl ⟨hadActive, hpc⟩) hdirty
    · rename_i hpc
      obtain ⟨hdirty, rfl⟩ := Lts.of_enabled h
      exact .flush symbol (.inr hpc) hdirty
    · cases h
  | recvCancel =>
    simp only [step] at h
    split at h
    · rename_i hpc
      exact hcancel (by rw [hpc]; trivial) h
    · rename_i hpc
      exact hcancel (by rw [hpc]; trivial) h
    · cases h
  | recvOrder =>
    simp only [step] at h
    split at h
    · rename_i hpc hch
      cases h
      exact .recvOrder hpc hch
    · cases h
  | recvTick =>
    simp only [step] at h
    split at h
    · rename_i hpc
      exact htick (by rw [hpc]; trivial) h
    · rename_i hpc
      exact htick (by rw [hpc]; trivial) h
    · cases h
  | recvStop =>
    simp only [step] at h
    split at h
    · rename_i hpc
      exact hstop (by rw [hpc]; trivial) h
    · rename_i hpc
      exact hstop (by rw [hpc]; trivial) h
    · cases h
  | recvCapacity =>
    simp only [step] at h
    split at h
    · rename_i hpc
      obtain ⟨hcap, rfl⟩ := Lts.of_enabled h
      exact .recvCapacity hpc hcap
    · cases h
  | submitOrder o =>
    obtain ⟨-, rfl⟩ := Lts.of_enabled h
    exact .submitOrder o
  | sendCancel cmd =>
    obtain ⟨-, rfl⟩ := Lts.of_enabled h
    exact .sendCancel cmd
  | consume =>
    simp only [step] at h
    split at h
    · rename_i hch
      cases h
      exact .consume hch
    · cases h
  | consumeSnapshot =>
    simp only [step] at h
    split at h
    · rename_i hch
      cases h
      exact .consumeSnapshot hch
    · cases h
  | tick => cases h; exact .tick
  | stop => cases h; exact .stop
  | wake => cases h; exact .wake

end GoExchange.Engine
