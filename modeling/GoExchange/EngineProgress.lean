import GoExchange.EngineCancels
import GoExchange.OrderRequest

/-!
# The engine does not get stuck

Orders come from requests that `CreateOrder` has accepted, so no round divides
by zero. An engine that cannot move has returned or waits in one of its two
selects, and where it waits for work there is none left.
-/
namespace GoExchange.Engine

open Matching Service

variable {cfg : EngineConfig} {engineID : Nat} {p : Served}

/-- An order is sent for a request that was accepted, at once or at a boot, with the type and the
price of its row. -/
def FromRequests (_ : Served) : Label → Prop
  | .submitOrder o => ∃ input row, parseOrderRequest input = .ok row ∧ o.orderType = row.orderType ∧
      o.price = row.price
  | _ => True

/-- No step of the engine's goroutine is enabled. -/
def Blocked (cfg : EngineConfig) (s : State) : Prop :=
  ∀ l, l.own ∨ l ∈ [.recvCancel, .recvOrder, .recvTick, .recvStop, .recvCapacity] →
    step cfg l s = none

theorem reach_priced (h : Lts.Reach (servedStep cfg) FromRequests (Served.init engineID) p) :
    Priced p.engine := by
  refine h.invariant (fun p => Priced p.engine) (by simp [Priced, Served.init, init])
    fun p l p' hr hi hok hs => ?_
  obtain ⟨s', hstep, rfl⟩ := Option.map_eq_some_iff.mp hs
  have hre := reach_engine_of_served (hr.mono fun _ _ _ => trivial)
  rcases (move_of_step (reach_reserve hre) hstep).lined with ⟨hsub, -⟩ | ⟨o, rfl, hsub, -⟩
  · exact fun o ho => hi o (hsub ▸ ho)
  · obtain ⟨input, row, hrow, htype, hprice⟩ := hok
    intro x hx
    rw [hsub] at hx
    refine Rows.forall_mem_concat hi (fun hlimit => ?_) x hx
    rcases (parseOrderRequest_newRow hrow).amounts with ⟨-, hpos, -⟩ | ⟨ht, -⟩ | ⟨ht, -⟩
    · exact hprice ▸ hpos
    · exact absurd (htype.trans ht) hlimit
    · exact absurd (htype.trans ht) hlimit

theorem Blocked.waits {s : State} (h : Blocked cfg s) (hi : ReserveInv cfg s)
    (hpanic : ∀ panic, s.pc ≠ .crashed panic) :
    s.pc = .returned ∨ s.pc = .parkSelect ∨ ∃ orders, s.pc = .select orders := by
  have hadvance := h .advance (.inl rfl)
  cases hpc : s.pc with
  | parkSelect | select | returned => simp
  | crashed panic => exact absurd hpc (hpanic panic)
  | cancelTake =>
    obtain ⟨t, ht, -⟩ := turn_cancelTake hi hpc
    simp [step, advance, hpc, ht] at hadvance
  | matching =>
    obtain ⟨t, ht, -⟩ := turn_matchingStep hi hpc
    simp [step, advance, hpc, ht] at hadvance
  | sliced =>
    obtain ⟨t, ht, -⟩ := turn_slicedStep hi hpc
    simp [step, advance, hpc, ht] at hadvance
  | flush | lastFlush =>
    cases hdirty : s.dirtySymbols with
    | nil => simp [step, advance, hpc, hdirty] at hadvance
    | cons symbol rest => simpa [step, hpc, hdirty] using h (.flush symbol) (.inl rfl)
  | _ => simp [step, advance, hpc] at hadvance

/-- Whatever requests, cancels, ticks and receives come in, the engine does not panic, and it cannot
move only if it has returned or waits with every cancel answered. It waits parked for room, or
without a sweep, and then, unless it holds orders back for backpressure, every order sent has been
admitted. -/
theorem engine_never_stuck (cfg : EngineConfig) (engineID : Nat) {p : Served}
    (h : Lts.Reach (servedStep cfg) FromRequests (Served.init engineID) p) :
    (∀ panic, p.engine.pc ≠ .crashed panic) ∧ (Blocked cfg p.engine → p.engine.pc = .returned ∨
      p.sent = p.engine.answers.map Prod.fst ∧
      (p.engine.pc = .parkSelect ∧ p.engine.capacityCh = false ∨
        ∃ orders, p.engine.pc = .select orders ∧ p.engine.activeSweep = none ∧
          p.engine.submitted = p.engine.admitted ++ p.engine.orderCh ∧
          (orders = true → p.engine.orderCh = []))) := by
  have hfree : Lts.Reach (servedStep cfg) Lts.free (Served.init engineID) p :=
    h.mono fun _ _ _ => trivial
  have hre := reach_engine_of_served hfree
  obtain ⟨horders, hcancels⟩ := reach_queues hfree
  have hlatch := reach_latches hre
  have hpanic := not_crashed hre (reach_priced h)
  refine ⟨hpanic, fun hb => ?_⟩
  have hanswered : (p.engine.pc = .parkSelect ∨ ∃ orders, p.engine.pc = .select orders) →
      p.engine.pendingCancel = none → p.sent = p.engine.answers.map Prod.fst := by
    intro hpc hnone
    have hrecv := hb .recvCancel (by simp)
    cases hch : p.engine.cancelCh with
    | nil => simp [hcancels, waiting, hnone, hch]
    | cons => rcases hpc with hpc | ⟨_, hpc⟩ <;> simp [step, hpc, recvCancel, hch] at hrecv
  rcases hb.waits (reach_reserve hre) hpanic with hpc | hpc | ⟨orders, hpc⟩
  · exact .inl hpc
  · have hfull : p.engine.capacityCh = false := by simpa [step, hpc] using hb .recvCapacity
    exact .inr ⟨hanswered (.inl hpc) (hlatch.parked hpc), .inl ⟨hpc, hfull⟩⟩
  · obtain ⟨hcancel, horder⟩ := hlatch.clear (by rw [hpc]; rfl)
    have hsweep := (reach_books hre).slot (by rw [hpc]; rfl)
    refine .inr ⟨hanswered (.inr ⟨orders, hpc⟩) hcancel, .inr ⟨orders, hpc, hsweep, ?_, ?_⟩⟩
    · simp [horders, intake, horder]
    · rintro rfl
      cases hch : p.engine.orderCh with
      | nil => rfl
      | cons => simpa [step, hpc, hch] using hb .recvOrder

/-- Nothing waits in the channels of the engine's two selects. -/
def Quiet (s : State) : Prop :=
  s.cancelCh = [] ∧ s.orderCh = [] ∧ s.tickerCh = false ∧ s.stopClosed = false ∧
    s.capacityCh = false

instance (s : State) : Decidable (Quiet s) := inferInstanceAs (Decidable (_ ∧ _))

theorem Quiet.blocked {s : State} (h : Quiet s) (hpc : s.pc = .parkSelect ∨ s.pc = .select true) :
    Blocked cfg s := by
  obtain ⟨hcancels, horders, htick, hstop, hcap⟩ := h
  intro l hl
  cases l with
  | submitOrder | sendCancel | consume | consumeSnapshot | tick | stop | wake =>
    simp [Label.own] at hl
  | _ => rcases hpc with hpc | hpc <;>
      simp [step, advance, recvCancel, recvTick, recvStop, hpc, hcancels, horders, htick,
        hstop, hcap]

/-- An order comes to rest and is cancelled, and the engine waits for the next one. -/
def waitingRun : List Label :=
  .submitOrder ⟨1, 7, 2, 0, "BTC", .sell, 0, 0, .limit, 100⟩ :: List.replicate 17 .advance ++
    [.sendCancel ⟨1, "BTC", 1, .sell, 100⟩, .recvCancel] ++ List.replicate 9 .advance

/-- The event of that cancel leaves no room for a slice of the next order. The engine parks, wakes
for a cancel of the order it sweeps, which is not on the book yet, and parks again. -/
def parkedRun : List Label :=
  waitingRun ++ [.submitOrder ⟨2, 7, 2, 0, "BTC", .sell, 0, 0, .limit, 100⟩, .recvOrder] ++
    List.replicate 8 .advance ++ [.sendCancel ⟨2, "BTC", 2, .sell, 100⟩, .recvCancel] ++
    List.replicate 9 .advance

theorem parkedRun_fromRequests : ∀ l ∈ parkedRun, ∀ p, FromRequests p l := by
  intro l hl p
  cases l with
  | submitOrder =>
    simp only [parkedRun, waitingRun, List.mem_append, List.mem_cons, List.mem_replicate,
      List.not_mem_nil, Label.submitOrder.injEq, reduceCtorEq, and_false, or_false] at hl
    rcases hl with rfl | rfl <;> exact ⟨⟨7, "BTC", .sell, .limit, some 100, some 2, none⟩, _,
      rfl, rfl, rfl⟩
  | _ => trivial

/-- At the end of both runs no step of the engine is enabled, and what it was sent has been dealt
with. -/
theorem engine_never_stuck_waits :
    (∃ p, Lts.exec (servedStep smallestConfig) waitingRun (Served.init 1) = some p ∧
      Blocked smallestConfig p.engine ∧ p.sent = p.engine.answers.map Prod.fst ∧
      p.engine.submitted = p.engine.admitted) ∧
    ∃ p, Lts.exec (servedStep smallestConfig) parkedRun (Served.init 1) = some p ∧
      Blocked smallestConfig p.engine ∧ p.engine.answers.map Prod.snd = [.removed, .notFound] ∧
      p.sent = p.engine.answers.map Prod.fst := by
  constructor
  · have hrun : (Lts.exec (servedStep smallestConfig) waitingRun (Served.init 1)).map
        (fun p => (p.engine.pc, decide (Quiet p.engine))) = some (.select true, true) := by
      decide +kernel
    obtain ⟨p, hp, hend⟩ := Option.map_eq_some_iff.mp hrun
    simp only [Prod.mk.injEq, decide_eq_true_eq] at hend
    obtain ⟨hpc, hquiet⟩ := hend
    have hblocked : Blocked smallestConfig p.engine := hquiet.blocked (.inr hpc)
    have hreach :=
      Lts.reach_of_exec_all _ (fun l hl => parkedRun_fromRequests l (by simp [parkedRun, hl])) hp
    have hwaits := (engine_never_stuck smallestConfig 1 hreach).2 hblocked
    simp only [hpc, reduceCtorEq, false_or, false_and, Pc.select.injEq, exists_eq_left'] at hwaits
    obtain ⟨hanswered, -, hadmitted, hempty⟩ := hwaits
    exact ⟨p, hp, hblocked, hanswered, by rw [hadmitted, hempty trivial, List.append_nil]⟩
  · have hrun : (Lts.exec (servedStep smallestConfig) parkedRun (Served.init 1)).map
        (fun p => (p.engine.pc, decide (Quiet p.engine), p.engine.answers.map Prod.snd)) =
          some (.parkSelect, true, [.removed, .notFound]) := by decide +kernel
    obtain ⟨p, hp, hend⟩ := Option.map_eq_some_iff.mp hrun
    simp only [Prod.mk.injEq, decide_eq_true_eq] at hend
    obtain ⟨hpc, hquiet, hanswers⟩ := hend
    have hblocked : Blocked smallestConfig p.engine := hquiet.blocked (.inl hpc)
    have hreach := Lts.reach_of_exec_all _ parkedRun_fromRequests hp
    have hwaits := (engine_never_stuck smallestConfig 1 hreach).2 hblocked
    simp only [hpc, reduceCtorEq, false_or] at hwaits
    exact ⟨p, hp, hblocked, hanswers, hwaits.1⟩

end GoExchange.Engine
