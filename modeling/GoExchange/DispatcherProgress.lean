import GoExchange.DispatcherPool

/-!
# Can the dispatcher get stuck?

A state is stuck if the dispatcher has not returned and neither it, nor a
worker, nor the producer can move. `takeReadyTerminal` returns nothing after it
drops a quarantined terminal, although other terminals may still be waiting; if
the queue is closed and nothing is in flight then, the select has no case left.
-/
namespace GoExchange.Dispatcher

variable {cfg : Config} {s t : State} {a : Label}

/-- Events the dispatcher has not read yet. -/
def State.unread (s : State) : List OutboxEvent := s.queue ++ s.source

/-- The step does not drop a quarantined terminal with nothing in flight, nothing left to be
read and other terminals still waiting. -/
def NoStrandingDrop (s : State) (a : Label) : Prop :=
  a = .advance → s.position = .terminals → s.readyJob = none → s.dep.outstanding = 0 →
    s.carry = none → s.unread = [] →
    ∀ w, s.waiting.find? s.isReady = some w → w.orderID ∈ s.dep.unsafeOrders → s.waiting.length = 1

/-- Nobody who could help the dispatcher on can move: neither the dispatcher nor a
worker, nor the producer. -/
def Stuck (cfg : Config) (s : State) : Prop :=
  s.position ≠ .returned ∧ ∀ a, a ≠ .foreign → step cfg a s = none

/-- The dispatcher is blocked in its select with no ready job, no outstanding job and a
closed queue. -/
def BlockedForever (s : State) : Prop :=
  s.position = .select ∧ s.readyJob = none ∧ s.dep.outstanding = 0 ∧ s.queueOpen = false

/-- When nothing is in flight, nothing is left behind that only a completion could wake. -/
structure DrainInv (s : State) : Prop where
  fetch : s.position = .fetch → s.readyJob = none → s.dep.outstanding = 0 → s.carry = none →
    s.unread = [] → s.waiting = []
  exit : s.position = .exit → s.readyJob = none → s.dep.outstanding = 0 →
    s.carry = none ∧ (s.queueOpen = false → s.waiting = [])
  select : s.position = .select → s.readyJob = none → s.dep.outstanding = 0 →
    s.carry = none ∧ s.queueOpen = true

theorem init_drain (feed : Feed) : DrainInv (init feed) := by
  constructor <;> simp [init]

/-- A step of the pool leaves the dispatcher's own state alone. -/
theorem DrainInv.frame (h : DrainInv s) (hp : t.position = s.position)
    (hr : t.readyJob = s.readyJob)
    (hd : t.dep = s.dep) (hc : t.carry = s.carry) (hw : t.waiting = s.waiting)
    (ho : t.queueOpen = s.queueOpen) (hu : t.unread = s.unread) : DrainInv t where
  fetch := by simpa [hp, hr, hd, hc, hw, hu] using h.fetch
  exit := by simpa [hp, hr, hd, hc, hw, ho] using h.exit
  select := by simpa [hp, hr, hd, hc, ho] using h.select

/-- Without batches in flight every terminal is ready, so none is found only if none waits. -/
theorem waiting_nil_of_find? (h : PoolInv cfg s) (h₀ : s.dep.outstanding = 0)
    (hw : s.waiting.find? s.isReady = none) : s.waiting = [] := by
  cases hs : s.waiting with
  | nil => rfl
  | cons w rest =>
    have hready : s.isReady w = true := h.consistent.ready_of_outstanding_zero h₀ w.orderID
    simp [hs, hready] at hw

theorem idle_of_outstanding_zero (hr : s.readyJob = none) (h₀ : s.dep.outstanding = 0) :
    s.Idle cfg := by
  have := cfg.concurrency_pos
  exact ⟨hr, by simp only [h₀, Config.maxOutstanding]; omega⟩

theorem DrainInv.move (h : DrainInv s) (hpool : PoolInv cfg s) (hin : InputInv s)
    (hdrop : NoStrandingDrop s a) (hm : Step cfg s a t) : DrainInv t := by
  cases hm with
  | noTerminal hp hfind =>
    refine ⟨fun _ hr h₀ _ _ => ?_, by simp, by simp⟩
    have hfind := hfind (idle_of_outstanding_zero hr h₀)
    exact waiting_nil_of_find? (s := s) hpool h₀ hfind
  | dropTerminal hp hi hw hq =>
    refine ⟨fun _ hr h₀ hc hu => ?_, by simp, by simp⟩
    have hlen := hdrop rfl hp hr h₀ hc hu _ hw hq
    have hmem := List.mem_of_find?_eq_some hw
    have hready := List.find?_some hw
    exact List.length_eq_zero_iff.mp (by simp [List.length_eraseP_of_mem hmem hready, hlen])
  | takeTerminal | collectTerminal | collectClosed | collectDone =>
    exact ⟨by simp [finishBatch], by simp [finishBatch], by simp [finishBatch]⟩
  | busy hp hni =>
    exact ⟨by simp, fun _ hr h₀ => absurd (idle_of_outstanding_zero hr h₀) hni, by simp⟩
  | inputClosed hp hi hc ho hq hcl =>
    refine ⟨by simp, fun _ hr h₀ => ⟨hc, fun _ => ?_⟩, by simp⟩
    exact h.fetch hp hr h₀ hc (by simp [State.unread, hq, hin.closed_source hcl])
  | noInput hp hi hc =>
    refine ⟨by simp, fun _ hr h₀ => ⟨hc, fun ho => ?_⟩, by simp⟩
    exact h.fetch hp hr h₀ hc (hin.drained ho)
  | duplicate | wait | start | collectTrade | dispatch | completeTerminal | input | selectClosed =>
    exact ⟨by simp, by simp, by simp⟩
  | exitReturn | completeTrade =>
    obtain ⟨p, ms, n, he⟩ := flushBroadcasts_eq _
    rw [he]
    exact ⟨by simp, by simp, by simp⟩
  | exitSelect hp hne =>
    refine ⟨by simp, by simp, fun _ hr h₀ => ?_⟩
    obtain ⟨hc, hw⟩ := h.exit hp hr h₀
    refine ⟨hc, ?_⟩
    by_contra ho
    have ho : s.queueOpen = false := by simpa using ho
    exact hne ⟨ho, hr, h₀, hc, hw ho⟩
  | take | finishForeign | finish | foreign | close =>
    exact h.frame rfl rfl rfl rfl rfl rfl rfl
  | put hs => exact h.frame rfl rfl rfl rfl rfl rfl (by simp [State.unread, hs])

theorem reach_drain {feed : Feed} (h : Lts.Reach (step cfg) NoStrandingDrop (init feed) s) :
    DrainInv s :=
  h.invariant _ (init_drain feed) fun _ _ _ hr hi hok hs =>
    hi.move (reach_pool hr) (reach_input hr) hok (move_of_step hs)

/-! ## Some step is enabled -/

/-- While one of our jobs is in the pool or a channel, a worker or a completion can move. -/
theorem exists_step_of_running (h : PoolInv cfg s) (hr : s.running ≠ []) :
    ∃ a, a.internal = true ∧ (step cfg a s).isSome := by
  obtain ⟨x, rest, hx⟩ := List.exists_cons_of_ne_nil hr
  refine ⟨.finish 0 [] [], rfl, ?_⟩
  cases x with
  | none => simp [step, workerFinish, hx]
  | some job =>
    have hc := @PoolInv.completions_lt _ _ h job (by simp [hx])
    simp [step, workerFinish, hx, hc]

theorem exists_step_of_jobs (h : PoolInv cfg s) (hj : s.jobs ≠ []) :
    ∃ a, a.internal = true ∧ (step cfg a s).isSome := by
  by_cases hr : s.running = []
  · obtain ⟨job, rest, hj⟩ := List.exists_cons_of_ne_nil hj
    exact ⟨.take, rfl, by simp [step, workerTake, hj, hr, cfg.concurrency_pos]⟩
  · exact exists_step_of_running h hr

theorem exists_step_of_readyJob (h : PoolInv cfg s) (hp : s.position = .select)
    {job : SettlementJob} (hr : s.readyJob = some job) :
    ∃ a, a.internal = true ∧ (step cfg a s).isSome := by
  by_cases hj : s.jobs.length < cfg.concurrency
  · exact ⟨.dispatch, rfl, by simp [step, selectDispatch, hp, hr, hj]⟩
  · refine exists_step_of_jobs h fun hnil => hj ?_
    simpa [hnil] using cfg.concurrency_pos

theorem exists_step_of_outstanding (h : PoolInv cfg s) (hp : s.position = .select)
    (hd : s.dep.outstanding ≠ 0) : ∃ a, a.internal = true ∧ (step cfg a s).isSome := by
  have hlen := h.inFlight_length
  by_cases hc : s.completions = []
  · by_cases hr : s.running = []
    · refine exists_step_of_jobs h fun hj => hd ?_
      simpa [hc, hr, hj] using hlen.symm
    · exact exists_step_of_running h hr
  · obtain ⟨res, rest, hc⟩ := List.exists_cons_of_ne_nil hc
    refine ⟨.complete, rfl, ?_⟩
    cases hs : res.seq <;> simp [step, selectComplete, hp, hc, hs]

/-- With nothing in flight and the queue open, either the input case is ready or the
producer can still put or close. -/
theorem exists_step_of_open (hp : s.position = .select) (hr : s.readyJob = none)
    (hd : s.dep.outstanding = 0) (hc : s.carry = none) (ho : s.queueOpen = true) :
    (∃ a, a.internal = true ∧ (step cfg a s).isSome) ∨
      s.closed = false ∧ ((step cfg .put s).isSome ∨ (step cfg .close s).isSome) := by
  have hi : s.Idle cfg := idle_of_outstanding_zero hr hd
  obtain ⟨e, rest, hq, hrec⟩ | ⟨hq, hcl, hrec⟩ | ⟨hq, hcl, hrec⟩ := receive_cases s
  · exact .inl ⟨.input, rfl, by simp [step, selectInput, hp, ho, hr, hc, hi.2, hrec]⟩
  · exact .inl ⟨.input, rfl, by simp [step, selectInput, hp, ho, hr, hc, hi.2, hrec]⟩
  · refine .inr ⟨hcl, ?_⟩
    cases hs : s.source with
    | nil => exact .inr (by simp [step, close, hs, hcl])
    | cons e rest => exact .inl (by simp [step, put, hs, hq, cfg.queueSize_pos])

/-- A run that never drops its last terminal in flight with others waiting never blocks:
until the dispatcher has returned, it or a worker can move, or the queue is still open and
the producer can; and it never sits in its select with nothing that could wake it. -/
theorem dispatcher_never_stuck (cfg : Config) (feed : Feed) (s : State)
    (h : Lts.Reach (step cfg) NoStrandingDrop (init feed) s) :
    ¬ BlockedForever s ∧
      (s.position ≠ .returned →
        (∃ a, a.internal = true ∧ (step cfg a s).isSome) ∨
        s.closed = false ∧ ((step cfg .put s).isSome ∨ (step cfg .close s).isSome)) := by
  have hpool := reach_pool h
  have hdrain := reach_drain h
  refine ⟨fun ⟨hp, hr, hd, ho⟩ => ?_, fun hne => ?_⟩
  · simp [(hdrain.select hp hr hd).2] at ho
  · cases hp : s.position with
    | terminals | fetch | collect | exit =>
      exact .inl ⟨.advance, rfl, by simp [step, advance, hp]⟩
    | returned => exact absurd hp hne
    | select =>
      cases hr : s.readyJob with
      | some job => exact .inl (exists_step_of_readyJob hpool hp hr)
      | none =>
        by_cases hd : s.dep.outstanding = 0
        · obtain ⟨hc, ho⟩ := hdrain.select hp hr hd
          exact exists_step_of_open hp hr hd hc ho
        · exact .inl (exists_step_of_outstanding hpool hp hd)

/-- A trade of orders 1 and 2, then the cancellations of both. -/
def strandedFeed : Feed where
  events :=
    [⟨1, .trade ⟨⟨1, 1⟩, "BTC", 1, 1, 1, 2⟩⟩,
     ⟨2, .orderCancelled ⟨1, 1, "BTC", .buy, ⟨1, 2⟩⟩⟩,
     ⟨3, .orderCancelled ⟨2, 2, "BTC", .sell, ⟨1, 3⟩⟩⟩]
  outboxIDs_nodup := by decide

/-- The whole feed is queued and closed, the batch is dispatched, and its worker reports
both orders undurable while both cancellations wait. -/
def strandedRun : List Label :=
  [.put, .put, .put, .close, .advance, .advance, .advance, .advance, .dispatch, .take,
   .finish 0 [] [1, 2], .advance, .advance, .advance, .advance, .advance, .advance, .advance,
   .complete, .advance, .advance, .advance]

/-- The same events, and a trade that the producer has not put yet. -/
def openFeed : Feed where
  events := strandedFeed.events ++ [⟨4, .trade ⟨⟨1, 4⟩, "BTC", 1, 1, 3, 4⟩⟩]
  outboxIDs_nodup := by decide

instance (s : State) (a : Label) : Decidable (NoStrandingDrop s a) :=
  letI : Decidable (∀ w ∈ s.waiting.find? s.isReady,
      w.orderID ∈ s.dep.unsafeOrders → s.waiting.length = 1) := inferInstance
  inferInstanceAs (Decidable (a = .advance → s.position = .terminals → s.readyJob = none →
    s.dep.outstanding = 0 → s.carry = none → s.unread = [] →
    ∀ w ∈ s.waiting.find? s.isReady, w.orderID ∈ s.dep.unsafeOrders → s.waiting.length = 1))

/-- The first cancellation is dropped, the second one still waits, and the dispatcher stands in its
select; but there is more to read. -/
theorem dispatcher_never_stuck_after_drop :
    ∃ s, Lts.exec (Lts.guarded (step singleWorker) NoStrandingDrop) (strandedRun.erase .close)
      (init openFeed) = some s ∧ s.position = .select ∧ s.waiting.length = 1 ∧
      s.history.head? = some (.dropped ⟨2, .orderCancelled ⟨1, 1, "BTC", .buy, ⟨1, 2⟩⟩⟩) ∧
      ¬ BlockedForever s ∧
      ((∃ a, a.internal = true ∧ (step singleWorker a s).isSome) ∨
        s.closed = false ∧ ((step singleWorker .put s).isSome ∨
          (step singleWorker .close s).isSome)) := by
  have hrun : (Lts.exec (Lts.guarded (step singleWorker) NoStrandingDrop) (strandedRun.erase .close)
      (init openFeed)).map (fun s => (s.position, s.waiting.length, s.history.head?)) =
      some (.select, 1, some (.dropped ⟨2, .orderCancelled ⟨1, 1, "BTC", .buy, ⟨1, 2⟩⟩⟩)) := by
    decide +kernel
  obtain ⟨s, hs, hend⟩ := Option.map_eq_some_iff.mp hrun
  simp only [Prod.mk.injEq] at hend
  obtain ⟨hpos, hwait, hdrop⟩ := hend
  obtain ⟨hfree, hmove⟩ :=
    dispatcher_never_stuck singleWorker openFeed s (Lts.reach_of_exec_guarded _ hs)
  exact ⟨s, hs, hpos, hwait, hdrop, hfree, hmove (by simp [hpos])⟩

/-- The first cancellation is dropped, the second one waits for ever. -/
theorem stranded_terminal_blocks_dispatcher :
    ∃ s, Lts.exec (step singleWorker) strandedRun (init strandedFeed) = some s ∧
      BlockedForever s ∧ s.waiting.length = 1 ∧ Stuck singleWorker s := by
  refine ⟨_, rfl, ⟨rfl, rfl, rfl, rfl⟩, rfl, by decide, fun a ha => ?_⟩
  cases a with
  | foreign => exact absurd rfl ha
  | _ => rfl

end GoExchange.Dispatcher
