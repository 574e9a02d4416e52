import GoExchange.DispatcherFlow

/-!
# The per-order fence

A terminal event of an order is handed out only after every batch that names the
order and precedes it in the queue is retired, and never if one of those batches
could not be made durable. The fence is read off the history: `Fenced` looks at
what had happened before each dispatch of a terminal.
-/
namespace GoExchange.Dispatcher

variable {cfg : Config} {feed : Feed} {s t : State} {a : Label} {e : OutboxEvent} {h : List Action}
  {w : WaitingTerminal} {ok : State → Label → Prop} {rest : List SettlementResult} {x : Nat}

/-- At most one terminal event per order, which the engine promises. -/
def Feed.TerminalsUnique (feed : Feed) : Prop :=
  ∀ e ∈ feed.events, ∀ e' ∈ feed.events, ∀ x,
    e.event.terminalOrder? = some x → e'.event.terminalOrder? = some x → e = e'

/-- Every trade in front of `e` in the queue has been dispatched. -/
def Covered (feed : Feed) (h : List Action) (e : OutboxEvent) : Prop :=
  ∀ before after, feed.events = before ++ e :: after →
    before.filter isTrade <+: dispatchedTrades h

/-- The terminal `e` of order `x` may be handed out after the history `h`. -/
structure Released (feed : Feed) (h : List Action) (e : OutboxEvent) (x : Nat) : Prop where
  covered : Covered feed h e
  retired : ∀ job ∈ dispatchedJobs h, x ∈ job.work.orders → ∃ res ∈ results h, res.id = job.id
  durable : feed.TerminalsUnique → ∀ job ∈ dispatchedJobs h, x ∈ job.work.orders →
    ∀ res ∈ results h, res.id = job.id → x ∉ res.undurableOrderIDs

/-- Every dispatch of a terminal in the history was allowed by what came before it. -/
def Fenced (feed : Feed) : List Action → Prop
  | [] => True
  | .dispatched ⟨_, .terminal e⟩ :: h =>
    (∀ x, e.event.terminalOrder? = some x → Released feed h e x) ∧ Fenced feed h
  | _ :: h => Fenced feed h

theorem Fenced.tail {x : Action} (hf : Fenced feed (x :: h)) : Fenced feed h := by
  unfold Fenced at hf
  split at hf
  · trivial
  · rename_i heq; cases heq; exact hf.2
  · rename_i heq; cases heq; exact hf

theorem Fenced.released {post pre : List Action} {id : Nat}
    (hf : Fenced feed (post ++ .dispatched ⟨id, .terminal e⟩ :: pre))
    (hx : e.event.terminalOrder? = some x) : Released feed pre e x := by
  induction post with
  | nil => exact hf.1 x hx
  | cons y post ih => exact ih hf.tail

theorem Fenced.broadcasts (hf : Fenced feed h) (m : List BroadcastMessage) :
    Fenced feed (m.map Action.broadcast ++ h) := by
  induction m with
  | nil => exact hf
  | cons x m ih => exact ih

/-- Job ids and results match the tracker's table. -/
structure JobInv (s : State) : Prop where
  ids_lt : ∀ job ∈ dispatchedJobs s.history, job.id < s.nextJobID
  results_lt : ∀ res ∈ results s.history, res.id < s.nextJobID
  ready_new : ∀ job, s.readyJob = some job → ∀ res ∈ results s.history, res.id ≠ job.id
  status : ∀ job ∈ dispatchedJobs s.history, (job.id, job.work.orders) ∈ s.dep.dispatched ∨
    ∃ res ∈ results s.history, res.id = job.id
  retired_gone : ∀ res ∈ results s.history, res.id ∉ s.registeredIDs

theorem init_job (feed : Feed) : JobInv (init feed) := by
  constructor <;> simp [init, dispatchedJobs, results]

theorem JobInv.frame (h : JobInv s) (hj : dispatchedJobs t.history = dispatchedJobs s.history)
    (hres : results t.history = results s.history) (hd : t.dep.dispatched = s.dep.dispatched)
    (hn : t.nextJobID = s.nextJobID) (hr : t.readyJob = s.readyJob) : JobInv t where
  ids_lt := by simpa [hj, hn] using h.ids_lt
  results_lt := by simpa [hres, hn] using h.results_lt
  ready_new := by simpa [hres, hr] using h.ready_new
  status := by simpa [hj, hres, hd] using h.status
  retired_gone := by simpa [hres, hd, State.registeredIDs] using h.retired_gone

theorem JobInv.flush (h : JobInv s) : JobInv s.flushBroadcasts := by
  have hh := SameRecords.flush s
  obtain ⟨p, ms, n, he⟩ := flushBroadcasts_eq s
  rw [he] at hh ⊢
  exact h.frame hh.dispatchedJobs hh.results rfl rfl rfl

theorem JobInv.makeReady (h : JobInv s) (w : Work)
    (hj : dispatchedJobs t.history = dispatchedJobs s.history)
    (hres : results t.history = results s.history) (hd : t.dep.dispatched = s.dep.dispatched)
    (hn : t.nextJobID = s.nextJobID + 1) (hr : t.readyJob = some ⟨s.nextJobID, w⟩) : JobInv t where
  ids_lt := fun job hjob => by
    have := h.ids_lt job (hj ▸ hjob)
    omega
  results_lt := fun res hr => by
    have := h.results_lt res (hres ▸ hr)
    omega
  ready_new := fun job hjob res hr' => by
    obtain rfl : (⟨s.nextJobID, w⟩ : SettlementJob) = job := Option.some.inj (hr.symm.trans hjob)
    exact (h.results_lt res (hres ▸ hr')).ne
  status := by simpa [hj, hres, hd] using h.status
  retired_gone := by simpa [hres, hd, State.registeredIDs] using h.retired_gone

theorem JobInv.dispatch (h : JobInv s) (hpool : PoolInv cfg s) {job : SettlementJob}
    (hr : s.readyJob = some job) (ht : t.history = .dispatched job :: s.history)
    (hd : t.dep = s.dep.register job.id job.work.orders) (hn : t.nextJobID = s.nextJobID)
    (htr : t.readyJob = none) : JobInv t := by
  obtain ⟨hlt, hnot, -⟩ := hpool.ready job hr
  have hdis : t.dep.dispatched = (job.id, job.work.orders) :: s.dep.dispatched := by
    simp [hd, DependencyTracker.register, DependencyTracker.filter_fresh hnot]
  have hj : dispatchedJobs t.history = dispatchedJobs s.history ++ [job] := by
    simp [ht]
  have hres : results t.history = results s.history := by simp [ht]
  refine ⟨?_, by simpa [hres, hn] using h.results_lt, by simp [htr], ?_, ?_⟩
  · simpa [hj, hn, or_imp, forall_and] using ⟨h.ids_lt, hlt⟩
  · intro j hj'
    rw [hj, List.mem_append, List.mem_singleton] at hj'
    rw [hdis, hres]
    rcases hj' with hj' | rfl
    · exact (h.status j hj').imp_left (List.mem_cons_of_mem _)
    · exact .inl List.mem_cons_self
  · intro res hr' hid
    rw [hres] at hr'
    simp only [State.registeredIDs, hdis, List.map_cons, List.mem_cons] at hid
    exact hid.elim (h.ready_new job hr res hr') (h.retired_gone res hr')

theorem JobInv.complete (h : JobInv s) (hpool : PoolInv cfg s) {res : SettlementResult}
    (hc : s.completions = res :: rest) (ht : t.history = .retired res :: s.history)
    (hd : t.dep = s.dep.retire res.id res.undurableOrderIDs) (hn : t.nextJobID = s.nextJobID)
    (htr : t.readyJob = s.readyJob) : JobInv t := by
  obtain ⟨orders, hl⟩ := hpool.lookup_of_completion hc
  have hreg : res.id ∈ s.registeredIDs := hpool.ids.subset (by simp [State.inFlightIDs, hc])
  have hdis : t.dep.dispatched = s.dep.dispatched.filter (fun p => p.1 != res.id) := by
    rw [hd, DependencyTracker.retire_eq hl]
  have hj : dispatchedJobs t.history = dispatchedJobs s.history := by simp [ht]
  have hres : results t.history = results s.history ++ [res] := by simp [ht]
  refine ⟨by simpa [hj, hn] using h.ids_lt, ?_, ?_, ?_, ?_⟩
  · simpa [hres, hn, or_imp, forall_and] using ⟨h.results_lt, hpool.fresh _ hreg⟩
  · intro job hjob r hr
    rw [hres, List.mem_append, List.mem_singleton] at hr
    rw [htr] at hjob
    rcases hr with hr | rfl
    · exact h.ready_new job hjob r hr
    · exact fun he => (hpool.ready job hjob).2.1 (he ▸ hreg)
  · intro job hjob
    rw [hres, hdis]
    by_cases he : res.id = job.id
    · exact .inr ⟨res, by simp, he⟩
    · rcases h.status job (hj ▸ hjob) with hm | ⟨r, hr, hid⟩
      · exact .inl (List.mem_filter.mpr ⟨hm, by simpa using Ne.symm he⟩)
      · exact .inr ⟨r, List.mem_append_left _ hr, hid⟩
  · intro r hr hid
    rw [hres, List.mem_append, List.mem_singleton] at hr
    simp only [State.registeredIDs, hdis, List.mem_map, List.mem_filter, bne_iff_ne, ne_eq] at hid
    obtain ⟨p, ⟨hp, hne⟩, hpid⟩ := hid
    rcases hr with hr | rfl
    · exact h.retired_gone r hr (hpid ▸ List.mem_map_of_mem hp)
    · exact hne hpid

theorem JobInv.move (h : JobInv s) (hpool : PoolInv cfg s) (hm : Step cfg s a t) : JobInv t := by
  cases hm with
  | noTerminal | busy | inputClosed | noInput | exitSelect | selectClosed | take | finishForeign
  | finish | put | close | foreign => exact h.frame rfl rfl rfl rfl rfl
  | dropTerminal | collectTrade | input =>
    exact h.frame (by simp) (by simp)
      rfl rfl rfl
  | takeTerminal => exact h.makeReady _ rfl rfl rfl rfl rfl
  | duplicate _ _ ht | wait _ _ ht | start _ _ ht =>
    cases ht <;>
      exact h.frame (by simp) (by simp)
        rfl rfl rfl
  | collectTerminal | collectClosed | collectDone =>
    exact h.makeReady _ (by simp [finishBatch])
      (by simp [finishBatch]) rfl rfl rfl
  | exitReturn => exact h.flush.frame rfl rfl rfl rfl rfl
  | dispatch _ hr => exact h.dispatch hpool hr rfl rfl rfl rfl
  | completeTerminal _ hc => exact h.complete hpool hc rfl rfl rfl rfl
  | completeTrade _ hc =>
    refine JobInv.flush ?_
    exact h.complete hpool hc rfl rfl rfl rfl

theorem reach_job (h : Lts.Reach (step cfg) ok (init feed) s) : JobInv s :=
  h.invariant _ (init_job feed) fun _ _ _ hr hi _ hs => hi.move (reach_pool hr) (move_of_step hs)

/-! ## The fence holds -/

theorem Feed.nodup (feed : Feed) : feed.events.Nodup := feed.outboxIDs_nodup.of_map _

/-- How often the dispatcher's records hold a terminal. -/
def State.places (s : State) (e : OutboxEvent) : Nat :=
  (dispatchedTerminals s.history).count e + s.terminalsInHand.count e +
    (dropped s.history).count e + (duplicates s.history).count e

theorem FlowInv.places_le_one (h : FlowInv feed s) (e : OutboxEvent) : s.places e ≤ 1 := by
  have hsub : (received s.history).Sublist feed.events := h.feed_eq ▸ List.sublist_append_left _ _
  rw [State.places, ← h.terminals_eq e]
  exact List.nodup_iff_count_le_one.mp ((feed.nodup.sublist hsub).filter _) e

theorem FlowInv.mem_feed (h : FlowInv feed s) (he : 0 < s.places e) :
    e ∈ feed.events := by
  have hsub : (received s.history).Sublist feed.events := h.feed_eq ▸ List.sublist_append_left _ _
  rw [State.places, ← h.terminals_eq e] at he
  exact hsub.subset (List.mem_of_mem_filter (List.count_pos_iff.mp he))

/-- A terminal of the feed is in one place only: what waits has not been dropped. -/
theorem FlowInv.waiting_unique (h : FlowInv feed s) (hw : w ∈ s.waiting) :
    w.event ∈ feed.events ∧ w.event ∉ dropped s.history := by
  have hc : 0 < s.terminalsInHand.count w.event := by
    rw [List.count_pos_iff]
    simp only [State.terminalsInHand, List.mem_append]
    exact .inl (.inr (List.mem_map_of_mem hw))
  refine ⟨h.mem_feed (by unfold State.places; omega), fun hd => ?_⟩
  have hd := List.count_pos_iff.mpr hd
  have hle := h.places_le_one w.event
  unfold State.places at hle
  omega

/-- In a feed with distinct ids an event has one position. -/
theorem Covered.of_split {pre rest : List OutboxEvent}
    (hs : feed.events = pre ++ e :: rest) (hp : pre.filter isTrade <+: dispatchedTrades h) :
    Covered feed h e := by
  intro before after hb
  have hnot : e ∉ before ++ after :=
    (List.nodup_cons.mp (List.nodup_middle.mp (hb ▸ feed.nodup))).1
  rw [List.mem_append, not_or] at hnot
  have heq := hb.symm.trans hs
  rw [List.append_cons_inj_of_notMem hnot.1 hnot.2] at heq
  exact heq.1 ▸ hp

theorem Covered.mono {h' : List Action} (hc : Covered feed h e)
    (hp : dispatchedTrades h <+: dispatchedTrades h') : Covered feed h' e :=
  fun before after hb => (hc before after hb).trans hp

theorem AtHand.covered (h : AtHand feed e s) : Covered feed s.history e := by
  obtain ⟨pre, hpre, htr⟩ := h.last
  have hs := h.feed_eq
  rw [hpre, List.append_assoc, List.singleton_append] at hs
  exact .of_split hs.symm (htr ▸ List.prefix_refl _)

structure FenceInv (feed : Feed) (s : State) : Prop where
  waiting : ∀ w ∈ s.waiting, w.event.event.terminalOrder? = some w.orderID ∧
    Covered feed s.history w.event
  ready : ∀ id e, s.readyJob = some ⟨id, .terminal e⟩ → ∃ x, e.event.terminalOrder? = some x ∧
    Released feed s.history e x ∧ s.dep.ready x = true
  reported : ∀ res ∈ results s.history, ∀ x ∈ res.undurableOrderIDs,
    x ∈ s.dep.unsafeOrders ∨ ∃ e ∈ dropped s.history, e.event.terminalOrder? = some x
  quarantined : ∀ x ∈ s.dep.unsafeOrders, ∃ res ∈ results s.history, x ∈ res.undurableOrderIDs
  dropped : ∀ e ∈ dropped s.history, ∃ x, e.event.terminalOrder? = some x ∧
    ∃ res ∈ results s.history, x ∈ res.undurableOrderIDs
  duplicate : ∀ e ∈ duplicates s.history, ∃ x, e.event.terminalOrder? = some x ∧
    ∃ e' ∈ feed.events, e' ≠ e ∧ e'.event.terminalOrder? = some x
  fenced : Fenced feed s.history

theorem init_fence (feed : Feed) : FenceInv feed (init feed) := by
  constructor <;> simp [init, results, Dispatcher.dropped, duplicates,
    DependencyTracker.new, Fenced]

theorem Released.same {h' : List Action} (hr : Released feed h e x)
    (hh : SameRecords h h') : Released feed h' e x where
  covered := hr.covered.mono (by simp [dispatchedTrades, hh.dispatchedJobs])
  retired := by simpa [hh.dispatchedJobs, hh.results] using hr.retired
  durable := by simpa [hh.dispatchedJobs, hh.results] using hr.durable

/-- Moves that add nothing to the records; a terminal made ready has to be released. -/
theorem FenceInv.makeReady (h : FenceInv feed s) (hh : SameRecords s.history t.history)
    (hf : Fenced feed t.history) (hw : ∀ w ∈ t.waiting, w ∈ s.waiting) (hd : t.dep = s.dep)
    (hr : ∀ id e, t.readyJob = some ⟨id, .terminal e⟩ → ∃ x, e.event.terminalOrder? = some x ∧
      Released feed s.history e x ∧ s.dep.ready x = true) : FenceInv feed t where
  waiting := fun w hm => by
    obtain ⟨hx, hc⟩ := h.waiting w (hw w hm)
    exact ⟨hx, hc.mono (by simp [dispatchedTrades, hh.dispatchedJobs])⟩
  ready := fun id e hre => by
    obtain ⟨x, hx, hrel, hready⟩ := hr id e hre
    exact ⟨x, hx, hrel.same hh, hd ▸ hready⟩
  reported := by simpa [hh.results, hh.dropped, hd] using h.reported
  quarantined := by simpa [hh.results, hd] using h.quarantined
  dropped := by simpa [hh.results, hh.dropped] using h.dropped
  duplicate := by simpa [hh.duplicates] using h.duplicate
  fenced := hf

theorem FenceInv.frame (h : FenceInv feed s) (hh : SameRecords s.history t.history)
    (hf : Fenced feed t.history) (hw : t.waiting = s.waiting) (hr : t.readyJob = s.readyJob)
    (hd : t.dep = s.dep) : FenceInv feed t :=
  h.makeReady hh hf (fun _ hm => hw ▸ hm) hd fun id e he => h.ready id e (hr ▸ he)

theorem FenceInv.flush (h : FenceInv feed s) : FenceInv feed s.flushBroadcasts := by
  obtain ⟨p, ms, n, he⟩ := flushBroadcasts_eq s
  rw [he]
  exact h.frame (.broadcasts ms _) (h.fenced.broadcasts ms) rfl rfl rfl

/-- A ready terminal of a healthy order is released: its batches are retired, and none of
them reported the order. -/
theorem FenceInv.release (h : FenceInv feed s) (hpool : PoolInv cfg s) (hflow : FlowInv feed s)
    (hjob : JobInv s) (hw : w ∈ s.waiting) (hready : s.isReady w = true)
    (hq : w.orderID ∉ s.dep.unsafeOrders) : Released feed s.history w.event w.orderID := by
  obtain ⟨hx, hc⟩ := h.waiting w hw
  obtain ⟨hmem, hnd⟩ := hflow.waiting_unique hw
  refine ⟨hc, fun job hj ho => ?_, fun huniq job _ _ res hres _ hund => ?_⟩
  · refine (hjob.status job hj).resolve_left fun hd => ?_
    exact hpool.consistent.not_mem_of_ready hready hd ho
  · obtain hu | ⟨e, he, hex⟩ := h.reported res hres _ hund
    · exact hq hu
    · -- the only terminal of the order is still waiting, so it cannot have been dropped
      have hpos := List.count_pos_iff.mpr he
      have hem : e ∈ feed.events := hflow.mem_feed (by unfold State.places; omega)
      exact hnd (huniq e hem w.event hmem _ hex hx ▸ he)

theorem FenceInv.drop (h : FenceInv feed s)
    (hw : s.waiting.find? s.isReady = some w) (hq : w.orderID ∈ s.dep.unsafeOrders)
    (ht : t.history = .dropped w.event :: s.history) (htw : t.waiting = s.waiting.eraseP s.isReady)
    (htr : t.readyJob = none) (hd : t.dep = s.dep.clearQuarantine w.orderID) : FenceInv feed t := by
  have hx := (h.waiting w (List.mem_of_find?_eq_some hw)).1
  have hres : results t.history = results s.history := by simp [ht]
  have hdr : Dispatcher.dropped t.history = Dispatcher.dropped s.history ++ [w.event] := by
    simp [ht]
  have hdep : t.dep.unsafeOrders = s.dep.unsafeOrders.erase w.orderID := by rw [hd]; rfl
  refine ⟨fun w' hw' => ?_, by simp [htr], fun res hr x hx' => ?_, fun x hxu => ?_, fun e he => ?_,
    by simpa [ht] using h.duplicate, ht ▸ h.fenced⟩
  · rw [htw] at hw'
    obtain ⟨hx', hc⟩ := h.waiting w' (List.mem_of_mem_eraseP hw')
    exact ⟨hx', hc.mono (by simp [ht])⟩
  · rw [hdr, hdep]
    by_cases hxw : x = w.orderID
    · exact .inr ⟨w.event, by simp, hxw ▸ hx⟩
    · rcases h.reported res (hres ▸ hr) x hx' with hu | ⟨e, he, hex⟩
      · exact .inl (Finset.mem_erase.mpr ⟨hxw, hu⟩)
      · exact .inr ⟨e, List.mem_append_left _ he, hex⟩
  · rw [hdep] at hxu
    exact hres ▸ h.quarantined x (Finset.mem_of_mem_erase hxu)
  · rw [hdr, List.mem_append, List.mem_singleton] at he
    rw [hres]
    rcases he with he | rfl
    · exact h.dropped e he
    · exact ⟨_, hx, h.quarantined _ hq⟩

theorem FenceInv.taken (h : FenceInv feed s) (ht : Taken s e t) : FenceInv feed t := by
  cases ht with
  | carried => exact h.frame (.refl _) h.fenced rfl rfl rfl
  | fromQueue => exact h.frame (.received e _) h.fenced rfl rfl rfl

/-- A second terminal of an order that already waits is another event of the feed. -/
theorem FenceInv.refuse (h : FenceInv feed s) (hat : AtHand feed e s)
    (hx : e.event.terminalOrder? = some x) (hd : ∃ w ∈ s.waiting, w.orderID = x) :
    FenceInv feed { s with history := .duplicate e :: s.history, position := .terminals } := by
  have hsame : (Dispatcher.dropped (.duplicate e :: s.history) = Dispatcher.dropped s.history) ∧
      dispatchedJobs (.duplicate e :: s.history) = dispatchedJobs s.history ∧
      results (.duplicate e :: s.history) = results s.history := by
    simp
  obtain ⟨hdr, hj, hres⟩ := hsame
  refine ⟨fun w hw => ?_, by simp [hat.readyJob], by simpa [hdr, hres] using h.reported,
    by simpa [hres] using h.quarantined, by
    simpa [hdr, hres] using h.dropped, fun e' he' => ?_, h.fenced⟩
  · obtain ⟨hx', hc⟩ := h.waiting w hw
    exact ⟨hx', hc.mono (by simp [dispatchedTrades, hj])⟩
  · rw [duplicates_cons, List.mem_append, Action.duplicateEvent, List.mem_singleton] at he'
    rcases he' with he' | rfl
    · exact h.duplicate e' he'
    · obtain ⟨w, hw, rfl⟩ := hd
      obtain ⟨hxw, -⟩ := h.waiting w hw
      have hflow := hat.wait (isTrade_of_terminal hx) w.orderID
      obtain ⟨hmem, -⟩ := hflow.waiting_unique (w := w) (by simp [hw])
      refine ⟨_, hx, w.event, hmem, fun he => ?_, hxw⟩
      -- otherwise the event would have been read twice
      have hpos : 0 < (s.waiting.map WaitingTerminal.event).count e' :=
        List.count_pos_iff.mpr (he ▸ List.mem_map_of_mem hw)
      have htwo := hflow.places_le_one e'
      simp only [State.places, State.terminalsInHand, List.map_append, List.count_append,
        List.map_cons, List.map_nil, List.count_singleton_self] at htwo
      omega

theorem FenceInv.wait (h : FenceInv feed s) (hat : AtHand feed e s)
    (hx : e.event.terminalOrder? = some x) :
    FenceInv feed { s with waiting := s.waiting ++ [⟨e, x⟩], position := .terminals } := by
  exact { h with waiting := Rows.forall_mem_concat h.waiting ⟨hx, hat.covered⟩ }

theorem FenceInv.dispatch (h : FenceInv feed s) {job : SettlementJob} (hr : s.readyJob = some job)
    (ht : t.history = .dispatched job :: s.history) (hw : t.waiting = s.waiting)
    (htr : t.readyJob = none) (hd : t.dep.unsafeOrders = s.dep.unsafeOrders) : FenceInv feed t := by
  have hdr : Dispatcher.dropped t.history = Dispatcher.dropped s.history := by
    simp [ht]
  have hres : results t.history = results s.history := by simp [ht]
  refine ⟨fun w hm => ?_, by simp [htr], by simpa [hdr, hres, hd] using h.reported,
    by simpa [hres, hd] using h.quarantined, by simpa [hdr, hres] using h.dropped,
    by simpa [ht] using h.duplicate, ?_⟩
  · obtain ⟨hx, hc⟩ := h.waiting w (hw ▸ hm)
    exact ⟨hx, hc.mono (by simp [ht])⟩
  · rw [ht]
    obtain ⟨id, work⟩ := job
    cases work with
    | trade seq batch => exact h.fenced
    | terminal e =>
      obtain ⟨x, hx, hrel, -⟩ := h.ready id e hr
      exact ⟨fun y hy => Option.some.inj (hx.symm.trans hy) ▸ hrel, h.fenced⟩

theorem FenceInv.complete (h : FenceInv feed s) (hpool : PoolInv cfg s) (hjob : JobInv s)
    {res : SettlementResult} (hc : s.completions = res :: rest)
    (ht : t.history = .retired res :: s.history) (hw : t.waiting = s.waiting)
    (htr : t.readyJob = s.readyJob) (hd : t.dep = s.dep.retire res.id res.undurableOrderIDs) :
    FenceInv feed t := by
  obtain ⟨orders, hl⟩ := hpool.lookup_of_completion hc
  rw [DependencyTracker.retire_eq hl] at hd
  have hreg : res.id ∈ s.registeredIDs := hpool.ids.subset (by simp [State.inFlightIDs, hc])
  have hj : dispatchedJobs t.history = dispatchedJobs s.history := by simp [ht]
  have hdr : Dispatcher.dropped t.history = Dispatcher.dropped s.history := by
    simp [ht]
  have hres : results t.history = results s.history ++ [res] := by simp [ht]
  refine ⟨fun w hm => ?_, fun id e hre => ?_, fun r hr x hx => ?_, fun x hx => ?_, fun e he => ?_,
    by simpa [ht] using h.duplicate, ht ▸ h.fenced⟩
  · obtain ⟨hx, hcov⟩ := h.waiting w (hw ▸ hm)
    exact ⟨hx, hcov.mono (by simp [dispatchedTrades, hj])⟩
  · obtain ⟨x, hx, hrel, hready⟩ := h.ready id e (htr ▸ hre)
    refine ⟨x, hx, ⟨?_, fun job hm ho => ?_, fun hu job hm ho r hr hid => ?_⟩, ?_⟩
    · exact hrel.covered.mono (by simp [dispatchedTrades, hj])
    · obtain ⟨r, hr, hid⟩ := hrel.retired job (hj ▸ hm) ho
      exact ⟨r, hres ▸ List.mem_append_left _ hr, hid⟩
    · rw [hres, List.mem_append, List.mem_singleton] at hr
      rcases hr with hr | rfl
      · exact hrel.durable hu job (hj ▸ hm) ho r hr hid
      · -- every batch naming the order was retired before, this one is only retired now
        obtain ⟨r', hr', hid'⟩ := hrel.retired job (hj ▸ hm) ho
        exact absurd (hid' ▸ hid ▸ hreg) (hjob.retired_gone r' hr')
    · rw [DependencyTracker.ready_eq_true] at hready ⊢
      simp [hd, DependencyTracker.countDown_apply, hready]
  · rw [hdr, hd]
    rw [hres, List.mem_append, List.mem_singleton] at hr
    rcases hr with hr | rfl
    · exact (h.reported r hr x hx).imp_left fun hu => Finset.mem_union_left _ hu
    · exact .inl (Finset.mem_union_right _ (List.mem_toFinset.mpr hx))
  · rw [hd] at hx
    rw [hres]
    rcases Finset.mem_union.mp hx with hx | hx
    · obtain ⟨r, hr, hrx⟩ := h.quarantined x hx
      exact ⟨r, List.mem_append_left _ hr, hrx⟩
    · exact ⟨res, by simp, List.mem_toFinset.mp hx⟩
  · obtain ⟨x, hx, r, hr, hrx⟩ := h.dropped e (hdr ▸ he)
    exact ⟨x, hx, r, hres ▸ List.mem_append_left _ hr, hrx⟩

theorem FenceInv.move (h : FenceInv feed s) (hpool : PoolInv cfg s) (hflow : FlowInv feed s)
    (hjob : JobInv s) (hm : Step cfg s a t) : FenceInv feed t := by
  cases hm with
  | noTerminal | busy | inputClosed | noInput | exitSelect | selectClosed | take | finishForeign
  | finish | put | close | foreign => exact h.frame (.refl _) h.fenced rfl rfl rfl
  | dropTerminal _ hi hw hq => exact h.drop hw hq rfl rfl hi.1 rfl
  | @takeTerminal w hp hi hw hq =>
    have hmem := List.mem_of_find?_eq_some hw
    have hready := List.find?_some hw
    refine h.makeReady (.refl _) h.fenced (fun _ => List.mem_of_mem_eraseP) rfl fun id e he => ?_
    simp only [Option.some.injEq, SettlementJob.mk.injEq, Work.terminal.injEq] at he
    obtain ⟨-, rfl⟩ := he
    exact ⟨w.orderID, (h.waiting w hmem).1, h.release hpool hflow hjob hmem hready hq, hready⟩
  | duplicate hp hi ht hx hd =>
    exact (h.taken ht).refuse (hflow.taken hp hi.1 ht) hx (ht.waiting_eq ▸ hd)
  | @wait e x s' hp hi ht hx hd =>
    have := (h.taken ht).wait (hflow.taken hp hi.1 ht) hx
    rwa [ht.waiting_eq] at this
  | start _ _ ht => exact (h.taken ht).frame (.refl _) (h.taken ht).fenced rfl rfl rfl
  | collectTrade | input => exact h.frame (.received _ _) h.fenced rfl rfl rfl
  | collectTerminal =>
    exact h.makeReady (.received _ _) h.fenced (fun _ hw => hw) rfl (by simp [finishBatch])
  | collectClosed | collectDone =>
    exact h.makeReady (.refl _) h.fenced (fun _ hw => hw) rfl (by simp [finishBatch])
  | exitReturn => exact h.flush.frame (.refl _) h.flush.fenced rfl rfl rfl
  | dispatch _ hr => exact h.dispatch hr rfl rfl rfl rfl
  | completeTerminal _ hc => exact h.complete hpool hjob hc rfl rfl rfl rfl
  | completeTrade _ hc =>
    refine FenceInv.flush ?_
    exact h.complete hpool hjob hc rfl rfl rfl rfl

theorem reach_fence (h : Lts.Reach (step cfg) ok (init feed) s) :
    FenceInv feed s :=
  h.invariant _ (init_fence feed) fun _ _ _ hr hi _ hs =>
    hi.move (reach_pool hr) (reach_flow hr) (reach_job hr) (move_of_step hs)

/-- What the dispatcher guarantees in every state it reaches: the fence before each terminal it
hands out, trades in queue order, nothing twice; and when it returns, every trade has been
handed out and every terminal that was not belongs to an order reported undurable. -/
theorem dispatcher_fence (cfg : Config) (feed : Feed) (s : State)
    (h : Lts.Reach (step cfg) Lts.free (init feed) s) :
    (∀ post pre id e x, s.history = post ++ .dispatched ⟨id, .terminal e⟩ :: pre →
      e.event.terminalOrder? = some x → Released feed pre e x) ∧
    dispatchedTrades s.history <+: feed.events.filter isTrade ∧
    (dispatchedTerminals s.history).Nodup ∧ dispatchedTerminals s.history ⊆ feed.events ∧
    (s.position = .returned →
      dispatchedTrades s.history = feed.events.filter isTrade ∧
      (feed.TerminalsUnique → ∀ e ∈ feed.events, ∀ x, e.event.terminalOrder? = some x →
        e ∉ dispatchedTerminals s.history →
        ∃ res ∈ results s.history, x ∈ res.undurableOrderIDs)) := by
  have hflow := reach_flow h
  have hfence := reach_fence h
  refine ⟨fun post pre id e x hs hx => ?_, ?_, ?_, fun e he => ?_, fun hret => ?_⟩
  · exact (hs ▸ hfence.fenced).released hx
  · exact hflow.trades_prefix
  · refine List.nodup_iff_count_le_one.mpr fun e => ?_
    have := hflow.places_le_one e
    unfold State.places at this
    omega
  · have := List.count_pos_iff.mpr he
    exact hflow.mem_feed (by unfold State.places; omega)
  · obtain ⟨-, hr, hc, hw⟩ := (reach_input h).returned hret
    have hfeed := hflow.received_returned (reach_input h) hret
    refine ⟨hflow.trades_returned (reach_input h) hret, fun huniq e he x hx hnot => ?_⟩
    -- the terminal was read, and is neither handed out nor in hand any more
    have hcount := hflow.terminals_eq e
    have hpos : 0 < (feed.events.filter (fun e => !isTrade e)).count e :=
      List.count_pos_iff.mpr (List.mem_filter.mpr ⟨he, by simp [isTrade_of_terminal hx]⟩)
    simp [hfeed, State.terminalsInHand, hr, hc, hw, List.count_eq_zero.mpr hnot] at hcount
    by_cases hd : e ∈ dropped s.history
    · obtain ⟨y, hy, res, hres, hyr⟩ := hfence.dropped e hd
      obtain rfl : x = y := Option.some.inj (hx.symm.trans hy)
      exact ⟨res, hres, hyr⟩
    · have hdup : e ∈ duplicates s.history := by
        rw [← List.count_pos_iff]
        have := List.count_eq_zero.mpr hd
        omega
      obtain ⟨y, hy, e', he', hne, hy'⟩ := hfence.duplicate e hdup
      exact absurd (huniq e' he' e he y hy' hy) hne

/-- A trade of orders 1 and 2, then the cancellation of order 1. -/
def cancelFeed : Feed where
  events :=
    [⟨1, .trade ⟨⟨1, 1⟩, "BTC", 1, 1, 1, 2⟩⟩, ⟨2, .orderCancelled ⟨1, 1, "BTC", .buy, ⟨1, 2⟩⟩⟩]
  outboxIDs_nodup := by decide

/-- The cancellation waits for the batch, then runs, then the dispatcher returns. -/
def cancelRun : List Label :=
  [.put, .put, .close, .advance, .advance, .advance, .advance, .dispatch, .take, .finish 0 [] [],
   .advance, .advance, .advance, .advance, .advance, .complete, .advance, .advance, .advance,
   .dispatch, .take, .finish 0 [] [], .advance, .advance, .advance, .complete, .advance, .advance,
   .advance]

theorem dispatcher_fence_cancelFeed :
    ∃ s, Lts.exec (step singleWorker) cancelRun (init cancelFeed) = some s ∧
    s.position = .returned ∧
      dispatchedTrades s.history = cancelFeed.events.filter isTrade ∧
      dispatchedTerminals s.history ⊆ cancelFeed.events := by
  refine ⟨_, rfl, rfl, ?_⟩
  have h := dispatcher_fence singleWorker cancelFeed _ (Lts.reach_of_exec cancelRun rfl)
  exact ⟨(h.2.2.2.2 rfl).1, h.2.2.2.1⟩

end GoExchange.Dispatcher
