import GoExchange.Dispatcher

/-!
# The dispatcher's accounting of its jobs

Every job handed out and not yet retired is in exactly one place: the job
channel, a worker, or the completion channel. The tracker's table lists the
same ids, so its count bounds all three.
-/
namespace GoExchange.Dispatcher

variable {cfg : Config} {s t : State} {a : Label} {ok : State → Label → Prop}
  {rest : List SettlementResult} {x : Option SettlementJob}

/-- The ids of this partition's jobs in the job channel or the pool. -/
def ownIDs (l : List (Option SettlementJob)) : List Nat := l.filterMap (Option.map SettlementJob.id)

@[simp] theorem ownIDs_nil : ownIDs [] = [] := rfl

@[simp] theorem ownIDs_append (l m : List (Option SettlementJob)) :
    ownIDs (l ++ m) = ownIDs l ++ ownIDs m := List.filterMap_append

@[simp] theorem ownIDs_some (job : SettlementJob) (l : List (Option SettlementJob)) :
    ownIDs (some job :: l) = job.id :: ownIDs l := rfl

@[simp] theorem ownIDs_none (l : List (Option SettlementJob)) : ownIDs (none :: l) = ownIDs l := rfl

/-- The ids of the jobs in flight. -/
def State.inFlightIDs (s : State) : List Nat :=
  ownIDs s.jobs ++ ownIDs s.running ++ s.completions.map SettlementResult.id

def State.registeredIDs (s : State) : List Nat := s.dep.dispatched.map Prod.fst

/-- `flushBroadcasts` only moves pending results into the history. -/
theorem flushLoop_eq (fuel : Nat) (s : State) :
    ∃ (p : List (Nat × SettlementResult)) (ms : List BroadcastMessage) (n : Nat),
      State.flushLoop fuel s =
      { s with
        pending := p, history := ms.map Action.broadcast ++ s.history, nextBroadcast := n } := by
  induction fuel generalizing s with
  | zero => exact ⟨s.pending, [], s.nextBroadcast, rfl⟩
  | succ fuel ih =>
    cases hl : s.pending.lookup s.nextBroadcast with
    | none => exact ⟨s.pending, [], s.nextBroadcast, by simp [State.flushLoop, hl]⟩
    | some res =>
      obtain ⟨p, ms, n, h⟩ := ih { s with
        pending := s.pending.filter (fun p => p.1 != s.nextBroadcast)
        history := (res.messages.map Action.broadcast).reverse ++ s.history
        nextBroadcast := s.nextBroadcast + 1 }
      refine ⟨p, ms ++ res.messages.reverse, n, ?_⟩
      simp only [State.flushLoop, hl, h, List.map_append, List.map_reverse, List.append_assoc]

theorem flushBroadcasts_eq (s : State) :
    ∃ (p : List (Nat × SettlementResult)) (ms : List BroadcastMessage) (n : Nat),
      s.flushBroadcasts =
      { s with
        pending := p, history := ms.map Action.broadcast ++ s.history, nextBroadcast := n } :=
  flushLoop_eq s.pending.length s

@[simp] theorem resultOf_id (job : SettlementJob) (messages : List BroadcastMessage)
    (undurable : List Nat) : (resultOf job messages undurable).id = job.id := by
  unfold resultOf; split <;> rfl

theorem Work.orders_nodup (w : Work) : w.orders.Nodup := by
  cases w with
  | trade seq batch => exact DependencyTracker.touchedOrderIDs_nodup batch
  | terminal e => exact List.nodup_nil

/-- The tracker's table, the channels and the pool agree. -/
structure PoolInv (cfg : Config) (s : State) : Prop where
  consistent : s.dep.Consistent
  ids : s.inFlightIDs.Perm s.registeredIDs
  fresh : ∀ id ∈ s.registeredIDs, id < s.nextJobID
  ready : ∀ job, s.readyJob = some job →
    job.id < s.nextJobID ∧ job.id ∉ s.registeredIDs ∧ s.dep.outstanding < cfg.maxOutstanding
  collecting : ∀ batch, s.position = .collect batch → s.Idle cfg
  outstanding_le : s.dep.outstanding ≤ cfg.maxOutstanding
  jobs_le : s.jobs.length ≤ cfg.concurrency
  running_le : s.running.length ≤ cfg.concurrency

theorem init_pool (cfg : Config) (feed : Feed) : PoolInv cfg (init feed) where
  consistent := DependencyTracker.new_consistent
  ids := by simp [init, State.inFlightIDs, State.registeredIDs, DependencyTracker.new]
  fresh := by simp [init, State.registeredIDs, DependencyTracker.new]
  ready := by simp [init]
  collecting := by simp [init]
  outstanding_le := Nat.zero_le _
  jobs_le := Nat.zero_le _
  running_le := Nat.zero_le _

theorem ownIDs_perm_eraseIdx {l : List (Option SettlementJob)} {i : Nat}
    (h : l[i]? = some x) : (ownIDs l).Perm (ownIDs [x] ++ ownIDs (l.eraseIdx i)) := by
  obtain ⟨hi, rfl⟩ := List.getElem?_eq_some_iff.mp h
  have hp : l.Perm (l[i] :: l.eraseIdx i) := (List.getElem_cons_eraseIdx_perm hi).symm
  rw [← ownIDs_append]
  exact hp.filterMap _

/-- A move that touches no job keeps the accounting. -/
theorem PoolInv.frame (h : PoolInv cfg s) (hd : t.dep = s.dep) (hj : t.jobs = s.jobs)
    (hr : t.running = s.running) (hc : t.completions = s.completions)
    (hn : t.nextJobID = s.nextJobID) (hrj : t.readyJob = s.readyJob)
    (hp : ∀ batch, t.position = .collect batch → s.Idle cfg) : PoolInv cfg t where
  consistent := hd ▸ h.consistent
  ids := by simpa [State.inFlightIDs, State.registeredIDs, hj, hr, hc, hd] using h.ids
  fresh := by simpa [State.registeredIDs, hd, hn] using h.fresh
  ready := by simpa [State.registeredIDs, hd, hn, hrj] using h.ready
  collecting := fun batch hb => by simpa [State.Idle, hd, hrj] using hp batch hb
  outstanding_le := hd ▸ h.outstanding_le
  jobs_le := hj ▸ h.jobs_le
  running_le := hr ▸ h.running_le

/-- A job is made ready: it gets the next id. -/
theorem PoolInv.makeReady (h : PoolInv cfg s) (hi : s.Idle cfg) (w : Work) (hd : t.dep = s.dep)
    (hj : t.jobs = s.jobs) (hr : t.running = s.running) (hc : t.completions = s.completions)
    (hn : t.nextJobID = s.nextJobID + 1) (hrj : t.readyJob = some ⟨s.nextJobID, w⟩)
    (hp : ∀ batch, t.position ≠ .collect batch) : PoolInv cfg t where
  consistent := hd ▸ h.consistent
  ids := by simpa [State.inFlightIDs, State.registeredIDs, hj, hr, hc, hd] using h.ids
  fresh := fun id hid => by
    have := h.fresh id (by simpa [State.registeredIDs, hd] using hid)
    omega
  ready := fun job hjob => by
    obtain rfl : job = ⟨s.nextJobID, w⟩ := Option.some.inj (hjob.symm.trans hrj)
    refine ⟨by simp [hn], fun hid => ?_, hd ▸ hi.2⟩
    exact lt_irrefl _ (h.fresh _ (by simpa [State.registeredIDs, hd] using hid))
  collecting := fun batch hb => absurd hb (hp batch)
  outstanding_le := hd ▸ h.outstanding_le
  jobs_le := hj ▸ h.jobs_le
  running_le := hr ▸ h.running_le

/-- The completion at the head of the channel belongs to a registered job. -/
theorem PoolInv.lookup_of_completion (h : PoolInv cfg s) {res : SettlementResult}
    (hc : s.completions = res :: rest) :
    ∃ orders, s.dep.dispatched.lookup res.id = some orders := by
  have hm : res.id ∈ s.registeredIDs := h.ids.subset (by simp [State.inFlightIDs, hc])
  obtain ⟨p, hp, he⟩ := List.mem_map.mp hm
  cases hl : s.dep.dispatched.lookup res.id with
  | some orders => exact ⟨orders, rfl⟩
  | none =>
    have := List.lookup_eq_none_iff.mp hl p hp
    simp [he] at this

theorem PoolInv.dispatch (h : PoolInv cfg s) {job : SettlementJob} (hr : s.readyJob = some job)
    (hj : s.jobs.length < cfg.concurrency) :
    PoolInv cfg { s with
      jobs := s.jobs ++ [some job]
      dep := s.dep.register job.id job.work.orders
      readyJob := none
      history := .dispatched job :: s.history
      position := .terminals } := by
  obtain ⟨hlt, hnot, hout⟩ := h.ready job hr
  have hf := DependencyTracker.filter_fresh hnot
  refine ⟨?_, ?_, ?_, by simp, by simp, hout, ?_, h.running_le⟩
  · exact DependencyTracker.register_consistent h.consistent hnot job.work.orders_nodup
  · have hp := h.ids.cons job.id
    simp only [State.inFlightIDs, State.registeredIDs, DependencyTracker.register, hf,
      ownIDs_append, ownIDs_some, ownIDs_nil, List.map_cons, List.append_assoc] at hp ⊢
    exact List.perm_middle.trans hp
  · intro id hid
    simp only [State.registeredIDs, DependencyTracker.register, hf, List.map_cons, List.mem_cons]
      at hid
    exact hid.elim (fun he => he ▸ hlt) (h.fresh id)
  · simp only [List.length_append, List.length_singleton]; omega

theorem PoolInv.complete (h : PoolInv cfg s) {res : SettlementResult}
    (hc : s.completions = res :: rest)
    (hd : t.dep = s.dep.retire res.id res.undurableOrderIDs) (hj : t.jobs = s.jobs)
    (hr : t.running = s.running) (htc : t.completions = rest) (hn : t.nextJobID = s.nextJobID)
    (hrj : t.readyJob = s.readyJob) (htp : t.position = .terminals) : PoolInv cfg t := by
  obtain ⟨orders, hl⟩ := h.lookup_of_completion hc
  have hsplit := Rows.perm_cons_lookup h.consistent.ids_nodup hl
  rw [DependencyTracker.retire_eq hl] at hd
  -- the retired id leaves both sides
  have hids : t.inFlightIDs.Perm t.registeredIDs := by
    have h₁ : s.registeredIDs.Perm (res.id :: t.registeredIDs) := by
      simpa [State.registeredIDs, hd] using hsplit.map Prod.fst
    have h₂ : s.inFlightIDs.Perm (res.id :: t.inFlightIDs) := by
      simp only [State.inFlightIDs, hc, hj, hr, htc, List.map_cons]
      exact List.perm_middle
    exact (List.perm_cons res.id).mp (h₂.symm.trans (h.ids.trans h₁))
  have hsub : ∀ id ∈ t.registeredIDs, id ∈ s.registeredIDs := by
    intro id hid
    simp only [State.registeredIDs, hd] at hid
    exact (List.filter_sublist.map Prod.fst).subset hid
  have hout : t.dep.outstanding ≤ s.dep.outstanding := by simp [DependencyTracker.outstanding, hd]
  refine ⟨?_, hids, ?_, ?_, ?_, hout.trans h.outstanding_le, hj ▸ h.jobs_le, hr ▸ h.running_le⟩
  · have := DependencyTracker.retire_consistent h.consistent res.id res.undurableOrderIDs
    rwa [DependencyTracker.retire_eq hl, ← hd] at this
  · exact fun id hid => hn ▸ h.fresh id (hsub id hid)
  · intro job hjob
    obtain ⟨h₁, h₂, h₃⟩ := h.ready job (hrj ▸ hjob)
    exact ⟨hn ▸ h₁, fun hid => h₂ (hsub _ hid), lt_of_le_of_lt hout h₃⟩
  · simp [htp]

theorem PoolInv.take (h : PoolInv cfg s) {job : Option SettlementJob}
    {rest : List (Option SettlementJob)} (hj : s.jobs = job :: rest)
    (hr : s.running.length < cfg.concurrency) :
    PoolInv cfg { s with jobs := rest, running := s.running ++ [job] } := by
  refine ⟨h.consistent, ?_, h.fresh, h.ready, h.collecting, h.outstanding_le, ?_, ?_⟩
  · refine List.Perm.trans ?_ h.ids
    have hs : ownIDs s.jobs = ownIDs [job] ++ ownIDs rest := by rw [hj, ← ownIDs_append]; rfl
    simp only [State.inFlightIDs, hs, ownIDs_append]
    refine List.Perm.append_right _ ?_
    rw [← List.append_assoc]
    exact List.perm_append_comm.trans (by rw [List.append_assoc])
  · have := h.jobs_le
    simp only [hj, List.length_cons] at this ⊢
    omega
  · simp only [List.length_append, List.length_singleton]; omega

/-- A worker's job leaves the pool, into the completion channel if it is our own. -/
theorem PoolInv.finish (h : PoolInv cfg s) {i : Nat}
    (hx : s.running[i]? = some x) {r : List SettlementResult}
    (hrs : r.map SettlementResult.id = ownIDs [x]) :
    PoolInv cfg { s with running := s.running.eraseIdx i, completions := s.completions ++ r } := by
  refine ⟨h.consistent, ?_, h.fresh, h.ready, h.collecting, h.outstanding_le, h.jobs_le, ?_⟩
  · refine List.Perm.trans ?_ h.ids
    have hp := ownIDs_perm_eraseIdx hx
    simp only [State.inFlightIDs, List.map_append, hrs, List.append_assoc]
    refine List.Perm.append_left _ (List.Perm.trans ?_ (hp.symm.append_right _))
    rw [← List.append_assoc]
    exact List.perm_append_comm.trans (by rw [← List.append_assoc])
  · exact (List.length_eraseIdx_le _ _).trans h.running_le

/-- The accounting holds across every move. -/
theorem PoolInv.move (h : PoolInv cfg s) (hm : Step cfg s a t) : PoolInv cfg t := by
  cases hm with
  | noTerminal | busy | inputClosed | noInput | exitSelect | input | selectClosed | put | close =>
    exact h.frame rfl rfl rfl rfl rfl rfl (by simp <;> exact h.collecting)
  | dropTerminal =>
    exact ⟨DependencyTracker.clearQuarantine_consistent h.consistent _, h.ids, h.fresh, h.ready,
      by simp, h.outstanding_le, h.jobs_le, h.running_le⟩
  | takeTerminal _ hi => exact h.makeReady hi _ rfl rfl rfl rfl rfl rfl (by simp)
  | duplicate _ _ ht | wait _ _ ht =>
    cases ht <;> exact h.frame rfl rfl rfl rfl rfl rfl (by simp)
  | start _ hi ht => cases ht <;> exact h.frame rfl rfl rfl rfl rfl rfl fun _ _ => hi
  | collectTrade hp => exact h.frame rfl rfl rfl rfl rfl rfl fun _ _ => h.collecting _ hp
  | collectTerminal hp | collectClosed hp | collectDone hp =>
    exact h.makeReady (h.collecting _ hp) _ rfl rfl rfl rfl rfl rfl (by simp [finishBatch])
  | exitReturn =>
    obtain ⟨p, ms, n, he⟩ := flushBroadcasts_eq s
    rw [he]
    exact h.frame rfl rfl rfl rfl rfl rfl (by simp)
  | dispatch _ hr hj => exact h.dispatch hr hj
  | completeTerminal _ hc => exact h.complete hc rfl rfl rfl rfl rfl rfl rfl
  | completeTrade _ hc =>
    obtain ⟨p, ms, n, he⟩ := flushBroadcasts_eq _
    rw [he]
    exact h.complete hc rfl rfl rfl rfl rfl rfl rfl
  | take hj hr => exact h.take hj hr
  | finishForeign hr => simpa using h.finish (r := []) hr rfl
  | finish hr => exact h.finish hr (by simp)
  | foreign hj =>
    refine ⟨h.consistent, ?_, h.fresh, h.ready, h.collecting, h.outstanding_le, ?_, h.running_le⟩
    · simpa [State.inFlightIDs, State.registeredIDs] using h.ids
    · simp only [List.length_append, List.length_singleton]; omega

theorem reach_pool {feed : Feed}
    (h : Lts.Reach (step cfg) ok (init feed) s) : PoolInv cfg s :=
  h.invariant _ (init_pool cfg feed) fun _ _ _ _ hi _ hs => hi.move (move_of_step hs)

/-- The jobs in flight, counted: at most twice the concurrency. -/
theorem PoolInv.inFlight_length (h : PoolInv cfg s) :
    (ownIDs s.jobs).length + (ownIDs s.running).length + s.completions.length =
      s.dep.outstanding := by
  have hl := h.ids.length_eq
  simp only [State.inFlightIDs, State.registeredIDs, List.length_append, List.length_map] at hl
  rw [hl]
  exact h.consistent.jobs_eq.symm

/-- While a worker holds one of our jobs, the completion channel has room for its result. -/
theorem PoolInv.completions_lt (h : PoolInv cfg s) {job : SettlementJob}
    (hr : some job ∈ s.running) : s.completions.length < cfg.maxOutstanding := by
  have hlen := h.inFlight_length
  have hle := h.outstanding_le
  have hm : job.id ∈ ownIDs s.running := List.mem_filterMap.mpr ⟨some job, hr, rfl⟩
  have hpos := List.length_pos_of_mem hm
  omega

/-! ## The input side -/

/-- The queue is closed after the last event, read as closed only when it is empty, and the
dispatcher returns only when nothing is left in its hands. -/
structure InputInv (s : State) : Prop where
  closed_source : s.closed = true → s.source = []
  open_or_drained : s.queueOpen = false → s.closed = true ∧ s.queue = []
  returned : s.position = .returned →
    s.queueOpen = false ∧ s.readyJob = none ∧ s.carry = none ∧ s.waiting = []

theorem init_input (feed : Feed) : InputInv (init feed) := by
  constructor <;> simp [init]

theorem InputInv.queueOpen_of_cons (h : InputInv s) {e : OutboxEvent} {rest : List OutboxEvent}
    (hq : s.queue = e :: rest) : s.queueOpen = true := by
  by_contra ho
  have := (h.open_or_drained (by simpa using ho)).2
  simp [hq] at this

theorem InputInv.drained (h : InputInv s) (ho : s.queueOpen = false) :
    s.queue ++ s.source = [] := by
  obtain ⟨hcl, hq⟩ := h.open_or_drained ho
  simp [hq, h.closed_source hcl]

theorem InputInv.move (h : InputInv s) (hm : Step cfg s a t) : InputInv t := by
  cases hm with
  | noTerminal | dropTerminal | takeTerminal | busy | noInput | exitSelect | dispatch
  | completeTerminal => exact ⟨h.closed_source, h.open_or_drained, by simp⟩
  | duplicate _ _ ht | wait _ _ ht | start _ _ ht =>
    cases ht with
    | carried => exact ⟨h.closed_source, h.open_or_drained, by simp⟩
    | fromQueue _ ho => exact ⟨h.closed_source, by simp [ho], by simp⟩
  | inputClosed _ _ _ _ hq hcl | selectClosed _ _ _ _ hq hcl =>
    exact ⟨h.closed_source, fun _ => ⟨hcl, hq⟩, by simp⟩
  | collectTrade _ hq | collectTerminal _ hq =>
    exact ⟨h.closed_source, by simp [finishBatch, h.queueOpen_of_cons hq],
      by simp [finishBatch]⟩
  | collectClosed _ hq hcl => exact ⟨h.closed_source, fun _ => ⟨hcl, hq⟩, by simp [finishBatch]⟩
  | collectDone => exact ⟨h.closed_source, h.open_or_drained, by simp [finishBatch]⟩
  | exitReturn _ ho hr _ hc hw =>
    obtain ⟨p, ms, n, he⟩ := flushBroadcasts_eq s
    rw [he]
    exact ⟨h.closed_source, h.open_or_drained, fun _ => ⟨ho, hr, hc, hw⟩⟩
  | completeTrade =>
    obtain ⟨p, ms, n, he⟩ := flushBroadcasts_eq _
    rw [he]
    exact ⟨h.closed_source, h.open_or_drained, by simp⟩
  | input _ ho => exact ⟨h.closed_source, by simp [ho], by simp⟩
  | take | finishForeign | finish | foreign =>
    exact ⟨h.closed_source, h.open_or_drained, h.returned⟩
  | put hs =>
    refine ⟨fun hcl => ?_, fun ho => ?_, h.returned⟩
    · simpa [hs] using h.closed_source hcl
    · simpa [hs] using h.closed_source (h.open_or_drained ho).1
  | close hs => exact ⟨fun _ => hs, fun ho => ⟨rfl, (h.open_or_drained ho).2⟩, h.returned⟩

theorem reach_input {feed : Feed}
    (h : Lts.Reach (step cfg) ok (init feed) s) : InputInv s :=
  h.invariant _ (init_input feed) fun _ _ _ _ hi _ hs => hi.move (move_of_step hs)

end GoExchange.Dispatcher
