import GoExchange.DispatcherFence
import GoExchange.Reorder

/-!
# The dispatcher broadcasts in queue order

Batches complete in any order. Each carries a broadcast number, and `pending`
with `flushBroadcasts` is a reorder buffer over these numbers: the messages of a
batch go out after those of every batch taken from the queue before it.
-/
namespace GoExchange.Dispatcher

open Reorder (Buffer Ordered)

variable {cfg : Config} {feed : Feed} {s t : State} {a : Label} {b : Buffer SettlementResult}
  {job : SettlementJob} {res : SettlementResult} {ok : State → Label → Prop}
  {rest : List SettlementResult} {i : Nat}

/-- The broadcast number of a batch; a terminal has none. -/
def SettlementJob.seq? (job : SettlementJob) : Option Nat :=
  match job.work with
  | .trade seq _ => some seq
  | .terminal _ => none

/-- The batches handed out, in that order. -/
def tradeJobs (h : List Action) : List SettlementJob :=
  (dispatchedJobs h).filter (fun job => job.seq?.isSome)

def Action.message : Action → List BroadcastMessage
  | .broadcast m => [m]
  | _ => []

/-- The messages broadcast, oldest first. -/
def broadcasts (h : List Action) : List BroadcastMessage := inOrder Action.message h

@[simp] theorem broadcasts_cons (x : Action) (h : List Action) :
    broadcasts (x :: h) = broadcasts h ++ x.message := inOrder_cons _ x h

theorem broadcasts_append (ms : List BroadcastMessage) (h : List Action) :
    broadcasts ((ms.map Action.broadcast).reverse ++ h) = broadcasts h ++ ms := by
  simp [broadcasts, inOrder, List.flatMap_map, Action.message]

/-- The results of batches, each under its number, in the order they were retired. -/
def numbered (rs : List SettlementResult) : List (Nat × SettlementResult) :=
  rs.filterMap (fun res => res.seq.map (fun seq => (seq, res)))

theorem mem_numbered {rs : List SettlementResult} {p : Nat × SettlementResult} :
    p ∈ numbered rs ↔ p.2 ∈ rs ∧ p.2.seq = some p.1 := by
  obtain ⟨k, r⟩ := p
  simp only [numbered, List.mem_filterMap, Option.map_eq_some_iff, Prod.mk.injEq]
  constructor
  · rintro ⟨res, hres, seq, hs, rfl, rfl⟩
    exact ⟨hres, hs⟩
  · rintro ⟨hr, hs⟩
    exact ⟨r, hr, k, hs, rfl, rfl⟩

/-! ## The buffer -/

/-- `pending` and what was broadcast are those of a reorder buffer. -/
structure Mirrors (s : State) (b : Buffer SettlementResult) : Prop where
  pending : s.pending = b.pending
  next : s.nextBroadcast = b.next
  out : broadcasts s.history = b.out.flatMap SettlementResult.messages

theorem Mirrors.flushLoop (fuel : Nat) (h : Mirrors s b) :
    Mirrors (State.flushLoop fuel s) (b.flush fuel) := by
  induction fuel generalizing s b with
  | zero => exact h
  | succ fuel ih =>
    simp only [State.flushLoop, Buffer.flush, h.pending, h.next]
    cases b.pending.lookup b.next with
    | none => exact h
    | some res =>
      apply ih
      refine ⟨rfl, rfl, ?_⟩
      simp only [Buffer.send, List.flatMap_append, List.flatMap_singleton, ← h.out]
      exact broadcasts_append res.messages s.history

/-- The buffer has sent every batch up to the first that is not retired. -/
def Buffered (s : State) : Prop :=
  ∃ b, Mirrors s b ∧ Ordered (numbered (results s.history)) b ∧ b.Settled

theorem Buffered.frame (h : Buffered s) (hp : t.pending = s.pending)
    (hn : t.nextBroadcast = s.nextBroadcast) (hb : broadcasts t.history = broadcasts s.history)
    (hr : numbered (results t.history) = numbered (results s.history)) : Buffered t := by
  obtain ⟨b, hm, ho, hs⟩ := h
  exact ⟨b, ⟨hp.trans hm.pending, hn.trans hm.next, hb.trans hm.out⟩, hr ▸ ho, hs⟩

theorem buffered_flush (hm : Mirrors s b) (ho : Ordered (numbered (results s.history)) b) :
    Buffered s.flushBroadcasts := by
  refine ⟨b.flush s.pending.length, hm.flushLoop _, ?_, ?_⟩
  · rw [(SameRecords.flush s).results]
    exact ho.flush _
  · exact ho.settled_flush _ (hm.pending ▸ le_rfl)

/-! ## Jobs and results -/

/-- Nothing was handed out, retired or broadcast in between. -/
structure SameJobs (h h' : List Action) : Prop where
  dispatchedJobs : dispatchedJobs h' = dispatchedJobs h
  results : results h' = results h
  broadcasts : broadcasts h' = broadcasts h

theorem SameJobs.refl (h : List Action) : SameJobs h h := ⟨rfl, rfl, rfl⟩

theorem SameJobs.cons {x : Action} (hd : x.dispatchedJob = []) (hr : x.result = [])
    (hb : x.message = []) (h : List Action) : SameJobs h (x :: h) := by
  constructor <;> simp [-Action.dispatchedJob, -Action.result, hd, hr, hb]

theorem SameJobs.received (e : OutboxEvent) (h : List Action) : SameJobs h (.received e :: h) :=
  .cons rfl rfl rfl h

/-- The batches are numbered in the order they are made ready, every job handed out is retired
or registered, and every result is that of a job handed out. -/
structure DeliverInv (s : State) : Prop where
  nextSeq_pos : 0 < s.nextSeq
  numbers : (dispatchedJobs s.history ++ s.readyJob.toList).filterMap SettlementJob.seq? =
    List.range' 1 (s.nextSeq - 1)
  ids_nodup : ((dispatchedJobs s.history).map SettlementJob.id).Nodup
  ids : ((dispatchedJobs s.history).map SettlementJob.id).Perm
    ((results s.history).map SettlementResult.id ++ s.registeredIDs)
  owned : ∀ job, some job ∈ s.jobs ++ s.running → job ∈ dispatchedJobs s.history
  answered : ∀ res ∈ s.completions ++ results s.history,
    ∃ job ∈ dispatchedJobs s.history, res = resultOf job res.messages res.undurableOrderIDs
  buffered : Buffered s

theorem init_deliver (feed : Feed) : DeliverInv (init feed) where
  nextSeq_pos := Nat.one_pos
  numbers := rfl
  ids_nodup := List.nodup_nil
  ids := .nil
  owned := by simp [init]
  answered := by simp [init, results]
  buffered := ⟨.empty, ⟨rfl, rfl, rfl⟩, Reorder.ordered_empty, rfl⟩

/-- A move that hands out and retires nothing. -/
theorem DeliverInv.keep (h : DeliverInv s)
    (hdj : dispatchedJobs t.history = dispatchedJobs s.history)
    (hres : results t.history = results s.history) (hr : t.readyJob = s.readyJob)
    (hn : t.nextSeq = s.nextSeq) (hd : t.dep.dispatched = s.dep.dispatched)
    (hj : ∀ job, some job ∈ t.jobs ++ t.running → some job ∈ s.jobs ++ s.running)
    (hc : t.completions = s.completions) (hb : Buffered t) : DeliverInv t where
  nextSeq_pos := hn ▸ h.nextSeq_pos
  numbers := by simpa [hdj, hr, hn] using h.numbers
  ids_nodup := by simpa [hdj] using h.ids_nodup
  ids := by simpa [hdj, hres, State.registeredIDs, hd] using h.ids
  owned := fun job hjob => hdj ▸ h.owned job (hj job hjob)
  answered := by simpa [hdj, hres, hc] using h.answered
  buffered := hb

/-- A move that broadcasts nothing either. -/
theorem DeliverInv.frame (h : DeliverInv s) (hh : SameJobs s.history t.history)
    (hr : t.readyJob = s.readyJob) (hn : t.nextSeq = s.nextSeq)
    (hd : t.dep.dispatched = s.dep.dispatched)
    (hj : ∀ job, some job ∈ t.jobs ++ t.running → some job ∈ s.jobs ++ s.running)
    (hc : t.completions = s.completions) (hp : t.pending = s.pending)
    (hnb : t.nextBroadcast = s.nextBroadcast) : DeliverInv t := by
  have hb := h.buffered.frame hp hnb hh.broadcasts (by rw [hh.results])
  exact h.keep hh.dispatchedJobs hh.results hr hn hd hj hc hb

/-- A job is made ready; a batch takes the next number. -/
theorem DeliverInv.makeReady (h : DeliverInv s) (hidle : s.readyJob = none)
    (hh : SameJobs s.history t.history) (hr : t.readyJob = some job) (hpos : 0 < t.nextSeq)
    (hn : List.range' 1 (t.nextSeq - 1) = List.range' 1 (s.nextSeq - 1) ++ job.seq?.toList)
    (hd : t.dep.dispatched = s.dep.dispatched) (hj : t.jobs = s.jobs) (hrun : t.running = s.running)
    (hc : t.completions = s.completions) (hp : t.pending = s.pending)
    (hnb : t.nextBroadcast = s.nextBroadcast) : DeliverInv t where
  nextSeq_pos := hpos
  numbers := by
    have hs := h.numbers
    rw [hidle, Option.toList_none, List.append_nil] at hs
    rw [hh.dispatchedJobs, hr, hn, List.filterMap_append, hs]
    cases hq : job.seq? <;> simp [hq]
  ids_nodup := by simpa [hh.dispatchedJobs] using h.ids_nodup
  ids := by simpa [hh.dispatchedJobs, hh.results, State.registeredIDs, hd] using h.ids
  owned := by simpa [hh.dispatchedJobs, hj, hrun] using h.owned
  answered := by simpa [hh.dispatchedJobs, hh.results, hc] using h.answered
  buffered := h.buffered.frame hp hnb hh.broadcasts (by rw [hh.results])

theorem DeliverInv.taken (h : DeliverInv s) {e : OutboxEvent} (ht : Taken s e t) :
    DeliverInv t := by
  cases ht with
  | carried => exact h.frame (.refl _) rfl rfl rfl (fun _ hj => hj) rfl rfl rfl
  | fromQueue => exact h.frame (.received _ _) rfl rfl rfl (fun _ hj => hj) rfl rfl rfl

/-- A worker reports its job. -/
theorem DeliverInv.finish (h : DeliverInv s)
    (hr : s.running[i]? = some (some job)) {messages : List BroadcastMessage}
    {undurable : List Nat} : DeliverInv { s with
      running := s.running.eraseIdx i
      completions := s.completions ++ [resultOf job messages undurable] } := by
  refine ⟨h.nextSeq_pos, h.numbers, h.ids_nodup, h.ids, fun j hj => ?_, fun res hres => ?_,
    h.buffered.frame rfl rfl rfl rfl⟩
  · apply h.owned j
    exact (List.mem_append.mp hj).elim (List.mem_append_left _) fun hj =>
      List.mem_append_right _ (List.mem_of_mem_eraseIdx hj)
  · simp only [List.mem_append, List.mem_singleton] at hres
    rcases hres with (hres | rfl) | hres
    · exact h.answered res (List.mem_append_left _ hres)
    · refine ⟨job, h.owned job (List.mem_append_right _ (List.mem_of_getElem? hr)), ?_⟩
      unfold resultOf
      cases job.work <;> rfl
    · exact h.answered res (List.mem_append_right _ hres)

theorem range_succ {n : Nat} (hn : 0 < n) :
    List.range' 1 (n + 1 - 1) = List.range' 1 (n - 1) ++ [n] := by
  obtain ⟨m, rfl⟩ := Nat.exists_eq_add_of_lt hn
  simp [List.range'_concat, Nat.add_comm]

theorem DeliverInv.dispatch (h : DeliverInv s) (hpool : PoolInv cfg s) (hjob : JobInv s)
    (hr : s.readyJob = some job) : DeliverInv { s with
      jobs := s.jobs ++ [some job]
      dep := s.dep.register job.id job.work.orders
      readyJob := none
      history := .dispatched job :: s.history
      position := .terminals } := by
  have hnot := (hpool.ready job hr).2.1
  have hfresh : job.id ∉ (dispatchedJobs s.history).map SettlementJob.id := by
    intro hm
    rcases List.mem_append.mp (h.ids.mem_iff.mp hm) with hm | hm
    · obtain ⟨res, hres, hid⟩ := List.mem_map.mp hm
      exact hjob.ready_new job hr res hres hid
    · exact hnot hm
  have hd : dispatchedJobs (.dispatched job :: s.history) = dispatchedJobs s.history ++ [job] := by
    simp
  have hres : results (.dispatched job :: s.history) = results s.history := by simp
  refine ⟨h.nextSeq_pos, ?_, ?_, ?_, ?_, ?_, ?_⟩
  · simpa [hd, hr] using h.numbers
  · simpa [hd, List.nodup_append, h.ids_nodup] using hfresh
  · have hreg : ((s.dep.register job.id job.work.orders).dispatched).map Prod.fst =
        job.id :: s.registeredIDs := by
      simp [DependencyTracker.register, DependencyTracker.filter_fresh hnot, State.registeredIDs]
    simp only [hd, hres, State.registeredIDs, hreg, List.map_append, List.map_singleton]
    exact (List.perm_append_singleton _ _).trans ((h.ids.cons job.id).trans List.perm_middle.symm)
  · intro j hj
    rw [hd]
    simp only [List.mem_append, List.mem_singleton, Option.some.injEq] at hj ⊢
    rcases hj with (hj | rfl) | hj
    · exact .inl (h.owned j (List.mem_append_left _ hj))
    · exact .inr rfl
    · exact .inl (h.owned j (List.mem_append_right _ hj))
  · intro res hr'
    rw [hres] at hr'
    obtain ⟨j, hj, he⟩ := h.answered res hr'
    exact ⟨j, hd ▸ List.mem_append_left _ hj, he⟩
  · exact h.buffered.frame rfl rfl (by simp [Action.message]) (by rw [hres])

theorem map_seq?_filter (l : List SettlementJob) :
    (l.filter (fun job => job.seq?.isSome)).map SettlementJob.seq? =
      (l.filterMap SettlementJob.seq?).map some := by
  induction l with
  | nil => rfl
  | cons job l ih => cases hq : job.seq? <;> simp [hq, ih]

/-- The batches handed out carry the numbers 1, 2, … in that order. -/
theorem DeliverInv.seq?_tradeJobs (h : DeliverInv s) :
    (tradeJobs s.history).map SettlementJob.seq? =
      (List.range' 1 (tradeJobs s.history).length).map some := by
  have hn := h.numbers
  rw [List.filterMap_append] at hn
  obtain ⟨k, -, hk, -⟩ := List.range'_eq_append_iff.mp hn.symm
  have hm : (tradeJobs s.history).map SettlementJob.seq? = (List.range' 1 k).map some := by
    rw [tradeJobs, map_seq?_filter, hk]
  have hl : (tradeJobs s.history).length = k := by simpa using congrArg List.length hm
  rw [hl, hm]

theorem DeliverInv.seq?_of_get (h : DeliverInv s)
    (hi : (tradeJobs s.history)[i]? = some job) : job.seq? = some (i + 1) := by
  have hm := congrArg (fun l => l[i]?) h.seq?_tradeJobs
  have hlt := (List.getElem?_eq_some_iff.mp hi).1
  simp only [List.getElem?_map, hi, List.getElem?_range' hlt, Option.map_some] at hm
  simpa [Nat.add_comm] using hm

/-- A batch handed out stands at the place of its number. -/
theorem DeliverInv.get_of_seq? (h : DeliverInv s) {k : Nat}
    (hj : job ∈ dispatchedJobs s.history) (hk : job.seq? = some k) :
    ∃ i, k = i + 1 ∧ (tradeJobs s.history)[i]? = some job := by
  have hm : job ∈ tradeJobs s.history := List.mem_filter.mpr ⟨hj, by simp [hk]⟩
  obtain ⟨i, hi⟩ := List.mem_iff_getElem?.mp hm
  exact ⟨i, Option.some.inj (hk.symm.trans (h.seq?_of_get hi)), hi⟩

theorem DeliverInv.unique (h : DeliverInv s) {j j' : SettlementJob} {k : Nat}
    (hj : j ∈ dispatchedJobs s.history) (hj' : j' ∈ dispatchedJobs s.history)
    (hk : j.seq? = some k) (hk' : j'.seq? = some k) : j = j' := by
  obtain ⟨i, hi, hg⟩ := h.get_of_seq? hj hk
  obtain ⟨i', hi', hg'⟩ := h.get_of_seq? hj' hk'
  obtain rfl : i = i' := by omega
  exact Option.some.inj (hg.symm.trans hg')

theorem seq_of_result
    (h : res = resultOf job res.messages res.undurableOrderIDs) : res.seq = job.seq? := by
  rw [h]
  unfold resultOf SettlementJob.seq?
  cases job.work <;> rfl

theorem id_of_result
    (h : res = resultOf job res.messages res.undurableOrderIDs) : res.id = job.id := by
  rw [h, resultOf_id]

/-- The result at the head of the channel is retired. -/
theorem DeliverInv.complete (h : DeliverInv s) (hpool : PoolInv cfg s)
    (hc : s.completions = res :: rest) (hh : SameRecords (.retired res :: s.history) t.history)
    (hd : t.dep = s.dep.retire res.id res.undurableOrderIDs) (hr : t.readyJob = s.readyJob)
    (hn : t.nextSeq = s.nextSeq) (hj : t.jobs = s.jobs) (hrun : t.running = s.running)
    (htc : t.completions = rest) (hb : Buffered t) : DeliverInv t := by
  obtain ⟨orders, hl⟩ := hpool.lookup_of_completion hc
  have hsplit := Rows.perm_cons_lookup hpool.consistent.ids_nodup hl
  have hdj : dispatchedJobs t.history = dispatchedJobs s.history := by
    simpa using hh.dispatchedJobs
  have hres : results t.history = results s.history ++ [res] := by
    simpa using hh.results
  refine ⟨hn ▸ h.nextSeq_pos, ?_, hdj ▸ h.ids_nodup, ?_, ?_, ?_, hb⟩
  · simpa [hdj, hr, hn] using h.numbers
  · -- the id moves from the tracker's table to the results
    have hreg : s.registeredIDs.Perm (res.id :: t.registeredIDs) := by
      rw [DependencyTracker.retire_eq hl] at hd
      simpa [State.registeredIDs, hd] using hsplit.map Prod.fst
    rw [hdj, hres, List.map_append, List.map_singleton, List.append_assoc]
    exact h.ids.trans (hreg.append_left _)
  · simpa [hdj, hj, hrun] using h.owned
  · intro r hm
    rw [hdj]
    apply h.answered r
    rw [htc, hres] at hm
    simp only [hc, List.mem_append, List.mem_cons] at hm ⊢
    tauto

/-- A batch is retired once, so its number arrives once. -/
theorem DeliverInv.seq_new (h : DeliverInv s) (hpool : PoolInv cfg s) (hjob : JobInv s) {k : Nat}
    (hc : s.completions = res :: rest) (hk : res.seq = some k) :
    k ∉ (numbered (results s.history)).map Prod.fst := by
  intro hm
  obtain ⟨p, hp, rfl⟩ := List.mem_map.mp hm
  obtain ⟨hpr, hps⟩ := mem_numbered.mp hp
  obtain ⟨j, hj, hres⟩ := h.answered res (by simp [hc])
  obtain ⟨j', hj', hres'⟩ := h.answered p.2 (List.mem_append_right _ hpr)
  have he : j = j' :=
    h.unique hj hj' ((seq_of_result hres).symm.trans hk) ((seq_of_result hres').symm.trans hps)
  have hid : p.2.id = res.id := by rw [id_of_result hres', id_of_result hres, he]
  apply hjob.retired_gone p.2 hpr
  rw [hid]
  exact hpool.ids.subset (by simp [State.inFlightIDs, hc])

theorem DeliverInv.move (h : DeliverInv s) (hpool : PoolInv cfg s) (hjob : JobInv s)
    (hm : Step cfg s a t) : DeliverInv t := by
  cases hm with
  | noTerminal | busy | inputClosed | noInput | exitSelect | selectClosed | put | close =>
    exact h.frame (.refl _) rfl rfl rfl (fun _ hj => hj) rfl rfl rfl
  | dropTerminal => exact h.frame (.cons rfl rfl rfl _) rfl rfl rfl (fun _ hj => hj) rfl rfl rfl
  | collectTrade | input => exact h.frame (.received _ _) rfl rfl rfl (fun _ hj => hj) rfl rfl rfl
  | duplicate _ _ ht =>
    have hs : DeliverInv _ := h.taken ht
    exact hs.frame (.cons rfl rfl rfl _) rfl rfl rfl (fun _ hj => hj) rfl rfl rfl
  | wait _ _ ht | start _ _ ht =>
    exact (h.taken ht).frame (.refl _) rfl rfl rfl (fun _ hj => hj) rfl rfl rfl
  | takeTerminal _ hi =>
    exact h.makeReady hi.1 (.refl _) rfl h.nextSeq_pos (by simp [SettlementJob.seq?])
      rfl rfl rfl rfl rfl rfl
  | collectTerminal hp =>
    exact h.makeReady (hpool.collecting _ hp).1 (.received _ _) rfl (Nat.succ_pos _)
      (range_succ h.nextSeq_pos) rfl rfl rfl rfl rfl rfl
  | collectClosed hp | collectDone hp =>
    exact h.makeReady (hpool.collecting _ hp).1 (.refl _) rfl (Nat.succ_pos _)
      (range_succ h.nextSeq_pos) rfl rfl rfl rfl rfl rfl
  | exitReturn =>
    obtain ⟨b, hb, ho, -⟩ := h.buffered
    have hf := buffered_flush hb ho
    obtain ⟨p, ms, n, he⟩ := flushBroadcasts_eq s
    have hh := SameRecords.broadcasts ms s.history
    rw [he] at hf ⊢
    exact h.keep hh.dispatchedJobs hh.results rfl rfl rfl (fun _ hj => hj) rfl
      (hf.frame rfl rfl rfl rfl)
  | dispatch _ hr => exact h.dispatch hpool hjob hr
  | @completeTerminal res rest _ hc hs =>
    refine h.complete hpool hc (.refl _) rfl rfl rfl rfl rfl rfl ?_
    exact h.buffered.frame rfl rfl (by simp [Action.message])
      (by simp [numbered, hs])
  | @completeTrade res rest seq _ hc hs =>
    obtain ⟨b, hb, ho, -⟩ := h.buffered
    have hf : Buffered (State.flushBroadcasts { s with
        completions := rest
        dep := s.dep.retire res.id res.undurableOrderIDs
        history := .retired res :: s.history
        position := .terminals
        pending := (seq, res) :: s.pending.filter (fun p => p.1 != seq) }) := by
      refine buffered_flush (b := b.put seq res) ⟨by simp [Buffer.put, hb.pending], hb.next, ?_⟩ ?_
      · simpa [Action.message, Buffer.put] using hb.out
      · have hr : numbered (results (.retired res :: s.history)) =
            numbered (results s.history) ++ [(seq, res)] := by
          simp [numbered, hs]
        rw [hr]
        exact ho.put (h.seq_new hpool hjob hc hs) res
    obtain ⟨p, ms, n, he⟩ := flushBroadcasts_eq _
    rw [he] at hf ⊢
    exact h.complete hpool hc (.broadcasts ms _) rfl rfl rfl rfl rfl rfl hf
  | take hj => exact h.frame (.refl _) rfl rfl rfl (by simp [hj]; tauto) rfl rfl rfl
  | foreign => exact h.frame (.refl _) rfl rfl rfl (by simp) rfl rfl rfl
  | finishForeign =>
    refine h.frame (.refl _) rfl rfl rfl (fun job hj => ?_) rfl rfl rfl
    exact (List.mem_append.mp hj).elim (List.mem_append_left _) fun hj =>
      List.mem_append_right _ (List.mem_of_mem_eraseIdx hj)
  | finish hr => exact h.finish hr

theorem reach_deliver (h : Lts.Reach (step cfg) ok (init feed) s) :
    DeliverInv s :=
  h.invariant _ (init_deliver feed) fun _ _ _ hr hi _ hs =>
    hi.move (reach_pool hr) (reach_job hr) (move_of_step hs)

/-! ## What has been broadcast -/

/-- The dispatcher returns with no job outstanding, and nothing is handed out afterwards. -/
theorem drained_move (h : s.position = .returned → s.dep.outstanding = 0) (hm : Step cfg s a t) :
    t.position = .returned → t.dep.outstanding = 0 := by
  cases hm with
  | take | finishForeign | finish | put | close | foreign => exact h
  | exitReturn _ _ _ hd =>
    obtain ⟨p, ms, n, he⟩ := flushBroadcasts_eq s
    rw [he]
    exact fun _ => hd
  | completeTrade =>
    obtain ⟨p, ms, n, he⟩ := flushBroadcasts_eq _
    rw [he]
    simp
  | _ => simp [finishBatch]

theorem reach_drained (h : Lts.Reach (step cfg) ok (init feed) s) :
    s.position = .returned → s.dep.outstanding = 0 :=
  h.invariant (fun s => s.position = .returned → s.dep.outstanding = 0) (by simp [init])
    fun _ _ _ _ hi _ hs => drained_move hi (move_of_step hs)

/-- What left the buffer in the `i`th place is the result of the `i`th batch. -/
theorem DeliverInv.result_at (h : DeliverInv s) (ho : Ordered (numbered (results s.history)) b)
    (hi : b.out[i]? = some res) :
    ∃ job, (tradeJobs s.history)[i]? = some job ∧ res ∈ results s.history ∧
      res = resultOf job res.messages res.undurableOrderIDs := by
  obtain ⟨hres, hseq⟩ := mem_numbered.mp (ho.mem_of_out hi)
  obtain ⟨job, hjob, he⟩ := h.answered res (List.mem_append_right _ hres)
  obtain ⟨i', hi', hg⟩ := h.get_of_seq? hjob ((seq_of_result he).symm.trans hseq)
  obtain rfl : i = i' := by simpa using hi'
  exact ⟨job, hg, hres, he⟩

theorem DeliverInv.length_le (h : DeliverInv s) (ho : Ordered (numbered (results s.history)) b) :
    b.out.length ≤ (tradeJobs s.history).length := by
  by_contra hlt
  have hi : (tradeJobs s.history).length < b.out.length := by omega
  obtain ⟨job, hg, -⟩ := h.result_at ho (List.getElem?_eq_getElem hi)
  have := (List.getElem?_eq_some_iff.mp hg).1
  omega

/-- With no job outstanding, every batch has its result. -/
theorem DeliverInv.arrived (h : DeliverInv s) (hpool : PoolInv cfg s) (hd : s.dep.outstanding = 0)
    (hi : i < (tradeJobs s.history).length) :
    i + 1 ∈ (numbered (results s.history)).map Prod.fst := by
  have hreg : s.registeredIDs = [] := by
    have hl : s.dep.dispatched.length = 0 := hpool.consistent.jobs_eq.symm.trans hd
    simp [State.registeredIDs, List.eq_nil_of_length_eq_zero hl]
  have hg := List.getElem?_eq_getElem hi
  have hj : (tradeJobs s.history)[i] ∈ dispatchedJobs s.history :=
    (List.mem_filter.mp (List.getElem_mem hi)).1
  have hm := h.ids.mem_iff.mp (List.mem_map_of_mem hj)
  rw [hreg, List.append_nil] at hm
  obtain ⟨res, hres, hid⟩ := List.mem_map.mp hm
  obtain ⟨job, hjob, he⟩ := h.answered res (List.mem_append_right _ hres)
  have hsame : job = (tradeJobs s.history)[i] :=
    List.inj_on_of_nodup_map h.ids_nodup hjob hj ((id_of_result he).symm.trans hid)
  have hseq : res.seq = some (i + 1) := by rw [seq_of_result he, hsame, h.seq?_of_get hg]
  exact List.mem_map.mpr ⟨(i + 1, res), mem_numbered.mpr ⟨hres, hseq⟩, rfl⟩

theorem trades_of_terminal (h : job.seq? = none) : job.work.trades = [] := by
  unfold SettlementJob.seq? at h
  cases hw : job.work with
  | trade seq batch => simp [hw] at h
  | terminal e => rfl

theorem dispatchedTrades_eq (h : List Action) :
    dispatchedTrades h = (tradeJobs h).flatMap (fun job => job.work.trades) := by
  unfold dispatchedTrades tradeJobs
  induction dispatchedJobs h with
  | nil => rfl
  | cons job l ih =>
    cases hq : job.seq? with
    | none => simp [-Work.trades, hq, trades_of_terminal hq, ih]
    | some k => simp [-Work.trades, hq, ih]

/-- In every run, whatever the concurrency and the order of completion: the messages broadcast are
those of the batches in the order they were taken from the queue, each batch's once, and all of
them when the dispatcher returns; at most twice the concurrency of jobs are out, so a worker
that finishes can always report. -/
theorem broadcasts_in_queue_order (cfg : Config) (feed : Feed) (s : State)
    (h : Lts.Reach (step cfg) Lts.free (init feed) s) :
    (∃ sent : List (SettlementJob × SettlementResult),
      sent.map Prod.fst <+: tradeJobs s.history ∧
      (∀ p ∈ sent, p.2 ∈ results s.history ∧
        p.2 = resultOf p.1 p.2.messages p.2.undurableOrderIDs) ∧
      broadcasts s.history = sent.flatMap (fun p => p.2.messages) ∧
      (s.position = .returned → sent.map Prod.fst = tradeJobs s.history)) ∧
    (tradeJobs s.history).flatMap (fun job => job.work.trades) <+: feed.events.filter isTrade ∧
    (s.position = .returned →
      (tradeJobs s.history).flatMap (fun job => job.work.trades) = feed.events.filter isTrade) ∧
    ((tradeJobs s.history).map SettlementJob.id).Nodup ∧
    ((results s.history).map SettlementResult.id).Nodup ∧
    (dispatchedJobs s.history).length ≤ (results s.history).length + 2 * cfg.concurrency ∧
    (∀ i job messages undurable, s.running[i]? = some (some job) →
      ∃ t, step cfg (.finish i messages undurable) s = some t) := by
  have hpool := reach_pool h
  have hd := reach_deliver h
  have hflow := reach_flow h
  obtain ⟨b, hb, ho, hset⟩ := hd.buffered
  have hle := hd.length_le ho
  have hids := hd.ids.nodup_iff.mp hd.ids_nodup
  refine ⟨⟨(tradeJobs s.history).zip b.out, ?_, fun p hp => ?_, ?_, fun hret => ?_⟩, ?_,
    fun hret => ?_, ?_, ?_, ?_, fun i job messages undurable hrun => ?_⟩
  · have hz : ((tradeJobs s.history).zip b.out).map Prod.fst =
        (tradeJobs s.history).take b.out.length := by
      rw [List.zip_eq_zip_take_min, Nat.min_eq_right hle, List.take_length,
        List.map_fst_zip (by simp)]
    rw [hz]
    exact List.take_prefix _ _
  · obtain ⟨i, hi⟩ := List.mem_iff_getElem?.mp hp
    obtain ⟨hj, hr⟩ := List.getElem?_zip_eq_some.mp hi
    obtain ⟨job, hg, hres, he⟩ := hd.result_at ho hr
    obtain rfl : job = p.1 := Option.some.inj (hg.symm.trans hj)
    exact ⟨hres, he⟩
  · rw [hb.out, ← List.flatMap_map Prod.snd SettlementResult.messages, List.map_snd_zip hle]
  · apply List.map_fst_zip
    apply ho.le_length hset
    intro k hk hkn
    obtain ⟨i, rfl⟩ := Nat.exists_eq_add_of_le' hk
    exact hd.arrived hpool (reach_drained h hret) hkn
  · rw [← dispatchedTrades_eq]
    exact hflow.trades_prefix
  · rw [← dispatchedTrades_eq]
    exact hflow.trades_returned (reach_input h) hret
  · exact hd.ids_nodup.sublist (List.filter_sublist.map _)
  · exact (List.nodup_append.mp hids).1
  · have hl := hd.ids.length_eq
    have hout : s.registeredIDs.length ≤ 2 * cfg.concurrency := by
      have hj : s.dep.outstanding = s.registeredIDs.length := by
        simpa [State.registeredIDs, DependencyTracker.outstanding] using hpool.consistent.jobs_eq
      exact hj ▸ hpool.outstanding_le
    simp only [List.length_map, List.length_append] at hl
    omega
  · have hroom := hpool.completions_lt (List.mem_of_getElem? hrun)
    simp [step, workerFinish, hrun, hroom]

/-- Two workers, one trade a batch. -/
def twoWorkers : Config :=
  { singleWorker with concurrency := 2, concurrency_pos := Nat.two_pos, maxBatch := 1 }

def twoTrades : Feed where
  events := [⟨1, .trade ⟨⟨1, 1⟩, "BTC", 1, 1, 1, 2⟩⟩, ⟨2, .trade ⟨⟨1, 2⟩, "BTC", 1, 1, 3, 4⟩⟩]
  outboxIDs_nodup := by decide

/-- The second batch completes first; its message waits for that of the first. -/
def overtakingRun : List Label :=
  [.put, .put, .close,
   .advance, .advance, .advance, .advance, .dispatch,
   .advance, .advance, .advance, .advance, .dispatch, .take, .take,
   .finish 1 [⟨"BTC", "second"⟩] [], .finish 0 [⟨"BTC", "first"⟩] [],
   .advance, .advance, .advance, .complete, .advance, .advance, .advance, .complete,
   .advance, .advance, .advance]

theorem broadcasts_in_queue_order_overtaking :
    ∃ s, Lts.exec (step twoWorkers) overtakingRun (init twoTrades) = some s ∧
      s.position = .returned ∧ broadcasts s.history = [⟨"BTC", "first"⟩, ⟨"BTC", "second"⟩] ∧
      (tradeJobs s.history).flatMap (fun job => job.work.trades) = twoTrades.events := by
  refine ⟨_, rfl, rfl, by decide, ?_⟩
  have h := broadcasts_in_queue_order twoWorkers twoTrades _ (Lts.reach_of_exec overtakingRun rfl)
  exact h.2.2.1 rfl

end GoExchange.Dispatcher
