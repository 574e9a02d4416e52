import GoExchange.ShardedEngine

/-!
# One shard a symbol, one order of its events

The map from symbols to shards only gains entries, so every call for a symbol
goes to the same shard. With one forwarder a shard the merged channel carries
the events of a symbol in the order its shard emitted them, and it is closed
after the last of them.
-/
namespace GoExchange.Sharded

open Engine Matching

variable {n : Nat} {cfg : EngineConfig} {s s' : State n} {l : Label n} {i j : Fin n}
  {engineIDs : Fin n → Nat}

/-! ## Routing -/

/-- Calls go where the map says, and an engine speaks of the symbols it was asked about. -/
structure RouteInv (s : State n) : Prop where
  asked : ∀ x i, (x, i) ∈ s.asked → s.assignments.lookup x = some i
  calls : ∀ r i, ⟨r, .ask i⟩ ∈ s.calls → (r.coinSymbol, i) ∈ s.asked
  speaks : ∀ i, Speaks (fun x => (x, i) ∈ s.asked) (s.engines i)

theorem init_route [NeZero n] (engineIDs : Fin n → Nat) : RouteInv (init n engineIDs) where
  asked := by simp [init]
  calls := by simp [init]
  speaks i := init_speaks _ _

/-- `shardFor` returns the shard of the map. -/
theorem RouteInv.route (h : RouteInv s) {r : Request}
    (hi : s.assignments.lookup r.coinSymbol = some i) (c : Nat) : RouteInv (s.route c r i) where
  asked x j hm := by
    simp only [State.route, List.mem_append, List.mem_singleton, Prod.mk.injEq] at hm
    rcases hm with hm | ⟨rfl, rfl⟩
    · exact h.asked x j hm
    · exact hi
  calls r' j hm := by
    simp only [State.route, List.mem_append, List.mem_singleton] at hm ⊢
    rcases mem_set_calls hm with hm | he
    · exact .inl (h.calls r' j hm)
    · cases he
      exact .inr rfl
  speaks j := (h.speaks j).mono fun x hx => List.mem_append_left _ hx

/-- A new entry is for a symbol that has none. -/
theorem RouteInv.assign (h : RouteInv s) {x : String} (hnone : s.assignments.lookup x = none)
    (i : Fin n) : RouteInv { s with assignments := (x, i) :: s.assignments } where
  asked y j hm := by
    have hy := h.asked y j hm
    have hne : y ≠ x := by
      rintro rfl
      rw [hnone] at hy
      cases hy
    simpa [List.lookup_cons, beq_false_of_ne hne] using hy
  calls := h.calls
  speaks := h.speaks

theorem RouteInv.put (h : RouteInv s) {l : Shard.Label} {t : Shard.State}
    (hm : Shard.Moved cfg (s.shard i) l t) (hi : ReserveInv cfg (s.engines i))
    (hask : ∀ l', l = .engine l' → ∀ x ∈ l'.asks?, (x, i) ∈ s.asked) : RouteInv (s.put i l t) where
  asked := h.asked
  calls := h.calls
  speaks j := by
    by_cases hij : i = j
    · subst hij
      simp only [State.put, Function.update_self]
      cases hm with
      | engine hl hstep => exact (h.speaks i).step (stepped_of_step hi hstep) (hask _ rfl)
      | receive | done | signal | forward => exact (h.speaks i).same rfl rfl rfl rfl
    · have hne := Ne.symm hij
      simpa [State.put, Function.update_of_ne hne] using h.speaks j

theorem RouteInv.move (h : RouteInv s) (hm : Transition cfg s s')
    (hi : ∀ i, ReserveInv cfg (s.engines i)) : RouteInv s' := by
  cases hm with
  | call hask => exact { h with calls := fun r i hr => h.calls r i (hask r i hr) }
  | known hi => exact h.route hi _
  | assigned hnone => exact (h.assign hnone _).route (by simp) _
  | @shard t calls i l hcalls _ hmove hask =>
    have hput : RouteInv (s.put i l t) := by
      refine h.put hmove (hi i) fun l' hl' x hx => ?_
      obtain ⟨r, rfl, hr⟩ := hask l' hl' x hx
      exact h.calls r i hr
    exact { hput with calls := fun r j hr => hput.calls r j (hcalls hr) }
  | consume | close => exact { h with }

theorem reach_route [NeZero n] (h : Lts.Reach (step cfg) Lts.free (init n engineIDs) s) :
    RouteInv s :=
  h.invariant RouteInv (init_route engineIDs) fun _ _ _ hr hi _ hs =>
    hi.move (move_of_step hs) fun i => reach_reserve (reach_engine hr i)

theorem RouteInv.unique (h : RouteInv s) {x : String} (hi : (x, i) ∈ s.asked)
    (hj : (x, j) ∈ s.asked) : i = j :=
  Option.some.inj ((h.asked x i hi).symm.trans (h.asked x j hj))

/-! ## The events of one symbol -/

/-- The events of symbol `x`. -/
def ofSymbol (x : String) (es : List ExecutionEvent) : List ExecutionEvent :=
  es.filter (fun e => e.coinSymbol = x)

theorem ofSymbol_append (x : String) (es fs : List ExecutionEvent) :
    ofSymbol x (es ++ fs) = ofSymbol x es ++ ofSymbol x fs := List.filter_append es fs

theorem FlowInv.mem_events (h : FlowInv s) {p : Fin n × ExecutionEvent} (hp : p ∈ s.forwarded) :
    p.2 ∈ events (s.engines p.1) := by
  rw [← h.shards p.1, List.append_assoc]
  apply List.mem_append_left
  exact List.mem_map_of_mem (List.mem_filter.mpr ⟨hp, by simp⟩)

/-- Of a symbol's events on the merged channel none is from another shard than its own. -/
theorem ofSymbol_stream (hf : FlowInv s) (hr : RouteInv s) {x : String} (hx : (x, i) ∈ s.asked) :
    ofSymbol x (stream s) = ofSymbol x (fromShard s i) := by
  have hsame : s.forwarded.filter (fun p => p.2.coinSymbol = x) =
      (s.forwarded.filter (fun p => p.1 = i)).filter (fun p => p.2.coinSymbol = x) := by
    rw [List.filter_filter]
    refine List.filter_congr fun p hp => ?_
    by_cases hpx : p.2.coinSymbol = x
    · have hp' : (p.2.coinSymbol, p.1) ∈ s.asked := (hr.speaks p.1).emitted _ (hf.mem_events hp)
      have hpi : p.1 = i := hr.unique (hpx ▸ hp') hx
      simp [hpx, hpi]
    · simp [hpx]
  rw [hf.stream_eq, ofSymbol, ofSymbol, fromShard, List.filter_map, List.filter_map]
  exact congrArg (List.map Prod.snd) hsame

/-- Once the channel is closed nothing is sent and nothing is emitted. -/
theorem Transition.after_close (hm : Transition cfg s s') (hf : FlowInv s)
    (hi : ∀ i, ReserveInv cfg (s.engines i))
    (hend : ∀ i, ClosedLast (s.engines i)) (hc : s.mergedClosed = true) :
    s'.mergedClosed = true ∧ stream s' = stream s ∧
    ∀ i, events (s'.engines i) = events (s.engines i) := by
  cases hm with
  | call | known | assigned | close => exact ⟨by first | exact hc | rfl, rfl, fun _ => rfl⟩
  | consume hch =>
    refine ⟨hc, ?_, fun _ => rfl⟩
    simp [stream, hch]
  | @shard t calls i l _ _ hmove =>
    have hfi := hf.closed hc i
    obtain ⟨new, hmerged, -, -⟩ := flow_of_moved hmove (hi i) i
    have hev := ((ended_of_moved hmove (hi i) (hend i) (hf.ended i)).1 hfi).2
    refine ⟨hc, ?_, fun j => ?_⟩
    · have hnone : handedOver i l (s.shard i).forwarder = [] := by
        simp only [State.shard, hfi]
        cases l <;> rfl
      rw [hnone] at hmerged
      simpa [stream, State.put, State.shard] using hmerged
    · by_cases hij : i = j
      · subst hij
        simpa [State.put, State.shard] using hev
      · simp [State.put, Function.update_of_ne (Ne.symm hij)]

theorem reach_after_close [NeZero n] {t : State n}
    (h : Lts.Reach (step cfg) Lts.free (init n engineIDs) s) (hc : s.mergedClosed = true)
    (ht : Lts.Reach (step cfg) Lts.free s t) :
    t.mergedClosed = true ∧ stream t = stream s ∧
    ∀ i, events (t.engines i) = events (s.engines i) := by
  induction ht with
  | refl => exact ⟨hc, rfl, fun _ => rfl⟩
  | @next t u a hr _ hs ih =>
    have hreach := h.trans hr
    obtain ⟨hc', hstream, hev⟩ := (move_of_step hs).after_close (reach_flow hreach)
      (fun i => reach_reserve (reach_engine hreach i))
      (fun i => reach_closed (reach_engine hreach i)) ih.1
    exact ⟨hc', hstream.trans ih.2.1, fun i => (hev i).trans (ih.2.2 i)⟩

/-- Over every interleaving of calls, shards, forwarders and the consumer, with any number of
shards: all calls for a symbol go to one shard, and only that shard emits events of it. Of these the
merged channel has carried all but those still in the shard's channel or in its forwarder's hand,
once each and in the order they were emitted. When the channel is closed it has carried them all,
and no shard emits anything afterwards. -/
theorem merged_stream_of_symbol (cfg : EngineConfig) (n : Nat) [NeZero n] (engineIDs : Fin n → Nat)
    (s : State n) (h : Lts.Reach (step cfg) Lts.free (init n engineIDs) s) :
    (∀ x i j, (x, i) ∈ s.asked → (x, j) ∈ s.asked → i = j) ∧
    (∀ i, ∀ e ∈ events (s.engines i), (e.coinSymbol, i) ∈ s.asked) ∧
    (∀ e ∈ stream s, ∃ i, e ∈ events (s.engines i)) ∧
    (∀ x i, (x, i) ∈ s.asked →
      ofSymbol x (stream s) ++ ofSymbol x (hand (s.forwarders i) ++ (s.engines i).executionCh) =
        ofSymbol x (events (s.engines i))) ∧
    (s.mergedClosed = true →
      (∀ x i, (x, i) ∈ s.asked → ofSymbol x (stream s) = ofSymbol x (events (s.engines i))) ∧
      ∀ t, Lts.Reach (step cfg) Lts.free s t →
        stream t = stream s ∧ ∀ i, events (t.engines i) = events (s.engines i)) := by
  have hf := reach_flow h
  have hr := reach_route h
  have hsplit : ∀ x i, (x, i) ∈ s.asked →
      ofSymbol x (stream s) ++ ofSymbol x (hand (s.forwarders i) ++ (s.engines i).executionCh) =
        ofSymbol x (events (s.engines i)) := by
    intro x i hx
    rw [ofSymbol_stream hf hr hx, ← ofSymbol_append, ← List.append_assoc, hf.shards i]
  refine ⟨fun x i j hi hj => hr.unique hi hj, fun i e he => (hr.speaks i).emitted e he,
    fun e he => ?_, hsplit, fun hc => ⟨fun x i hx => ?_, fun t ht => (reach_after_close h hc ht).2⟩⟩
  · rw [hf.stream_eq] at he
    obtain ⟨p, hp, rfl⟩ := List.mem_map.mp he
    exact ⟨p.1, hf.mem_events hp⟩
  · have hend := hf.closed hc i
    have hs := hsplit x i hx
    rw [hend, (hf.ended i hend).2] at hs
    simpa [hand, ofSymbol] using hs

/-- An order nobody takes. -/
def lonelyOrder : Order := ⟨1, 1, 1, 0, "BTC", .sell, 0, 0, .market, 0⟩

def advances (i : Fin 2) (k : Nat) : List (Label 2) :=
  List.replicate k (.shard i (.engine .advance))

/-- Two first calls for one symbol pick different shards, and the second to store takes the first
one's. The event of the order is forwarded and read, then both shards stop. -/
def firstUseRace : List (Label 2) :=
  [.call (.submitOrder lonelyOrder), .call (.requestOrderBookSnapshot "BTC"), .load 0, .load 1,
    .pick 0, .pick 1, .store 1, .store 0, .ask 0, .ask 0] ++ advances 1 17 ++
  [.shard 1 .receive, .shard 1 .signal, .shard 1 .forward, .consume,
    .shard 0 (.engine .stop), .shard 1 (.engine .stop)] ++ advances 0 10 ++
  [.shard 1 (.engine .recvStop)] ++ advances 1 10 ++ [.shard 0 .receive, .shard 1 .receive, .close]

theorem merged_stream_of_symbol_firstUseRace :
    ∃ s, Lts.exec (step smallestConfig) firstUseRace (init 2 fun i => i) = some s ∧
    s.mergedClosed = true ∧
      s.asked = [("BTC", 1), ("BTC", 1)] ∧
      s.received = [.marketOrderDone ⟨1, "BTC", .sell, 0, 0, 1, 0⟩] ∧
      ofSymbol "BTC" (stream s) = ofSymbol "BTC" (events (s.engines 1)) := by
  have hrun : (Lts.exec (step smallestConfig) firstUseRace (init 2 fun i => i)).map
      (fun s => (s.mergedClosed, s.asked, s.received)) =
        some (true, [("BTC", 1), ("BTC", 1)],
          [.marketOrderDone ⟨1, "BTC", .sell, 0, 0, 1, 0⟩]) := by
    decide +kernel
  obtain ⟨s, hs, hend⟩ := Option.map_eq_some_iff.mp hrun
  simp only [Prod.mk.injEq] at hend
  obtain ⟨hc, hasked, hgot⟩ := hend
  have h := merged_stream_of_symbol smallestConfig 2 (fun i => i) s (Lts.reach_of_exec _ hs)
  exact ⟨s, hs, hc, hasked, hgot, (h.2.2.2.2 hc).1 "BTC" 1 (by simp [hasked])⟩

end GoExchange.Sharded
