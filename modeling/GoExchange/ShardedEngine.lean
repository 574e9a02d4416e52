import GoExchange.EngineStream
import GoExchange.Shard

/-!
# The sharded engine

`sharded.go`: a router over independent engines. The first call for a symbol
picks a shard in turn and stores the choice in a map shared by all callers, so
the steps of `shardFor` interleave with those of other calls. One forwarder a
shard moves events to the merged channel, which is closed once every forwarder
has ended.
-/
namespace GoExchange.Sharded

open Engine Matching

/-- A call of the router. `IsIntakeAdmissible` and `RequestOrderBookSnapshot` only read. -/
inductive Request where
  | submitOrder (o : Order)
  | trySubmitOrder (o : Order)
  | cancelOrder (cmd : CancelOrderCommand)
  | isIntakeAdmissible (coinSymbol : String)
  | requestOrderBookSnapshot (coinSymbol : String)
  deriving DecidableEq, Repr

def Request.coinSymbol : Request → String
  | .submitOrder o | .trySubmitOrder o => o.coinSymbol
  | .cancelOrder cmd => cmd.coinSymbol
  | .isIntakeAdmissible coinSymbol | .requestOrderBookSnapshot coinSymbol => coinSymbol

/-- What the request sends to its shard. -/
def Request.sends? : Request → Option Engine.Label
  | .submitOrder o | .trySubmitOrder o => some (.submitOrder o)
  | .cancelOrder cmd => some (.sendCancel cmd)
  | .isIntakeAdmissible _ | .requestOrderBookSnapshot _ => none

/-- `SubmitOrder` waits for room in the channel, the other two only for some time. -/
def Request.timesOut : Request → Bool
  | .trySubmitOrder _ | .cancelOrder _ => true
  | _ => false

/-- Where a call stands: before the three steps of `shardFor`, or with the shard it returned. -/
inductive Position (n : Nat) where
  | load
  | pick
  | store (candidate : Fin n)
  | ask (shard : Fin n)
  deriving DecidableEq, Repr

structure Call (n : Nat) where
  request : Request
  position : Position n
  deriving DecidableEq, Repr

/-- The shards with their forwarders, the merged channel, the map from symbols to shards and the
calls under way. The last three fields are the history: what was taken off the merged channel, what
each forwarder put there, and the shard each call was sent to. -/
structure State (n : Nat) where
  engines : Fin n → Engine.State
  forwarders : Fin n → Shard.Forwarder
  merged : List ExecutionEvent
  mergedClosed : Bool
  assignments : List (String × Fin n)
  nextShard : BitVec 64
  calls : List (Call n)
  received : List ExecutionEvent
  forwarded : List (Fin n × ExecutionEvent)
  asked : List (String × Fin n)

/-- `NewShardedEngine` after `Start`; the empty symbol belongs to the first shard. -/
def init (n : Nat) [NeZero n] (engineIDs : Fin n → Nat) : State n where
  engines i := Engine.init (engineIDs i)
  forwarders _ := .receiving
  merged := []
  mergedClosed := false
  assignments := [("", 0)]
  nextShard := 0
  calls := []
  received := []
  forwarded := []
  asked := []

/-- `int(se.nextShard.Add(1)-1) % len(se.shards)`; an index outside the slice panics. -/
def candidate (n : Nat) (nextShard : BitVec 64) : Option (Fin n) :=
  let idx := nextShard.toInt.tmod n
  if h : 0 ≤ idx ∧ idx.toNat < n then some ⟨idx.toNat, h.2⟩ else none

section

variable {n : Nat} (cfg : EngineConfig)

/-- One shard as a system of its own. -/
def State.shard (s : State n) (i : Fin n) : Shard.State := ⟨s.engines i, s.forwarders i, s.merged⟩

/-- What a step of a shard puts on the merged channel. -/
def handedOver (i : Fin n) : Shard.Label → Shard.Forwarder → List (Fin n × ExecutionEvent)
  | .forward, .forwarding e => [(i, e)]
  | _, _ => []

def shardStep (i : Fin n) (l : Shard.Label) (s : State n) : Option (State n) :=
  (Shard.step cfg l (s.shard i)).map fun t =>
    { s with
      engines := Function.update s.engines i t.engine
      forwarders := Function.update s.forwarders i t.forwarder
      merged := t.merged
      forwarded := s.forwarded ++ handedOver i l (s.forwarders i) }

/-- `shardFor` returns. -/
def State.route (s : State n) (c : Nat) (r : Request) (i : Fin n) : State n :=
  { s with calls := s.calls.set c ⟨r, .ask i⟩, asked := s.asked ++ [(r.coinSymbol, i)] }

/-- The callers, the shards with their forwarders, the consumer and the goroutine that closes. -/
inductive Label (n : Nat) where
  | call (r : Request)
  | load (c : Nat)
  | pick (c : Nat)
  | store (c : Nat)
  | ask (c : Nat)
  | giveUp (c : Nat)
  | shard (i : Fin n) (l : Shard.Label)
  | consume
  | close
  deriving DecidableEq, Repr

/-- What a shard and its forwarder do by themselves, `Stop` included. -/
def ownLabel : Shard.Label → Bool
  | .engine (.submitOrder _) | .engine (.sendCancel _) | .otherShard _ | .consume => false
  | _ => true

def step : Label n → State n → Option (State n)
  | .call r, s => some { s with calls := s.calls ++ [⟨r, .load⟩] }
  | .load c, s =>
    match s.calls[c]? with
    | some ⟨r, .load⟩ =>
      match s.assignments.lookup r.coinSymbol with
      | some i => some (s.route c r i)
      | none => some { s with calls := s.calls.set c ⟨r, .pick⟩ }
    | _ => none
  | .pick c, s =>
    match s.calls[c]? with
    | some ⟨r, .pick⟩ =>
      match candidate n s.nextShard with
      | some i => some { s with nextShard := s.nextShard + 1, calls := s.calls.set c ⟨r, .store i⟩ }
      | none => some { s with nextShard := s.nextShard + 1, calls := s.calls.eraseIdx c }
    | _ => none
  | .store c, s =>
    match s.calls[c]? with
    | some ⟨r, .store candidate⟩ =>
      match s.assignments.lookup r.coinSymbol with
      | some i => some (s.route c r i)
      | none =>
        some (State.route { s with assignments := (r.coinSymbol, candidate) :: s.assignments } c
          r candidate)
    | _ => none
  | .ask c, s =>
    match s.calls[c]? with
    | some ⟨r, .ask i⟩ =>
      match r.sends? with
      | some l => shardStep cfg i (.engine l) { s with calls := s.calls.eraseIdx c }
      | none => some { s with calls := s.calls.eraseIdx c }
    | _ => none
  | .giveUp c, s =>
    match s.calls[c]? with
    | some ⟨r, .ask _⟩ => if r.timesOut then some { s with calls := s.calls.eraseIdx c } else none
    | _ => none
  | .shard i l, s => if ownLabel l then shardStep cfg i l s else none
  | .consume, s =>
    match s.merged with
    | e :: rest => some { s with merged := rest, received := s.received ++ [e] }
    | [] => none
  | .close, s =>
    if (∀ i, s.forwarders i = .ended) ∧ s.mergedClosed = false then
      some { s with mergedClosed := true }
    else none

end

variable {n : Nat} {cfg : EngineConfig} {s s' : State n} {l : Label n} {i j : Fin n}

/-! ## What a step does -/

/-- The state after a step of shard `i`. -/
def State.put (s : State n) (i : Fin n) (l : Shard.Label) (t : Shard.State) : State n :=
  { s with
    engines := Function.update s.engines i t.engine
    forwarders := Function.update s.forwarders i t.forwarder
    merged := t.merged
    forwarded := s.forwarded ++ handedOver i l (s.forwarders i) }

/-- A step of the router by its label: what it does to the calls and the table. -/
inductive Routing (cfg : EngineConfig) (s : State n) : Label n → State n → Prop
  | call (r : Request) : Routing cfg s (.call r) { s with calls := s.calls ++ [⟨r, .load⟩] }
  | known {c r} {i : Fin n} (hc : s.calls[c]? = some ⟨r, .load⟩)
      (hi : s.assignments.lookup r.coinSymbol = some i) : Routing cfg s (.load c) (s.route c r i)
  | unknown {c r} (hc : s.calls[c]? = some ⟨r, .load⟩)
      (hnone : s.assignments.lookup r.coinSymbol = none) :
      Routing cfg s (.load c) { s with calls := s.calls.set c ⟨r, .pick⟩ }
  | picked {c r} {i : Fin n} (hc : s.calls[c]? = some ⟨r, .pick⟩)
      (hi : candidate n s.nextShard = some i) :
      Routing cfg s (.pick c) { s with
        nextShard := s.nextShard + 1, calls := s.calls.set c ⟨r, .store i⟩ }
  | panicked {c r} (hc : s.calls[c]? = some ⟨r, .pick⟩) (hi : candidate n s.nextShard = none) :
      Routing cfg s (.pick c) { s with nextShard := s.nextShard + 1, calls := s.calls.eraseIdx c }
  | late {c r} {mine i : Fin n} (hc : s.calls[c]? = some ⟨r, .store mine⟩)
      (hi : s.assignments.lookup r.coinSymbol = some i) : Routing cfg s (.store c) (s.route c r i)
  | assigned {c r} {i : Fin n} (hc : s.calls[c]? = some ⟨r, .store i⟩)
      (hnone : s.assignments.lookup r.coinSymbol = none) :
      Routing cfg s (.store c)
        (State.route { s with assignments := (r.coinSymbol, i) :: s.assignments } c r i)
  | sent {c r t} {i : Fin n} {l : Engine.Label} (hc : s.calls[c]? = some ⟨r, .ask i⟩)
      (hl : r.sends? = some l) (ht : Shard.step cfg (.engine l) (s.shard i) = some t) :
      Routing cfg s (.ask c) { s.put i (.engine l) t with calls := s.calls.eraseIdx c }
  | read {c r} {i : Fin n} (hc : s.calls[c]? = some ⟨r, .ask i⟩) (hl : r.sends? = none) :
      Routing cfg s (.ask c) { s with calls := s.calls.eraseIdx c }
  | gaveUp {c r} {i : Fin n} (hc : s.calls[c]? = some ⟨r, .ask i⟩) (ht : r.timesOut = true) :
      Routing cfg s (.giveUp c) { s with calls := s.calls.eraseIdx c }
  | shard {t} {i : Fin n} {l : Shard.Label} (hown : ownLabel l = true)
      (ht : Shard.step cfg l (s.shard i) = some t) : Routing cfg s (.shard i l) (s.put i l t)
  | consume {e rest} (hch : s.merged = e :: rest) :
      Routing cfg s .consume { s with merged := rest, received := s.received ++ [e] }
  | close (hall : (∀ i, s.forwarders i = .ended) ∧ s.mergedClosed = false) :
      Routing cfg s .close { s with mergedClosed := true }

theorem routing_of_step (h : step cfg l s = some s') :
    Routing cfg s l s' := by
  cases l with
  | call r =>
    cases h
    exact .call r
  | load c =>
    simp only [step] at h
    split at h
    · rename_i hc
      split at h <;> rename_i hi
      · cases h
        exact .known hc hi
      · cases h
        exact .unknown hc hi
    · cases h
  | pick c =>
    simp only [step] at h
    split at h
    · rename_i hc
      split at h <;> rename_i hi
      · cases h
        exact .picked hc hi
      · cases h
        exact .panicked hc hi
    · cases h
  | store c =>
    simp only [step] at h
    split at h
    · rename_i hc
      split at h <;> rename_i hi
      · cases h
        exact .late hc hi
      · cases h
        exact .assigned hc hi
    · cases h
  | ask c =>
    simp only [step] at h
    split at h
    · rename_i hc
      split at h <;> rename_i hl
      · obtain ⟨t, ht, h⟩ := Option.map_eq_some_iff.mp h
        cases h
        exact .sent hc hl ht
      · cases h
        exact .read hc hl
    · cases h
  | giveUp c =>
    simp only [step] at h
    split at h
    · rename_i hc
      obtain ⟨ht, rfl⟩ := Lts.of_enabled h
      exact .gaveUp hc ht
    · cases h
  | shard i l =>
    obtain ⟨hown, h⟩ := Option.ite_none_right_eq_some.mp h
    obtain ⟨t, ht, h⟩ := Option.map_eq_some_iff.mp h
    cases h
    exact .shard hown ht
  | consume =>
    simp only [step] at h
    split at h
    · rename_i hch
      cases h
      exact .consume hch
    · cases h
  | close =>
    obtain ⟨hall, rfl⟩ := Lts.of_enabled h
    exact .close hall

/-- A step of a call, of a shard, of the consumer, or the close. -/
inductive Transition (cfg : EngineConfig) (s : State n) : State n → Prop
  | call {calls : List (Call n)} {nextShard}
      (hask : ∀ r i, ⟨r, .ask i⟩ ∈ calls → ⟨r, .ask i⟩ ∈ s.calls) :
      Transition cfg s { s with calls := calls, nextShard := nextShard }
  | known {c r} {i : Fin n} (hi : s.assignments.lookup r.coinSymbol = some i) :
      Transition cfg s (s.route c r i)
  | assigned {c r} {i : Fin n} (hnone : s.assignments.lookup r.coinSymbol = none) :
      Transition cfg s
        (State.route { s with assignments := (r.coinSymbol, i) :: s.assignments } c r i)
  | shard {t calls} {i : Fin n} {l : Shard.Label} (hcalls : calls ⊆ s.calls)
      (hstep : Shard.step cfg l (s.shard i) = some t) (hmove : Shard.Moved cfg (s.shard i) l t)
      (hask : ∀ l', l = .engine l' → ∀ x ∈ l'.asks?, ∃ r, r.coinSymbol = x ∧
        ⟨r, .ask i⟩ ∈ s.calls) :
      Transition cfg s { s.put i l t with calls := calls }
  | consume {e rest} (hch : s.merged = e :: rest) :
      Transition cfg s { s with merged := rest, received := s.received ++ [e] }
  | close (hended : ∀ i, s.forwarders i = .ended) : Transition cfg s { s with mergedClosed := true }

theorem mem_of_eraseIdx (s : State n) (c : Nat) : s.calls.eraseIdx c ⊆ s.calls :=
  (List.eraseIdx_sublist _ _).subset

/-- Only `route` gives a call its shard. -/
theorem mem_set_calls {c : Nat} {call call' : Call n} (h : call ∈ s.calls.set c call') :
    call ∈ s.calls ∨ call = call' :=
  List.mem_or_eq_of_mem_set h

theorem Request.asks_sends {r : Request} {l : Engine.Label} (h : r.sends? = some l) :
    l.asks? = some r.coinSymbol ∧ l ≠ .consume := by
  cases r <;> cases h <;> exact ⟨rfl, nofun⟩

theorem move_of_step (h : step cfg l s = some s') : Transition cfg s s' := by
  cases routing_of_step h with
  | call r =>
    refine .call fun r' i hm => ?_
    simpa using hm
  | known _ hi | late _ hi => exact .known hi
  | assigned _ hnone => exact .assigned hnone
  | unknown | picked =>
    refine .call fun r' i hm => (mem_set_calls hm).resolve_right ?_
    simp
  | panicked | read | gaveUp => exact .call fun r' i hm => mem_of_eraseIdx s _ hm
  | sent hc hl ht =>
    obtain ⟨hasks, hne⟩ := Request.asks_sends hl
    refine .shard (mem_of_eraseIdx s _) ht
      ((Shard.moved_of_step ht).resolve_right fun h => by cases h.1) fun l' hl' x hx => ?_
    cases hl'
    rw [hasks] at hx
    cases hx
    exact ⟨_, rfl, List.mem_of_getElem? hc⟩
  | @shard t i l hown ht =>
    have hown' : l.foreign = false := by cases l <;> first | rfl | cases hown
    refine .shard (List.Subset.refl _) ht ((Shard.moved_of_step ht).resolve_right (by simp [hown']))
      fun l' hl' x hx => ?_
    subst hl'
    cases l' <;> cases hx <;> cases hown
  | consume hch => exact .consume hch
  | close hall => exact .close hall.1

/-! ## Each shard by itself -/

/-- A shard runs as it does alone: the rest of the system is its neighbour and the consumer. -/
theorem Transition.reach_shard (h : Transition cfg s s') (j : Fin n) :
    Lts.Reach (Shard.step cfg) Lts.free (s.shard j) (s'.shard j) := by
  cases h with
  | call | known | assigned | close => exact .refl
  | @consume e rest hch =>
    have hstep : Shard.step cfg .consume (s.shard j) =
        some ⟨s.engines j, s.forwarders j, rest⟩ := by
      simp [Shard.step, State.shard, hch]
    exact Lts.Reach.refl.next trivial hstep
  | @shard t calls i l _ hstep hmove =>
    by_cases hj : j = i
    · subst hj
      have ht : State.shard { s.put j l t with calls := calls } j = t := by
        simp [State.shard, State.put]
      rw [ht]
      exact Lts.Reach.refl.next trivial hstep
    · have ht : State.shard { s.put i l t with calls := calls } j =
          ⟨s.engines j, s.forwarders j, t.merged⟩ := by
        simp [State.shard, State.put, Function.update_of_ne hj]
      rw [ht]
      cases hmove with
      | @forward e _ hroom =>
        have hother : Shard.step cfg (.otherShard e) (s.shard j) =
            some ⟨s.engines j, s.forwarders j, s.merged ++ [e]⟩ := if_pos hroom
        exact Lts.Reach.refl.next trivial hother
      | _ => exact .refl

section Runs

variable [NeZero n] {engineIDs : Fin n → Nat}

theorem reach_shard (h : Lts.Reach (step cfg) Lts.free (init n engineIDs) s) (j : Fin n) :
    Lts.Reach (Shard.step cfg) Lts.free (Shard.init (engineIDs j)) (s.shard j) :=
  h.project (State.shard · j) fun _ _ _ _ _ hs => (move_of_step hs).reach_shard j

theorem reach_engine (h : Lts.Reach (step cfg) Lts.free (init n engineIDs) s) (j : Fin n) :
    Lts.Reach (Engine.step cfg) Lts.free (Engine.init (engineIDs j)) (s.engines j) :=
  Shard.reach_engine (reach_shard h j)

end Runs

/-! ## From the shards to the merged channel -/

/-- The event a forwarder holds. -/
def hand : Shard.Forwarder → List ExecutionEvent
  | .signalling e | .forwarding e => [e]
  | _ => []

/-- A step of a shard moves events towards the merged channel, and what it emits goes to the end of
the row. -/
theorem flow_of_moved {a a' : Shard.State} {l : Shard.Label} (h : Shard.Moved cfg a l a')
    (hi : ReserveInv cfg a.engine) (i : Fin n) :
    ∃ new, a'.merged = a.merged ++ (handedOver i l a.forwarder).map Prod.snd ∧
      (handedOver i l a.forwarder).map Prod.snd ++ hand a'.forwarder ++ a'.engine.executionCh =
        hand a.forwarder ++ a.engine.executionCh ++ new ∧
      events a'.engine = events a.engine ++ new := by
  cases h with
  | engine hl hstep =>
    obtain ⟨new, hch, hev, -⟩ := (stepped_of_step hi hstep).emits hl.1
    exact ⟨new, by simp [handedOver], by simp [handedOver, hch], hev⟩
  | receive hidle hch =>
    exact ⟨[], by simp [handedOver], by simp [handedOver, hand, hidle, hch], by simp [events]⟩
  | done hidle hch => exact ⟨[], by simp [handedOver], by simp [handedOver, hand, hidle], by simp⟩
  | signal hgot =>
    exact ⟨[], by simp [handedOver], by simp [handedOver, hand, hgot], by simp [events]⟩
  | forward hsent =>
    exact ⟨[], by simp [handedOver, hsent], by simp [handedOver, hand, hsent], by simp⟩

/-- A forwarder that has ended stays so, and its shard is silent. -/
theorem ended_of_moved {a a' : Shard.State} {l : Shard.Label} (h : Shard.Moved cfg a l a')
    (hi : ReserveInv cfg a.engine) (hend : ClosedLast a.engine)
    (ha : a.forwarder = .ended → a.engine.outputsClosed = true ∧ a.engine.executionCh = []) :
    (a.forwarder = .ended → a'.forwarder = .ended ∧ events a'.engine = events a.engine) ∧
      (a'.forwarder = .ended → a'.engine.outputsClosed = true ∧ a'.engine.executionCh = []) := by
  cases h with
  | engine hl hstep =>
    have hsilent := fun hf => (stepped_of_step hi hstep).silent (hend (ha hf).1)
    refine ⟨fun hf => ⟨hf, by rw [events, (hsilent hf).emitted]; rfl⟩, fun hf => ⟨?_, ?_⟩⟩
    · exact (hsilent hf).outputsClosed.trans (ha hf).1
    · exact List.suffix_nil.mp ((ha hf).2 ▸ (hsilent hf).executionCh)
  | receive hidle | signal hidle | forward hidle =>
    exact ⟨(fun hf => by cases hidle.symm.trans hf), (fun hf => by cases hf)⟩
  | done hidle hch hout =>
    exact ⟨(fun hf => by cases hidle.symm.trans hf), fun _ => ⟨hout, hch⟩⟩

/-- Everything that went onto the merged channel. -/
def stream (s : State n) : List ExecutionEvent := s.received ++ s.merged

/-- What came from shard `i`. -/
def fromShard (s : State n) (i : Fin n) : List ExecutionEvent :=
  (s.forwarded.filter (fun p => p.1 = i)).map Prod.snd

structure FlowInv (s : State n) : Prop where
  stream_eq : stream s = s.forwarded.map Prod.snd
  shards : ∀ i, fromShard s i ++ hand (s.forwarders i) ++ (s.engines i).executionCh =
    events (s.engines i)
  ended : ∀ i, s.forwarders i = .ended → (s.engines i).outputsClosed = true ∧
    (s.engines i).executionCh = []
  closed : s.mergedClosed = true → ∀ i, s.forwarders i = .ended

theorem init_flow [NeZero n] (engineIDs : Fin n → Nat) : FlowInv (init n engineIDs) := by
  constructor <;> simp [init, stream, fromShard, hand, events, Engine.init]

theorem filter_handedOver (i j : Fin n) (l : Shard.Label) (f : Shard.Forwarder) :
    (handedOver i l f).filter (fun p => p.1 = j) = if i = j then handedOver i l f else [] := by
  unfold handedOver
  split
  · by_cases h : i = j <;> simp [h]
  · simp

theorem fromShard_put (s : State n) (i j : Fin n) (l : Shard.Label) (t : Shard.State) :
    fromShard (s.put i l t) j =
      fromShard s j ++ if i = j then (handedOver i l (s.forwarders i)).map Prod.snd else [] := by
  simp only [fromShard, State.put, List.filter_append, List.map_append, filter_handedOver]
  split <;> rfl

theorem FlowInv.put (h : FlowInv s) {l : Shard.Label} {t : Shard.State}
    (hm : Shard.Moved cfg (s.shard i) l t)
    (hi : ReserveInv cfg (s.engines i)) (hend : ClosedLast (s.engines i)) :
    FlowInv (s.put i l t) := by
  obtain ⟨new, hmerged, hrow, hev⟩ := flow_of_moved hm hi i
  obtain ⟨hkeep, hended⟩ := ended_of_moved hm hi hend (h.ended i)
  refine ⟨?_, fun j => ?_, fun j hj => ?_, fun hc j => ?_⟩
  · have hs := h.stream_eq
    simp only [stream, State.put, hmerged, State.shard, List.map_append, ← List.append_assoc]
      at hs ⊢
    rw [hs]
  · rw [fromShard_put]
    by_cases hij : i = j
    · subst hij
      have hrow' : (handedOver i l (s.forwarders i)).map Prod.snd ++
          (hand t.forwarder ++ t.engine.executionCh) =
          hand (s.forwarders i) ++ ((s.engines i).executionCh ++ new) := by
        simpa [State.shard] using hrow
      have hev' : events t.engine = events (s.engines i) ++ new := hev
      simp only [State.put, Function.update_self, if_true, hev', ← h.shards i,
        List.append_assoc, hrow']
    · have hne := Ne.symm hij
      simpa [State.put, hij, Function.update_of_ne hne] using h.shards j
  · by_cases hij : i = j
    · subst hij
      simp only [State.put, Function.update_self] at hj ⊢
      exact hended hj
    · have hne := Ne.symm hij
      simp only [State.put, Function.update_of_ne hne] at hj ⊢
      exact h.ended j hj
  · by_cases hij : i = j
    · subst hij
      simp only [State.put, Function.update_self]
      exact (hkeep (h.closed hc i)).1
    · have hne := Ne.symm hij
      simp only [State.put, Function.update_of_ne hne]
      exact h.closed hc j

theorem FlowInv.move (h : FlowInv s) (hm : Transition cfg s s')
    (hi : ∀ i, ReserveInv cfg (s.engines i))
    (hend : ∀ i, ClosedLast (s.engines i)) : FlowInv s' := by
  cases hm with
  | call | known | assigned => exact { h with }
  | shard _ _ hmove => exact { h.put hmove (hi _) (hend _) with }
  | consume hch =>
    refine { h with stream_eq := ?_ }
    have hs := h.stream_eq
    simp only [stream, hch] at hs ⊢
    simpa using hs
  | close hall => exact { h with closed := fun _ => hall }

theorem reach_flow [NeZero n] {engineIDs : Fin n → Nat}
    (h : Lts.Reach (step cfg) Lts.free (init n engineIDs) s) : FlowInv s :=
  h.invariant FlowInv (init_flow engineIDs) fun _ _ _ hr hi _ hs =>
    hi.move (move_of_step hs) (fun i => reach_reserve (reach_engine hr i)) fun i =>
      reach_closed (reach_engine hr i)

end GoExchange.Sharded
