import GoExchange.EngineMoves

/-!
# A shard and its forwarder

`sharded.go`: each shard is an engine of its own, and one forwarder moves its
events to the channel all shards share. After each receive the forwarder drops
a token into `capacityCh`, if there is room for it, and only then hands the
event on. A parked engine waits for that token.
-/
namespace GoExchange.Shard

open Engine Matching

/-- Where the forwarder stands: at the head of its loop, before the token, before the hand-over, or
past the loop. -/
inductive Forwarder where
  | receiving
  | signalling (e : ExecutionEvent)
  | forwarding (e : ExecutionEvent)
  | ended
  deriving DecidableEq, Repr

/-- One shard; `merged` is the channel all shards write to. -/
structure State where
  engine : Engine.State
  forwarder : Forwarder
  merged : List ExecutionEvent

def init (engineID : Nat) : State := ⟨Engine.init engineID, .receiving, []⟩

def mergedCapacity : Nat := 1024

/-- The engine with its producers and ticker, the forwarder, and the other users of the shared
channel. -/
inductive Label where
  | engine (l : Engine.Label)
  | receive
  | signal
  | forward
  | otherShard (e : ExecutionEvent)
  | consume
  deriving DecidableEq, Repr

section

variable (cfg : EngineConfig)

/-- `range` over the shard's channel: the next event, or the end once it is closed and empty. -/
def receive (s : State) : Option State :=
  match s.engine.executionCh with
  | e :: rest =>
    some { s with engine := { s.engine with executionCh := rest }, forwarder := .signalling e }
  | [] => if s.engine.outputsClosed then some { s with forwarder := .ended } else none

/-- The forwarder is the only one to take events off the shard's channel and to send tokens. -/
def step : Label → State → Option State
  | .engine .consume, _ | .engine .wake, _ => none
  | .engine l, s => (Engine.step cfg l s.engine).map fun t => { s with engine := t }
  | .receive, s =>
    match s.forwarder with
    | .receiving => receive s
    | _ => none
  | .signal, s =>
    match s.forwarder with
    | .signalling e =>
      some { s with engine := { s.engine with capacityCh := true }, forwarder := .forwarding e }
    | _ => none
  | .forward, s =>
    match s.forwarder with
    | .forwarding e =>
      if s.merged.length < mergedCapacity then
        some { s with merged := s.merged ++ [e], forwarder := .receiving }
      else none
    | _ => none
  | .otherShard e, s =>
    if s.merged.length < mergedCapacity then some { s with merged := s.merged ++ [e] } else none
  | .consume, s => some { s with merged := s.merged.tail }

end

variable {cfg : EngineConfig} {s s' : State} {l : Label} {engineID : Nat}

/-! ## What the engine sees of it -/

/-- One step of a shard or its forwarder. -/
inductive Moved (cfg : EngineConfig) (s : State) : Label → State → Prop
  | engine {l : Engine.Label} {t : Engine.State} (hl : l ≠ .consume ∧ l ≠ .wake)
      (hstep : Engine.step cfg l s.engine = some t) : Moved cfg s (.engine l) { s with engine := t }
  | receive {e rest} (hidle : s.forwarder = .receiving) (hch : s.engine.executionCh = e :: rest) :
      Moved cfg s .receive { s with
        engine := { s.engine with executionCh := rest }, forwarder := .signalling e }
  | done (hidle : s.forwarder = .receiving) (hch : s.engine.executionCh = [])
      (hout : s.engine.outputsClosed = true) : Moved cfg s .receive { s with forwarder := .ended }
  | signal {e} (hgot : s.forwarder = .signalling e) :
      Moved cfg s .signal { s with
        engine := { s.engine with capacityCh := true }, forwarder := .forwarding e }
  | forward {e} (hsent : s.forwarder = .forwarding e) (hroom : s.merged.length < mergedCapacity) :
      Moved cfg s .forward { s with merged := s.merged ++ [e], forwarder := .receiving }

/-- The steps of the other shards and the consumer. -/
def Label.foreign : Label → Bool
  | .otherShard _ | .consume => true
  | _ => false

/-- The others change the shared channel only. -/
theorem moved_of_step (h : step cfg l s = some s') :
    Moved cfg s l s' ∨ l.foreign = true ∧ ∃ merged, s' = { s with merged := merged } := by
  cases l with
  | engine l =>
    have hl : l ≠ .consume ∧ l ≠ .wake := by
      constructor <;> rintro rfl <;> cases h
    have h : (Engine.step cfg l s.engine).map (fun t => { s with engine := t }) = some s' := by
      cases l <;> first | exact h | cases h
    obtain ⟨t, ht, h⟩ := Option.map_eq_some_iff.mp h
    cases h
    exact .inl (.engine hl ht)
  | receive =>
    simp only [step] at h
    split at h
    · rename_i hidle
      unfold receive at h
      split at h <;> rename_i hch
      · cases h
        exact .inl (.receive hidle hch)
      · obtain ⟨hout, rfl⟩ := Lts.of_enabled h
        exact .inl (.done hidle hch hout)
    · cases h
  | signal =>
    simp only [step] at h
    split at h
    · rename_i hgot
      cases h
      exact .inl (.signal hgot)
    · cases h
  | forward =>
    simp only [step] at h
    split at h
    · rename_i hsent
      obtain ⟨hroom, rfl⟩ := Lts.of_enabled h
      exact .inl (.forward hsent hroom)
    · cases h
  | otherShard e =>
    obtain ⟨-, rfl⟩ := Lts.of_enabled h
    exact .inr ⟨rfl, _, rfl⟩
  | consume =>
    cases h
    exact .inr ⟨rfl, _, rfl⟩

/-- The engine of a shard runs as an engine does. -/
theorem reach_engine_of_step (h : step cfg l s = some s') :
    Lts.Reach (Engine.step cfg) Lts.free s.engine s'.engine := by
  rcases moved_of_step h with h | ⟨-, _, rfl⟩
  · cases h with
    | engine hl hstep => exact Lts.Reach.refl.next trivial hstep
    | receive hidle hch =>
      exact Lts.Reach.refl.next (a := .consume) trivial (by simp only [Engine.step, hch])
    | signal hgot =>
      have hstep : Engine.step cfg .wake s.engine = some { s.engine with capacityCh := true } := rfl
      exact Lts.Reach.refl.next trivial hstep
    | done | forward => exact .refl
  · exact .refl

theorem reach_engine (h : Lts.Reach (step cfg) Lts.free (init engineID) s) :
    Lts.Reach (Engine.step cfg) Lts.free (Engine.init engineID) s.engine :=
  h.project State.engine fun _ _ _ _ _ hs => reach_engine_of_step hs

/-! ## No wake-up is lost -/

/-- A parked engine still has no room for its slice, or a token is there, or one is on its way. -/
def Awake (cfg : EngineConfig) (s : State) : Prop :=
  s.engine.pc = .parkSelect →
    sliceBlockedNow cfg s.engine = true ∨ s.engine.capacityCh = true ∨
    ∃ e, s.forwarder = .signalling e

/-- The engine parks only where it has just found its slice blocked; what others do while it is
parked leaves its sweep, its channel and the token alone. -/
theorem parkSelect_of_step {t t' : Engine.State} {l : Engine.Label} (hi : ReserveInv cfg t)
    (hl : l ≠ .consume ∧ l ≠ .wake) (h : Engine.step cfg l t = some t')
    (hpc : t'.pc = .parkSelect) : sliceBlockedNow cfg t' = true ∨
      t.pc = .parkSelect ∧ sliceBlockedNow cfg t' = sliceBlockedNow cfg t ∧
      t'.capacityCh = t.capacityCh := by
  cases stepped_of_step hi h with
  | turn hturn =>
    cases hturn with
    | park _ hblocked => exact .inl hblocked
    | _ => cases hpc
  | flush symbol hpc' =>
    have hsame : t.pc = .parkSelect := hpc
    rcases hpc' with ⟨hadActive, hpc'⟩ | hpc' <;> cases hsame.symm.trans hpc'
  | recvCancel | recvOrder | recvTick | recvStop | recvCapacity => cases hpc
  | submitOrder | sendCancel | consumeSnapshot | tick | stop => exact .inr ⟨hpc, rfl, rfl⟩
  | consume => exact absurd rfl hl.1
  | wake => exact absurd rfl hl.2

theorem Awake.step (h : Awake cfg s) (hi : ReserveInv cfg s.engine) (hs : step cfg l s = some s') :
    Awake cfg s' := by
  intro hpc
  rcases moved_of_step hs with hm | ⟨-, _, rfl⟩
  swap
  · exact h hpc
  cases hm with
  | engine hl hstep =>
    rcases parkSelect_of_step hi hl hstep hpc with hblocked | ⟨hparked, hblocked, hcap⟩
    · exact .inl hblocked
    · rcases h hparked with hb | hc | hf
      · exact .inl (hblocked.trans hb)
      · exact .inr (.inl (hcap.trans hc))
      · exact .inr (.inr hf)
  | receive => exact .inr (.inr ⟨_, rfl⟩)
  | signal => exact .inr (.inl rfl)
  | done hidle | forward hidle =>
    rcases h hpc with hb | hc | ⟨e, hf⟩
    · exact .inl hb
    · exact .inr (.inl hc)
    · cases hidle.symm.trans hf

theorem reach_awake (h : Lts.Reach (step cfg) Lts.free (init engineID) s) : Awake cfg s :=
  h.invariant (Awake cfg) (fun hpc => by cases hpc) fun _ _ _ hr hi _ hs =>
    hi.step (reach_reserve (reach_engine hr)) hs

/-- A slice is only blocked while events wait in the channel: an empty one has room for it. -/
theorem executionCh_ne_nil_of_blocked {t : Engine.State} (h : sliceBlockedNow cfg t = true) :
    t.executionCh ≠ [] := by
  intro hnil
  have hfree : free cfg t = cfg.executionCapacity := by simp [free, hnil]
  have hcap : hasSliceCapacity cfg t = true := by
    rw [hasSliceCapacity, hfree, cfg.hasSliceCapacity_iff (by omega) le_rfl]
    exact cfg.reserve_le
  simp [sliceBlockedNow, hcap] at h

/-- Over every interleaving of a shard's engine and its forwarder, with no help from the ticker: an
engine that waits parked while its channel is empty and the forwarder waits for the next event has a
token to wake it. A parked engine whose slice has found room has one too, unless the forwarder is
just about to send it. -/
theorem parked_engine_is_woken (cfg : EngineConfig) (engineID : Nat) {s : State}
    (h : Lts.Reach (step cfg) Lts.free (init engineID) s) :
    ¬ (s.engine.pc = .parkSelect ∧ s.engine.capacityCh = false ∧ s.engine.executionCh = [] ∧
        s.forwarder = .receiving) ∧
      (s.engine.pc = .parkSelect → sliceBlockedNow cfg s.engine = false →
        (step cfg (.engine .recvCapacity) s).isSome = true ∨ ∃ e, s.forwarder = .signalling e) := by
  have hawake := reach_awake h
  constructor
  · rintro ⟨hpc, hcap, hempty, hidle⟩
    rcases hawake hpc with hblocked | htoken | ⟨e, hgot⟩
    · exact executionCh_ne_nil_of_blocked hblocked hempty
    · rw [hcap] at htoken
      cases htoken
    · rw [hidle] at hgot
      cases hgot
  · intro hpc hroom
    rcases hawake hpc with hblocked | htoken | hgot
    · rw [hroom] at hblocked
      cases hblocked
    · exact .inl (by simp [step, Engine.step, hpc, htoken])
    · exact .inr hgot

/-- Two orders to sell and one that takes both: after its first execution the next slice has no
room. -/
def parkingTurns : List Engine.Label :=
  [.submitOrder ⟨1, 1, 1, 0, "BTC", .sell, 0, 0, .limit, 10⟩,
    .submitOrder ⟨2, 2, 1, 0, "BTC", .sell, 0, 0, .limit, 10⟩,
    .submitOrder ⟨3, 3, 2, 0, "BTC", .buy, 0, 0, .limit, 10⟩] ++
  List.replicate 17 .advance ++ [.recvOrder] ++ List.replicate 17 .advance ++ [.recvOrder] ++
  List.replicate 18 .advance

/-- The forwarder takes the event that was in the way. -/
def parkedSweep : List Label := parkingTurns.map .engine ++ [.receive, .signal, .forward]

theorem parked_engine_is_woken_parkedSweep :
    ∃ s, Lts.exec (step smallestConfig) parkedSweep (init 1) = some s ∧ s.engine.pc = .parkSelect ∧
      s.engine.executionCh = [] ∧ s.forwarder = .receiving ∧ s.engine.capacityCh = true := by
  have hrun : (Lts.exec (step smallestConfig) parkedSweep (init 1)).map
      (fun s => (s.engine.pc, s.engine.executionCh, s.forwarder)) =
        some (.parkSelect, [], .receiving) := by
    decide +kernel
  obtain ⟨s, hs, hend⟩ := Option.map_eq_some_iff.mp hrun
  simp only [Prod.mk.injEq] at hend
  obtain ⟨hpc, hch, hidle⟩ := hend
  have hnever := (parked_engine_is_woken smallestConfig 1 (Lts.reach_of_exec _ hs)).1
  refine ⟨s, hs, hpc, hch, hidle, ?_⟩
  cases hcap : s.engine.capacityCh with
  | true => rfl
  | false => exact absurd ⟨hpc, hcap, hch, hidle⟩ hnever

end GoExchange.Shard
