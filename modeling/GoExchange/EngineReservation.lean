import GoExchange.EngineTurns

/-!
# Reservations on the execution channel

A slice starts with room for all it may emit, and a cancel is taken with one
slot free, so every emission finds its reservation open and a slot free.
-/
namespace GoExchange.Engine

open Matching

variable {cfg : EngineConfig} {s s' : State} {l : Label}

/-- Positions of the engine at which it holds no reservation. -/
def Pc.Calm : Pc → Prop
  | .cancelTake _ _ reject => reject = true
  | .matching _ _ | .sliced _ _ _ => False
  | .crashed p => p = .divisionByZero
  | _ => True

theorem init_reserve (engineID : Nat) : ReserveInv cfg (init engineID) :=
  ⟨Nat.zero_le _, trivial, by simp [init]⟩

theorem granted_of_calm (h : s.pc.Calm) : Granted cfg s := by
  unfold Granted
  cases hpc : s.pc with
  | cancelTake hadActive rejectBudget reject =>
    rw [hpc] at h
    cases h
    trivial
  | matching | sliced => rw [hpc] at h; exact h.elim
  | crashed p => rw [hpc] at h; exact h
  | _ => trivial

/-- Steps that emit nothing and end outside a reservation. -/
theorem ReserveInv.calm (h : ReserveInv cfg s) (hch : s'.executionCh = s.executionCh)
    (hem : s'.emitted = s.emitted) (hpc : s'.pc.Calm) : ReserveInv cfg s' where
  room := hch ▸ h.room
  granted := granted_of_calm hpc
  log := hem ▸ h.log

/-- An event is put on the channel, sent under the reservation. -/
theorem ReserveInv.sent (h : ReserveInv cfg s) (hfree : 0 < free cfg s) {em : Emission}
    (hem : s'.emitted = s.emitted ++ [em]) (hch : s'.executionCh = s.executionCh ++ [em.event])
    (hbacked : em.Backed) (hgranted : Granted cfg s') : ReserveInv cfg s' where
  room := by
    simp only [free] at hfree
    rw [hch, List.length_append, List.length_singleton]
    omega
  granted := hgranted
  log := by
    rw [hem]
    exact Rows.forall_mem_concat h.log hbacked

theorem ReserveInv.turn (h : ReserveInv cfg s) (ht : Turn cfg s s') : ReserveInv cfg s' := by
  cases ht with
  | accept _ _ hfree => exact ⟨h.room, hfree, h.log⟩
  | reject | panicked => exact h.calm rfl rfl rfl
  | removed hpc =>
    have hfree := h.free_of_cancelTake hpc
    exact h.sent hfree rfl rfl ⟨rfl, one_pos, hfree⟩ (granted_of_calm trivial)
  | beginSlice _ hsweep hcap =>
    -- the start condition covers the whole slice and its last event
    have hm := cfg.one_le
    have hroom := h.room
    have hslots := (cfg.hasSliceCapacity_iff (by simp only [free]; omega)
      (by simp only [free]; omega)).mp hcap
    refine ⟨h.room, ⟨hsweep, rfl, ?_, by simp; omega, ?_⟩, h.log⟩
    · simp [beginReservation]
    · simp only [beginReservation, free] at hslots ⊢
      omega
  | trade hpc hsweep hkind hact hbudget =>
    obtain ⟨hsome, hact, hrem, hle, hfree⟩ := h.of_matching hpc
    have hpos : 0 < s.reservationRemaining := by omega
    refine h.sent (hpos.trans_le hfree) rfl rfl ⟨hact, hpos, hpos.trans_le hfree⟩
      ⟨rfl, hact, ?_, ?_, ?_⟩
    · simp only [traded, hrem]
      push_cast
      ring
    · push_cast
      omega
    · simp only [traded, free, List.length_append, List.length_singleton] at hfree ⊢
      push_cast
      omega
  | matched hpc => exact ⟨h.room, h.of_matching hpc, h.log⟩
  | marketDone hpc _ _ _ _ hbacked =>
    obtain ⟨-, -, hrem, hle, hfree⟩ := h.of_sliced hpc
    exact h.sent (by omega) rfl rfl hbacked (granted_of_calm trivial)
  | _ => exact h.calm rfl rfl trivial

/-- Steps of the surroundings leave the engine where it is and only make room. -/
theorem ReserveInv.around (h : ReserveInv cfg s)
    (hch : s'.executionCh.length ≤ s.executionCh.length)
    (hem : s'.emitted = s.emitted) (hpc : s'.pc = s.pc) (hsw : s'.activeSweep = s.activeSweep)
    (hact : s'.reservationActive = s.reservationActive)
    (hrem : s'.reservationRemaining = s.reservationRemaining) : ReserveInv cfg s' where
  room := hch.trans h.room
  granted := by
    have hfree : free cfg s ≤ free cfg s' := by simp only [free]; omega
    have := h.granted
    simp only [Granted, Reserved] at this ⊢
    rw [hpc, hsw, hact, hrem]
    split <;> simp_all <;> omega
  log := hem ▸ h.log

theorem ReserveInv.step (h : ReserveInv cfg s) (hs : step cfg l s = some s') :
    ReserveInv cfg s' := by
  cases stepped_of_step h hs with
  | turn ht => exact h.turn ht
  | recvCancel | recvOrder | recvTick | recvStop | recvCapacity => exact h.calm rfl rfl trivial
  | consume hch => exact h.around (by simp [hch]) rfl rfl rfl rfl rfl
  | flush | submitOrder | sendCancel | consumeSnapshot | tick | stop | wake =>
    exact h.around le_rfl rfl rfl rfl rfl rfl

theorem reach_reserve {engineID : Nat} {ok : State → Label → Prop}
    (h : Lts.Reach (step cfg) ok (init engineID) s) : ReserveInv cfg s :=
  h.invariant (ReserveInv cfg) (init_reserve engineID) fun _ _ _ _ hi _ hs => hi.step hs

/-- Over every interleaving, no send panics, every event is sent inside an open reservation that is
not used up and finds a free slot, and the engine is never held up where it emits. -/
theorem sendExecution_never_panics (cfg : EngineConfig) (engineID : Nat) {s : State}
    (h : Lts.Reach (step cfg) Lts.free (init engineID) s) :
    (∀ p, s.pc = .crashed p → p = .divisionByZero) ∧
    (∀ e ∈ s.emitted, e.reserved = true ∧ 0 < e.remaining ∧ 0 < e.free) ∧
    s.executionCh.length ≤ cfg.executionCapacity ∧
    (∀ hadActive rejectBudget reject, s.pc = .cancelTake hadActive rejectBudget reject →
      (advance cfg s).isSome = true) ∧
    (∀ hadActive trades, s.pc = .matching hadActive trades → (advance cfg s).isSome = true) ∧
    (∀ hadActive trades done, s.pc = .sliced hadActive trades done →
      (advance cfg s).isSome = true) := by
  have hi := reach_reserve h
  refine ⟨fun p hp => ?_, hi.log, hi.room, ?_, ?_, ?_⟩
  · have := hi.granted
    simpa only [Granted, hp] using this
  · intro hadActive rejectBudget reject hpc
    obtain ⟨t, ht, -⟩ := turn_cancelTake hi hpc
    simp [advance, hpc, ht]
  · intro hadActive trades hpc
    obtain ⟨t, ht, -⟩ := turn_matchingStep hi hpc
    simp [advance, hpc, ht]
  · intro hadActive trades done hpc
    obtain ⟨t, ht, -⟩ := turn_slicedStep hi hpc
    simp [advance, hpc, ht]

/-- The smallest limits that pass both checks. -/
def smallestConfig : EngineConfig where
  maxMatchesPerTurn := 1
  maxConsecutiveCancels := 1
  executionCapacity := 3
  capacity_isInt64 := by decide
  matches_isInt64 := by decide
  cancels_isInt64 := by decide
  valid := rfl
  fits := rfl

/-- An order to sell one coin, an order to buy it, and the turns up to their trade. -/
def oneTrade : List Label :=
  [.submitOrder ⟨1, 1, 1, 0, "BTC", .sell, 0, 0, .limit, 10⟩,
    .submitOrder ⟨2, 2, 1, 0, "BTC", .buy, 0, 0, .limit, 10⟩] ++
  List.replicate 17 .advance ++ [.recvOrder] ++ List.replicate 15 .advance

theorem sendExecution_never_panics_oneTrade :
    ∃ s, Lts.exec (step smallestConfig) oneTrade (init 1) = some s ∧ s.emitted.length = 1 ∧
      ∀ e ∈ s.emitted, e.reserved = true ∧ 0 < e.remaining ∧ 0 < e.free := by
  have hrun : (Lts.exec (step smallestConfig) oneTrade (init 1)).map (fun s => s.emitted.length) =
      some 1 := by
    decide +kernel
  obtain ⟨s, hs, hlen⟩ := Option.map_eq_some_iff.mp hrun
  exact ⟨s, hs, hlen, (sendExecution_never_panics smallestConfig 1 (Lts.reach_of_exec _ hs)).2.1⟩

end GoExchange.Engine
