import GoExchange.EngineReservation

/-!
# The moves of the scheduler

Every step of the engine, by what it does to the books, the sweep and the
history. Most steps only move the scheduler on.
-/
namespace GoExchange.Engine

open Matching

/-- The events emitted so far, oldest first. -/
def events (s : State) : List ExecutionEvent := s.emitted.map Emission.event

/-- Positions at which no sweep is active: the rest of a turn that began without one, up to its
admission, and the waiting and ending of an engine without work. -/
def Pc.Vacant : Pc → Bool
  | .cancelHead hadActive _ | .cancelTake hadActive _ _ | .ticker hadActive | .flush hadActive
  | .slice hadActive | .matching hadActive _ | .sliced hadActive _ _ | .stopCheck hadActive =>
    !hadActive
  | .admission | .drain | .lastFlush | .select _ | .returned => true
  | _ => false

/-- Positions at which a slice has found its order done. -/
def Pc.Done : Pc → Bool
  | .sliced _ _ done => done
  | _ => false

/-- Nothing of the books, the sweep and the history changes; a latched order may be lost. -/
structure Same (s s' : State) : Prop where
  core : s'.core = s.core
  activeSweep : s'.activeSweep = s.activeSweep
  emitted : s'.emitted = s.emitted
  answers : s'.answers = s.answers
  submitted : s'.submitted = s.submitted
  admitted : s'.admitted = s.admitted
  pending : (intake s').Sublist (intake s)

/-- The books at the end of a sweep: what is left of a limit order rests. -/
def closing (c : Core) (sweep : ActiveSweep) : Core :=
  if sweep.order.orderType ≠ .market ∧ 0 < sweep.order.amount then
    c.setBook sweep.book ((c.book sweep.book).addOrder sweep.order)
  else c

inductive Move (s : State) : Label → State → Prop
  | idle {l s'} (same : Same s s') (done : s'.pc = s.pc ∨ s'.pc.Done = false)
      (slot : s'.pc.Vacant = true → s.pc.Vacant = true ∨ s.activeSweep = none) : Move s l s'
  | submit (o : Order) :
      Move s (.submitOrder o) { s with
        orderCh := s.orderCh ++ [o], submitted := s.submitted ++ [o] }
  | register {l cache snapshots dirty} (symbol : String) :
      Move s l { s with
        core := (s.core.getOrderBook symbol).1
        snapshotCache := cache, snapshotCh := snapshots, dirtySymbols := dirty }
  | refused {l s' cmd result} (same : Same s { s' with core := s.core, answers := s.answers })
      (hresult : result ≠ .removed)
      (hcore : s'.core = s.core ∧ result = .backpressured ∨
        s.core.handleCancel cmd = (s'.core, result))
      (answers : s'.answers = s.answers ++ [(cmd, result)])
      (done : s'.pc.Done = false) (slot : s'.pc.Vacant = s.pc.Vacant) : Move s l s'
  | removed {l s' cmd core} {em : Emission}
      (same : Same s { s' with core := s.core, answers := s.answers, emitted := s.emitted })
      (hcancel : s.core.handleCancel cmd = (core, .removed))
      (hcore : s'.core = core.nextTradeEvent.1)
      (answers : s'.answers = s.answers ++ [(cmd, .removed)])
      (emitted : s'.emitted = s.emitted ++ [em])
      (event : em.event =
        .orderCancelled ⟨cmd.commandID, cmd.orderID, cmd.coinSymbol, cmd.side,
          core.nextTradeEvent.2⟩)
      (done : s'.pc.Done = false) (slot : s'.pc.Vacant = s.pc.Vacant) : Move s l s'
  | traded {l s' sweep k book order fill} {em : Emission}
      (same : Same s { s' with core := s.core, activeSweep := s.activeSweep, emitted := s.emitted })
      (hsweep : s.activeSweep = some sweep) (hkind : kindOf sweep.order = some k)
      (hact : k.active sweep.order = true)
      (hround : k.round (s.core.book sweep.book) sweep.order = .trade book order fill)
      (hcore : s'.core = (s.core.setBook sweep.book book).nextTradeEvent.1)
      (hsweep' : s'.activeSweep = some { sweep with order := order })
      (emitted : s'.emitted = s.emitted ++ [em])
      (event : em.event = .trade (newTrade s.core.nextTradeEvent.2 order fill))
      (done : s'.pc.Done = false) (slot : s'.pc.Vacant = s.pc.Vacant) : Move s l s'
  | halted {l s' sweep} (same : Same s s') (hsweep : s.activeSweep = some sweep)
      (halted : Halted s sweep) (slot : s'.pc.Vacant = s.pc.Vacant) : Move s l s'
  | finished {l s' sweep}
      (same : Same s { s' with core := s.core, activeSweep := s.activeSweep, emitted := s.emitted })
      (hsweep : s.activeSweep = some sweep) (hpc : s.pc.Done = true)
      (hcore : s'.core = closing s.core sweep)
      (hsweep' : s'.activeSweep = none)
      (emitted : s'.emitted.map Emission.event =
        s.emitted.map Emission.event ++ finishEvents sweep.order)
      (done : s'.pc.Done = false) : Move s l s'
  | yielded {l s' sweep trades} (same : Same s { s' with activeSweep := s.activeSweep })
      (hsweep : s.activeSweep = some sweep)
      (hsweep' : s'.activeSweep = some { sweep with trades := trades })
      (done : s'.pc.Done = false) (slot : s'.pc.Vacant = s.pc.Vacant) : Move s l s'
  | admitted {l s' o}
      (same : Same s { s' with
        core := s.core, activeSweep := s.activeSweep, admitted := s.admitted })
      (hpc : s.pc.Vacant = true) (hadm : orderIsAdmissible o = true)
      (hintake : intake s = o :: intake s') (hcore : s'.core = (s.core.getOrderBook o.coinSymbol).1)
      (hsweep : s'.activeSweep = some ⟨o, (s.core.getOrderBook o.coinSymbol).2, 0⟩)
      (hadmitted : s'.admitted = s.admitted ++ [o])
      (done : s'.pc.Done = false) (slot : s'.pc.Vacant = false) : Move s l s'
  | skipped {l s' o} (same : Same s { s' with admitted := s.admitted })
      (hpc : s.pc.Vacant = true) (hadm : orderIsAdmissible o = false)
      (hintake : intake s = o :: intake s') (hadmitted : s'.admitted = s.admitted ++ [o])
      (done : s'.pc.Done = false) (slot : s'.pc.Vacant = false) : Move s l s'

variable {cfg : EngineConfig} {s s' : State} {l : Label}

/-- A step that changes none of the fields `Same` speaks of. -/
theorem Same.of_eq
    (h : (s'.core, s'.activeSweep, s'.emitted, s'.answers, s'.submitted, s'.admitted, intake s') =
      (s.core, s.activeSweep, s.emitted, s.answers, s.submitted, s.admitted, intake s)) :
    Same s s' := by
  simp only [Prod.mk.injEq] at h
  obtain ⟨h₁, h₂, h₃, h₄, h₅, h₆, h₇⟩ := h
  exact ⟨h₁, h₂, h₃, h₄, h₅, h₆, h₇ ▸ .refl _⟩

/-- Latching the oldest order keeps it first; one latched before it would be lost. -/
theorem latch_sublist {o : Order} {rest : List Order} (h : s.orderCh = o :: rest) (f : State)
    (hp : f.pendingOrder = some o) (hc : f.orderCh = rest) : (intake f).Sublist (intake s) := by
  simp only [intake, h, hp, hc, Option.toList_some, List.singleton_append]
  exact List.sublist_append_right _ _

theorem move_of_turn (ht : Turn cfg s s') : Move s l s' := by
  -- most turns only move the engine to a position of the same kind
  have hgo : ∀ {t : State}, Same s t → t.pc.Done = false →
      (t.pc.Vacant = true → s.pc.Vacant = true ∨ s.activeSweep = none) → Move s l t :=
    fun hs hd hv => .idle hs (.inr hd) hv
  have hrest : ∀ {o rest}, intake s = o :: rest → rest.Sublist (intake s) :=
    fun h => h ▸ List.sublist_cons_self _ _
  cases ht with
  | start hpc =>
    refine hgo (.of_eq rfl) rfl fun hv => .inr ?_
    cases hsw : s.activeSweep with
    | none => rfl
    | some sweep => simp [Pc.Vacant, hsw] at hv
  | accept hpc | reject hpc | spent hpc | held hpc | noCancel hpc | publish hpc | noPublish hpc
  | published hpc
  | beginSlice hpc | noSlice hpc =>
    exact hgo (.of_eq rfl) rfl fun hv => .inl (by rw [hpc]; exact hv)
  | rejected hpc =>
    exact .refused (.of_eq rfl) (by simp) (.inl ⟨rfl, rfl⟩) rfl rfl (by rw [hpc]; rfl)
  | refused hpc _ hcancel hresult =>
    exact .refused (.of_eq rfl) hresult (.inr hcancel) rfl rfl (by rw [hpc]; rfl)
  | removed hpc _ hcancel =>
    exact .removed (.of_eq rfl) hcancel rfl rfl rfl rfl rfl (by rw [hpc]; rfl)
  | trade hpc hsweep hkind hact _ hround =>
    exact .traded (.of_eq rfl) hsweep hkind hact hround rfl rfl rfl rfl rfl (by rw [hpc]; rfl)
  | @matched _ _ done hpc hdone =>
    cases done with
    | false => exact hgo (.of_eq rfl) rfl fun hv => .inl (by rw [hpc]; exact hv)
    | true =>
      obtain ⟨sweep, hsweep, hhalt⟩ := hdone rfl
      exact .halted (.of_eq rfl) hsweep hhalt (by rw [hpc]; rfl)
  | yielded hpc hsweep => exact .yielded (.of_eq rfl) hsweep rfl rfl (by rw [hpc]; rfl)
  | marketDone hpc hsweep _ hmarket hevent =>
    refine .finished (.of_eq rfl) hsweep (by rw [hpc]; rfl) ?_ rfl ?_ rfl
    · exact (if_neg fun h => h.1 hmarket).symm
    · simp [sliceClosed, endReservation, finishEvents, hmarket, hevent]
  | rested hpc hsweep _ hlimit hamount =>
    refine .finished (.of_eq rfl) hsweep (by rw [hpc]; rfl) ?_ rfl ?_ rfl
    · exact (if_pos ⟨hlimit, hamount⟩).symm
    · simp [sliceClosed, endReservation, restOrder, finishEvents, hlimit]
  | filled hpc hsweep _ hlimit hamount =>
    refine .finished (.of_eq rfl) hsweep (by rw [hpc]; rfl) ?_ rfl ?_ rfl
    · exact (if_neg fun h => hamount h.2).symm
    · simp [sliceClosed, endReservation, finishEvents, hlimit]
  | admitted hpc hnext hadm =>
    exact .admitted ⟨rfl, rfl, rfl, rfl, rfl, rfl, hrest hnext⟩ (by rw [hpc]; rfl) hadm hnext rfl
      rfl rfl rfl rfl
  | skipped hpc hnext hadm =>
    exact .skipped ⟨rfl, rfl, rfl, rfl, rfl, rfl, hrest hnext⟩ (by rw [hpc]; rfl) hadm
      hnext rfl rfl rfl
  | leave _ hsweep | rest _ hsweep => exact hgo (.of_eq rfl) rfl fun _ => .inr hsweep
  | drainOrder _ _ hch =>
    exact hgo ⟨rfl, rfl, rfl, rfl, rfl, rfl, latch_sublist hch _ rfl rfl⟩ rfl fun hv => by cases hv
  | panicked | stopParks | noOrder | park | again | drainCancel =>
    exact hgo (.of_eq rfl) rfl fun hv => by cases hv
  | stopAdmits hpc | drained hpc | close hpc =>
    exact hgo (.of_eq rfl) rfl fun _ => .inl (by rw [hpc]; rfl)

theorem move_of_step (hi : ReserveInv cfg s) (h : step cfg l s = some s') : Move s l s' := by
  have hstay : ∀ {t : State} {l : Label}, Same s t → t.pc = s.pc → Move s l t := fun hs hpc =>
    .idle hs (.inl hpc) fun hv => .inl (hpc ▸ hv)
  cases stepped_of_step hi h with
  | turn ht => exact move_of_turn ht
  | flush symbol => exact .register symbol
  | recvOrder _ hch =>
    exact .idle ⟨rfl, rfl, rfl, rfl, rfl, rfl, latch_sublist hch _ rfl rfl⟩ (.inr rfl)
      fun hv => by cases hv
  | recvCancel | recvTick | recvStop | recvCapacity =>
    exact .idle (.of_eq rfl) (.inr rfl) fun hv => by cases hv
  | submitOrder o => exact .submit o
  | sendCancel | consume | consumeSnapshot | tick | stop | wake => exact hstay (.of_eq rfl) rfl

/-! ## The orders on their way -/

/-- A step sends a new order, or it moves the others on; a latched order may be lost. -/
theorem Move.lined (h : Move s l s') :
    (s'.submitted = s.submitted ∧ (s'.admitted ++ intake s').Sublist (s.admitted ++ intake s)) ∨
    ∃ o, l = .submitOrder o ∧ s'.submitted = s.submitted ++ [o] ∧
      s'.admitted ++ intake s' = s.admitted ++ intake s ++ [o] := by
  have hkeep : s'.submitted = s.submitted → s'.admitted = s.admitted →
      (intake s').Sublist (intake s) →
      s'.submitted = s.submitted ∧ (s'.admitted ++ intake s').Sublist (s.admitted ++ intake s) :=
    fun hsub hadm hpend => ⟨hsub, hadm ▸ hpend.append_left _⟩
  have htake : ∀ o, s'.submitted = s.submitted → s'.admitted = s.admitted ++ [o] →
      intake s = o :: intake s' →
      s'.submitted = s.submitted ∧ (s'.admitted ++ intake s').Sublist (s.admitted ++ intake s) := by
    intro o hsub hadm hpend
    rw [hadm, hpend, List.append_assoc, List.singleton_append]
    exact ⟨hsub, .refl _⟩
  cases h with
  | submit o => exact .inr ⟨o, rfl, rfl, by simp [intake]⟩
  | register => exact .inl (hkeep rfl rfl (.refl _))
  | idle same | refused same | removed same | traded same | halted same | finished same
  | yielded same =>
    exact .inl (hkeep same.submitted same.admitted same.pending)
  | admitted same _ _ hintake _ _ hadm | skipped same _ _ hintake hadm =>
    exact .inl (htake _ same.submitted hadm hintake)

/-- Orders are sent with distinct ids. -/
def DistinctOrder (s : State) : Label → Prop
  | .submitOrder o => o.id ∉ s.submitted.map Order.id
  | _ => True

/-- The orders sent have distinct ids; those that were admitted and those that wait are in the order
sent. -/
structure Lined (s : State) : Prop where
  order : (s.admitted ++ intake s).Sublist s.submitted
  ids : (s.submitted.map Order.id).Nodup

theorem init_lined (engineID : Nat) : Lined (init engineID) := ⟨.refl _, .nil⟩

theorem Lined.move (h : Lined s) (hok : DistinctOrder s l) (hm : Move s l s') : Lined s' := by
  rcases hm.lined with ⟨hsub, horder⟩ | ⟨o, rfl, hsub, horder⟩
  · exact ⟨hsub ▸ horder.trans h.order, hsub ▸ h.ids⟩
  · refine ⟨?_, ?_⟩
    · rw [hsub, horder]
      exact h.order.append_right [o]
    · rw [hsub]
      exact Rows.nodup_concat h.ids hok

theorem Lined.admitted_ids (h : Lined s) : (s.admitted.map Order.id).Nodup :=
  h.ids.sublist (((List.sublist_append_left _ _).trans h.order).map _)

/-- The next order has not been admitted before. -/
theorem Lined.next_fresh (h : Lined s) {o : Order} {rest : List Order}
    (hnext : intake s = o :: rest) : o.id ∉ s.admitted.map Order.id := by
  have hn := h.ids.sublist (h.order.map Order.id)
  rw [hnext, List.map_append, List.map_cons, List.nodup_append] at hn
  exact fun hin => hn.2.2 _ hin _ List.mem_cons_self rfl

end GoExchange.Engine
