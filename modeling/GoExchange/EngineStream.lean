import GoExchange.EngineMoves

/-!
# What the engine emits

Whatever a step emits goes to the end of the execution channel, and it speaks
of a symbol the engine was asked about. After it has closed its outputs the
engine emits nothing.
-/
namespace GoExchange

/-- The symbol an event belongs to. -/
def ExecutionEvent.coinSymbol : ExecutionEvent → String
  | .trade t => t.coinSymbol
  | .marketOrderDone d => d.coinSymbol
  | .orderCancelled c => c.coinSymbol

namespace Engine

open Matching

variable {cfg : EngineConfig} {S : String → Prop} {s s' t : State} {l : Label} {engineID : Nat}

/-- The symbol of a request to the engine. -/
def Label.asks? : Label → Option String
  | .submitOrder o => some o.coinSymbol
  | .sendCancel cmd => some cmd.coinSymbol
  | _ => none

/-- What the engine holds and has emitted is of symbols in `S`. -/
structure Speaks (S : String → Prop) (s : State) : Prop where
  orders : ∀ o ∈ intake s, S o.coinSymbol
  cancels : ∀ cmd ∈ waiting s, S cmd.coinSymbol
  sweep : ∀ sweep ∈ s.activeSweep, S sweep.order.coinSymbol
  emitted : ∀ e ∈ events s, S e.coinSymbol

theorem init_speaks (S : String → Prop) (engineID : Nat) : Speaks S (init engineID) := by
  constructor <;> simp [init, intake, waiting, events]

theorem Speaks.mono {S' : String → Prop} (hle : ∀ x, S x → S' x) (h : Speaks S s) :
    Speaks S' s where
  orders o ho := hle _ (h.orders o ho)
  cancels cmd hc := hle _ (h.cancels cmd hc)
  sweep sweep hs := hle _ (h.sweep sweep hs)
  emitted e he := hle _ (h.emitted e he)

/-- A step that only moves orders and commands around. -/
theorem Speaks.frame (h : Speaks S s)
    (ho : ∀ o ∈ intake s', o ∈ intake s)
    (hc : ∀ cmd ∈ waiting s', cmd ∈ waiting s) (hs : s'.activeSweep = s.activeSweep)
    (he : s'.emitted = s.emitted) : Speaks S s' where
  orders o hm := h.orders o (ho o hm)
  cancels cmd hm := h.cancels cmd (hc cmd hm)
  sweep sweep hm := h.sweep sweep (hs ▸ hm)
  emitted e hm := h.emitted e (by simpa [events, he] using hm)

theorem Speaks.latchCancel {cmd : CancelOrderCommand} {rest : List CancelOrderCommand}
    (h : Speaks S s) (hch : s.cancelCh = cmd :: rest) :
    Speaks S { s with cancelCh := rest, pendingCancel := some cmd, pc := .start } := by
  refine h.frame (fun _ hm => hm) (fun c hc => ?_) rfl rfl
  simp only [waiting, hch, List.mem_append, Option.toList_some, List.mem_cons] at hc ⊢
  tauto

theorem Speaks.latchOrder {o : Order} {rest : List Order} (h : Speaks S s)
    (hch : s.orderCh = o :: rest) :
    Speaks S { s with orderCh := rest, pendingOrder := some o, pc := .start } := by
  refine h.frame (fun o' ho => ?_) (fun _ hc => hc) rfl rfl
  simp only [intake, hch, List.mem_append, Option.toList_some, List.mem_cons] at ho ⊢
  tauto

theorem Speaks.same (h : Speaks S s) (ho : intake s' = intake s)
    (hc : waiting s' = waiting s) (hs : s'.activeSweep = s.activeSweep)
    (he : s'.emitted = s.emitted) : Speaks S s' :=
  h.frame (fun _ hm => ho ▸ hm) (fun _ hm => hc ▸ hm) hs he

theorem coinSymbol_of_round {k : MatchKind} {b c : OrderBook} {o p : Order} {f : Fill}
    (hk : kindOf o = some k) (h : k.round b o = .trade c p f) : p.coinSymbol = o.coinSymbol := by
  obtain ⟨level, maker, qty, -, -, -, rfl, -, -⟩ := MatchKind.round_eq_trade h
  have hfix := (lawful_of_kindOf hk).fill_fixed o level.key qty
  simp only [Order.fixed, Prod.mk.injEq] at hfix
  exact hfix.2.2.1

/-- One more event, of a symbol in `S`. -/
theorem Speaks.emit (h : Speaks S s) (em : Emission) (hS : S em.event.coinSymbol)
    (ho : intake s' = intake s)
    (hc : ∀ cmd ∈ waiting s', S cmd.coinSymbol)
    (hs : ∀ sweep ∈ s'.activeSweep, S sweep.order.coinSymbol)
    (he : s'.emitted = s.emitted ++ [em]) : Speaks S s' where
  orders o hm := h.orders o (ho ▸ hm)
  cancels := hc
  sweep := hs
  emitted e hm := by
    simp only [events, he, List.map_append, List.map_singleton, List.mem_append, List.mem_singleton]
      at hm
    rcases hm with hm | rfl
    · exact h.emitted e hm
    · exact hS

theorem Speaks.turn (h : Speaks S s) (ht : Turn cfg s s') : Speaks S s' := by
  have hcancels : ∀ {cmd rest}, waiting s = cmd :: rest → S cmd.coinSymbol ∧
      ∀ c ∈ rest, S c.coinSymbol :=
    fun hw => List.forall_mem_cons.mp (hw ▸ h.cancels)
  have horders : ∀ {o rest}, intake s = o :: rest → S o.coinSymbol ∧ ∀ p ∈ rest, S p.coinSymbol :=
    fun hn => List.forall_mem_cons.mp (hn ▸ h.orders)
  cases ht with
  | rejected _ hwait | refused _ hwait => exact { h with cancels := (hcancels hwait).2 }
  | removed _ hwait =>
    exact h.emit ⟨_, true, 1, free cfg s⟩ (by exact (hcancels hwait).1) rfl
      (hcancels hwait).2 h.sweep rfl
  | @trade _ _ sweep _ _ order _ _ hsweep hkind _ _ hround =>
    have hS : S order.coinSymbol := by
      rw [coinSymbol_of_round hkind hround]
      exact h.sweep sweep hsweep
    exact h.emit ⟨_, _, _, _⟩ (by exact hS) rfl h.cancels
      (fun sweep' hm => by cases hm; exact hS) rfl
  | @yielded _ _ sweep _ _ hsweep =>
    exact { h with sweep := fun sweep' hm => by cases hm; exact h.sweep sweep hsweep }
  | marketDone _ hsweep _ _ hevent =>
    refine h.emit _ ?_ rfl h.cancels nofun rfl
    rw [hevent]
    exact h.sweep _ hsweep
  | rested | filled => exact { h with sweep := nofun }
  | admitted _ hnext =>
    refine ⟨(horders hnext).2, h.cancels, fun sweep hm => ?_, h.emitted⟩
    cases hm
    exact (horders hnext).1
  | skipped _ hnext => exact { h with orders := (horders hnext).2 }
  | drainCancel _ hch => exact h.latchCancel hch
  | drainOrder _ _ hch => exact h.latchOrder hch
  | _ => exact h.same rfl rfl rfl rfl

/-- A step keeps to the symbols; a request adds its own. -/
theorem Speaks.step (h : Speaks S s) (hs : Stepped cfg s l s') (hl : ∀ x ∈ l.asks?, S x) :
    Speaks S s' := by
  cases hs with
  | turn ht => exact h.turn ht
  | flush symbol => exact h.same rfl rfl rfl rfl
  | recvCancel _ hch => exact h.latchCancel hch
  | recvOrder _ hch => exact h.latchOrder hch
  | submitOrder o =>
    refine ⟨fun o' ho => ?_, h.cancels, h.sweep, h.emitted⟩
    simp only [intake, ← List.append_assoc, List.mem_append, List.mem_singleton] at ho
    rcases ho with ho | rfl
    · exact h.orders o' (List.mem_append.mpr ho)
    · exact hl _ rfl
  | sendCancel cmd =>
    refine ⟨h.orders, fun c hc => ?_, h.sweep, h.emitted⟩
    simp only [waiting, ← List.append_assoc, List.mem_append, List.mem_singleton] at hc
    rcases hc with hc | rfl
    · exact h.cancels c (List.mem_append.mpr hc)
    · exact hl _ rfl
  | _ => exact h.same rfl rfl rfl rfl

/-! ## The channel -/

/-- What a turn emits goes to the end of the channel. -/
theorem Turn.emits (ht : Turn cfg s s') :
    ∃ new, s'.executionCh = s.executionCh ++ new ∧ events s' = events s ++ new := by
  have hnone : ∀ {t : State}, t.executionCh = s.executionCh → t.emitted = s.emitted →
      ∃ new, t.executionCh = s.executionCh ++ new ∧ events t = events s ++ new :=
    fun hch hem => ⟨[], by simp [hch], by simp [events, hem]⟩
  cases ht with
  | removed => exact ⟨[_], rfl, by simp [events, removal]⟩
  | trade => exact ⟨[_], rfl, by simp [events, traded]⟩
  | marketDone => exact ⟨[_], rfl, by simp [events, sliceClosed, endReservation]⟩
  | _ => exact hnone rfl rfl

/-- Only a turn emits, and only a receive takes anything off the channel. -/
theorem Stepped.emits (hs : Stepped cfg s l s') (hl : l ≠ .consume) :
    ∃ new, s'.executionCh = s.executionCh ++ new ∧ events s' = events s ++ new ∧
    (new ≠ [] → l = .advance) := by
  cases hs with
  | turn ht =>
    obtain ⟨new, hch, hev⟩ := ht.emits
    exact ⟨new, hch, hev, fun _ => rfl⟩
  | consume => exact absurd rfl hl
  | _ => exact ⟨[], by simp [flushSymbol], by simp [events, flushSymbol], fun h => absurd rfl h⟩

/-- The outputs are closed by the last step of the goroutine. -/
def ClosedLast (s : State) : Prop := s.outputsClosed = true → s.pc = .returned

theorem Turn.closes (ht : Turn cfg s s') :
    s'.outputsClosed = s.outputsClosed ∨ s'.pc = .returned := by
  cases ht with
  | close => exact .inr rfl
  | _ => exact .inl rfl

theorem ClosedLast.step (h : ClosedLast s) (hs : Stepped cfg s l s') : ClosedLast s' := by
  cases hs with
  | turn ht =>
    intro hout
    rcases ht.closes with hsame | hpc
    · exact absurd (h (hsame ▸ hout)) ht.pc_ne_returned
    · exact hpc
  | recvCancel hpc | recvTick hpc | recvStop hpc =>
    exact fun hout => absurd (h hout) hpc.not_leaving
  | recvOrder hpc | recvCapacity hpc => exact fun hout => absurd (hpc.symm.trans (h hout)) nofun
  | _ => exact h

theorem reach_closed {ok : State → Label → Prop} (h : Lts.Reach (step cfg) ok (init engineID) s) :
    ClosedLast s :=
  h.invariant ClosedLast (by simp [ClosedLast, init]) fun _ _ _ hr hi _ hs =>
    hi.step (stepped_of_step (reach_reserve hr) hs)

/-- Nothing has been sent on the outputs since, and the books and the cache are as they were. -/
structure Silent (s s' : State) : Prop where
  returned : s'.pc = .returned
  outputsClosed : s'.outputsClosed = s.outputsClosed
  emitted : s'.emitted = s.emitted
  executionCh : s'.executionCh <:+ s.executionCh
  snapshotCh : s'.snapshotCh <:+ s.snapshotCh
  core : s'.core = s.core
  snapshotCache : s'.snapshotCache = s.snapshotCache

theorem Silent.refl (hpc : s.pc = .returned) : Silent s s :=
  ⟨hpc, rfl, rfl, List.suffix_rfl, List.suffix_rfl, rfl, rfl⟩

theorem Silent.trans (h : Silent s t) (h' : Silent t s') : Silent s s' where
  returned := h'.returned
  outputsClosed := h'.outputsClosed.trans h.outputsClosed
  emitted := h'.emitted.trans h.emitted
  executionCh := h'.executionCh.trans h.executionCh
  snapshotCh := h'.snapshotCh.trans h.snapshotCh
  core := h'.core.trans h.core
  snapshotCache := h'.snapshotCache.trans h.snapshotCache

/-- A goroutine that has returned sends nothing more. -/
theorem Stepped.silent (hs : Stepped cfg s l s') (hpc : s.pc = .returned) : Silent s s' := by
  cases hs with
  | turn ht => exact absurd hpc ht.pc_ne_returned
  | flush symbol hat => rcases hat with ⟨_, hat⟩ | hat <;> cases hpc.symm.trans hat
  | recvCancel hat | recvTick hat | recvStop hat => exact absurd hpc hat.not_leaving
  | recvOrder hat | recvCapacity hat => cases hpc.symm.trans hat
  | consume hch =>
    exact ⟨hpc, rfl, rfl, hch ▸ List.suffix_cons _ _, List.suffix_rfl, rfl, rfl⟩
  | consumeSnapshot hch =>
    exact ⟨hpc, rfl, rfl, List.suffix_rfl, hch ▸ List.suffix_cons _ _, rfl, rfl⟩
  | submitOrder | sendCancel | tick | stop | wake =>
    exact ⟨hpc, rfl, rfl, List.suffix_rfl, List.suffix_rfl, rfl, rfl⟩

end Engine

end GoExchange
