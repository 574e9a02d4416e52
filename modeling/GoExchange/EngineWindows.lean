import GoExchange.EngineSnapshots

/-!
# Between the change of a book and its mark

The scheduler changes a book first and marks its symbol, or sends the trade,
afterwards, and whoever reads a snapshot may do so in between. Here the three
steps that change a book are taken in two halves. A run of this engine follows
one that takes them at once, so that what is known about that one is carried over.
-/
namespace GoExchange.Engine

open Matching Core

variable {cfg : EngineConfig} {s s' m : State} {l : Label} {engineID : Nat}

/-- A book has changed, and the mark or the event of the step that changed it is still to come. -/
inductive Window where
  | removed (cmd : CancelOrderCommand) (pc : Pc)
  | traded (order : Order) (fill : Fill) (hadActive : Bool) (trades : Nat)
  | rested (order : Order) (hadActive : Bool)

def Window.symbol : Window → String
  | .removed cmd _ => cmd.coinSymbol
  | .traded order _ _ _ | .rested order _ => order.coinSymbol

/-- A step of the engine up to the change of a book, if it makes one. -/
def enter (cfg : EngineConfig) (s : State) : Option (State × Window) :=
  match s.pc with
  | .cancelTake hadActive rejectBudget false =>
    match takeCancel s with
    | none => none
    | some (cmd, s) =>
      match s.core.handleCancel cmd with
      | (core, .removed) =>
        some ({ s with core := core }, .removed cmd (.cancelHead hadActive rejectBudget))
      | _ => none
  | .matching hadActive trades =>
    match s.activeSweep with
    | none => none
    | some sweep =>
      match kindOf sweep.order with
      | none => none
      | some k =>
        if k.active sweep.order ∧
            ¬ (0 < cfg.maxMatchesPerTurn ∧ cfg.maxMatchesPerTurn ≤ trades) then
          match k.round (s.core.book sweep.book) sweep.order with
          | .trade book order fill =>
            some ({ s with
              core := s.core.setBook sweep.book book
              activeSweep := some { sweep with order := order } },
              .traded order fill hadActive trades)
          | _ => none
        else none
  | .sliced hadActive trades true =>
    match s.activeSweep with
    | none => none
    | some sweep =>
      if sweep.order.orderType ≠ .market ∧ 0 < sweep.order.amount then
        some (restOrder (sliceDirty s sweep.order.coinSymbol trades) sweep,
          .rested sweep.order hadActive)
      else none
  | _ => none

/-- The rest of the step. -/
def leave (cfg : EngineConfig) (s : State) : Window → Option State
  | .removed cmd pc => finishCancel cfg s cmd .removed pc
  | .traded order fill hadActive trades => emitTrade cfg s order fill hadActive trades
  | .rested order hadActive => some (sliceClosed (markDirty s order.coinSymbol) none hadActive)

variable {w : Window} {symbol : String}

/-- What `enter` finds. -/
inductive Opens (cfg : EngineConfig) (s : State) : State → Window → Prop
  | removed {hadActive budget cmd rest core} (hpc : s.pc = .cancelTake hadActive budget false)
      (hwait : waiting s = cmd :: rest) (hcancel : s.core.handleCancel cmd = (core, .removed)) :
      Opens cfg s { s with pendingCancel := none, cancelCh := rest, core := core }
        (.removed cmd (.cancelHead hadActive budget))
  | traded {hadActive trades sweep k book order fill} (hpc : s.pc = .matching hadActive trades)
      (hsweep : s.activeSweep = some sweep) (hkind : kindOf sweep.order = some k)
      (hactive : k.active sweep.order = true ∧
        ¬ (0 < cfg.maxMatchesPerTurn ∧ cfg.maxMatchesPerTurn ≤ trades))
      (hround : k.round (s.core.book sweep.book) sweep.order = .trade book order fill) :
      Opens cfg s { s with
        core := s.core.setBook sweep.book book
        activeSweep := some { sweep with order := order } } (.traded order fill hadActive trades)
  | rested {hadActive trades sweep} (hpc : s.pc = .sliced hadActive trades true)
      (hsweep : s.activeSweep = some sweep)
      (hrest : sweep.order.orderType ≠ .market ∧ 0 < sweep.order.amount) :
      Opens cfg s (restOrder (sliceDirty s sweep.order.coinSymbol trades) sweep)
        (.rested sweep.order hadActive)

theorem opens_of_enter (h : enter cfg s = some (m, w)) : Opens cfg s m w := by
  unfold enter at h
  split at h
  · rename_i hadActive budget hpc
    rw [takeCancel_eq] at h
    cases hwait : waiting s with
    | nil =>
      rw [hwait] at h
      cases h
    | cons cmd rest =>
      simp only [hwait, List.head?_cons, List.tail_cons, Option.map_some] at h
      split at h
      · rename_i core hcancel
        cases h
        exact .removed hpc hwait hcancel
      · cases h
  · rename_i hadActive trades hpc
    split at h
    · cases h
    rename_i sweep hsweep
    split at h
    · cases h
    rename_i k hkind
    obtain ⟨hactive, h⟩ := Option.ite_none_right_eq_some.mp h
    split at h
    · rename_i book order fill hround
      cases h
      exact .traded hpc hsweep hkind hactive hround
    · cases h
  · rename_i hadActive trades hpc
    split at h
    · cases h
    rename_i sweep hsweep
    obtain ⟨hrest, h⟩ := Lts.of_enabled h
    cases h
    exact .rested hpc hsweep hrest
  · cases h

/-- The two halves are the step. -/
theorem Opens.advance (h : Opens cfg s m w) : advance cfg s = leave cfg m w := by
  cases h with
  | removed hpc hwait hcancel =>
    simp only [Engine.advance, hpc, cancelTake, takeCancel_eq, hwait, List.head?_cons,
      Option.map_some, Bool.false_eq_true, if_false, processCancel, hcancel]
    rfl
  | traded hpc hsweep hkind hactive hround =>
    simp only [Engine.advance, hpc, matchingStep, hsweep, hkind, hactive.1, if_true,
      if_neg hactive.2, hround]
    rfl
  | rested hpc hsweep hrest =>
    simp only [Engine.advance, hpc, slicedStep, hsweep, if_true, if_neg hrest.1, if_pos hrest.2]
    rfl

/-- What the other goroutines can change while the engine is inside a step, `CancelCh` apart. -/
structure Surroundings where
  orderCh : List Order
  executionCh : List ExecutionEvent
  snapshotCh : List OrderBookSnapshot
  capacityCh : Bool
  tickerCh : Bool
  stopClosed : Bool
  submitted : List Order

def State.surroundings (s : State) : Surroundings :=
  ⟨s.orderCh, s.executionCh, s.snapshotCh, s.capacityCh, s.tickerCh, s.stopClosed, s.submitted⟩

def State.among (s : State) (x : Surroundings) : State :=
  { s with
    orderCh := x.orderCh, executionCh := x.executionCh, snapshotCh := x.snapshotCh,
    capacityCh := x.capacityCh
    tickerCh := x.tickerCh, stopClosed := x.stopClosed, submitted := x.submitted }

theorem Opens.among (h : Opens cfg s m w) (x : Surroundings) :
    Opens cfg (s.among x) (m.among x) w := by
  cases h with
  | removed hpc hwait hcancel => exact Opens.removed (s := s.among x) hpc hwait hcancel
  | traded hpc hsweep hkind hactive hround =>
    exact Opens.traded (s := s.among x) hpc hsweep hkind hactive hround
  | @rested hadActive trades sweep hpc hsweep hrest =>
    have h : Opens cfg (s.among x) _ _ := .rested (s := s.among x) hpc hsweep hrest
    rw [sliceDirty_eq] at h ⊢
    have hdirty : (sliceDirty (s.among x) sweep.order.coinSymbol trades).dirtySymbols =
        (sliceDirty s sweep.order.coinSymbol trades).dirtySymbols := by
      unfold sliceDirty
      split <;> rfl
    rw [hdirty] at h
    exact h

theorem Opens.surroundings (h : Opens cfg s m w) : m.surroundings = s.surroundings := by
  cases h with
  | removed | traded => rfl
  | rested =>
    rw [sliceDirty_eq]
    rfl

/-- The steps of the other goroutines. -/
def Label.outside : Label → Bool
  | .submitOrder _ | .sendCancel _ | .consume | .consumeSnapshot | .tick | .stop | .wake => true
  | _ => false

/-- A step of another goroutine reads and changes the surroundings only. -/
theorem step_among (hl : l.outside = true) (hc : ∀ cmd, l ≠ .sendCancel cmd)
    (h : step cfg l s = some s') :
    ∃ x, s' = s.among x ∧ ∀ t :
    State, t.surroundings = s.surroundings → step cfg l t = some (t.among x) := by
  have hfields : ∀ {t : State}, t.surroundings = s.surroundings → t = t.among s.surroundings := by
    intro t ht
    rw [← ht]
    rfl
  cases l with
  | sendCancel cmd => exact absurd rfl (hc cmd)
  | submitOrder o =>
    obtain ⟨hroom, rfl⟩ := Lts.of_enabled h
    refine ⟨{ s.surroundings with orderCh := s.orderCh ++ [o], submitted := s.submitted ++ [o] },
      rfl, fun t ht => ?_⟩
    rw [hfields ht]
    exact if_pos hroom
  | consume =>
    simp only [step] at h
    split at h
    · rename_i e rest hch
      cases h
      refine ⟨{ s.surroundings with executionCh := rest }, rfl, fun t ht => ?_⟩
      rw [hfields ht]
      simp only [step, State.among, State.surroundings, hch]
    · cases h
  | consumeSnapshot =>
    simp only [step] at h
    split at h
    · rename_i e rest hch
      cases h
      refine ⟨{ s.surroundings with snapshotCh := rest }, rfl, fun t ht => ?_⟩
      rw [hfields ht]
      simp only [step, State.among, State.surroundings, hch]
    · cases h
  | tick =>
    cases h
    refine ⟨{ s.surroundings with tickerCh := true }, rfl, fun t ht => ?_⟩
    rw [hfields ht]
    rfl
  | stop =>
    cases h
    refine ⟨{ s.surroundings with stopClosed := true }, rfl, fun t ht => ?_⟩
    rw [hfields ht]
    rfl
  | wake =>
    cases h
    refine ⟨{ s.surroundings with capacityCh := true }, rfl, fun t ht => ?_⟩
    rw [hfields ht]
    rfl
  | _ => cases hl

/-- The state with more cancels on the channel. -/
def State.plus (s : State) (cmds : List CancelOrderCommand) : State :=
  { s with cancelCh := s.cancelCh ++ cmds }

theorem plus_nil (s : State) : s.plus [] = s := by simp [State.plus]

theorem Sent.then_plus (cmds : List CancelOrderCommand) (e : ExecutionEvent) {f : State → State}
    (hf : ∀ s : State, f (s.plus cmds) = (f s).plus cmds) :
    (sendExecution cfg (s.plus cmds) e).then (s.plus cmds) f =
      ((sendExecution cfg s e).then s f).map (State.plus · cmds) := by
  have hfree : free cfg (s.plus cmds) = free cfg s := rfl
  have hactive : (s.plus cmds).reservationActive = s.reservationActive := rfl
  have hremaining : (s.plus cmds).reservationRemaining = s.reservationRemaining := rfl
  simp only [sendExecution, hfree, hactive, hremaining]
  split_ifs
  · rfl
  · exact congrArg some (hf { put cfg s e with reservationRemaining := s.reservationRemaining - 1 })
  · rfl
  · exact congrArg some (hf (put cfg s e))
  · rfl

theorem leave_plus (m : State) (w : Window) (cmds : List CancelOrderCommand) :
    leave cfg (m.plus cmds) w = (leave cfg m w).map (State.plus · cmds) := by
  cases w with
  | removed cmd pc =>
    exact Sent.then_plus (s := beginReservation { markDirty m cmd.coinSymbol with
      core := m.core.nextTradeEvent.1 } 1) cmds _ (fun _ => rfl)
  | traded order fill hadActive trades =>
    exact Sent.then_plus (s := { m with core := m.core.nextTradeEvent.1}) cmds _ fun _ => rfl
  | rested order hadActive => rfl

/-- The watched engine at a finer grain: it may also stand between the two halves of such a step. -/
structure Fine where
  watched : Watched
  window : Option Window

def Fine.engine (p : Fine) : State := p.watched.engine

def Fine.init (engineID : Nat) : Fine := ⟨.init engineID, none⟩

def fineStep (cfg : EngineConfig) (l : Label) (p : Fine) : Option Fine :=
  match p.window with
  | none =>
    match if l = .advance then enter cfg p.engine else none with
    | some (m, w) => some ⟨{ p.watched with engine := m }, some w⟩
    | none => (watchedStep cfg l p.watched).map (⟨·, none⟩)
  | some w =>
    if l = .advance then (leave cfg p.engine w).map fun s => ⟨{ p.watched with engine := s }, none⟩
    else if l.outside then (watchedStep cfg l p.watched).map (⟨·, some w⟩)
    else none

/-- What the producers promise. -/
def FreshFine (p : Fine) (l : Label) : Prop := FreshOrder p.engine l

/-- The engine that takes its steps at once has not begun the step that the other is inside, and it
has not seen the cancels that were sent since. -/
inductive Follows (cfg : EngineConfig) (q : Watched) : Fine → Prop
  | same : Follows cfg q ⟨q, none⟩
  | inside {m : State} {w : Window} (h : Opens cfg q.engine m w) (cmds : List CancelOrderCommand)
      (hroom : cmds ≠ [] → (m.cancelCh ++ cmds).length ≤ cancelChCapacity) :
      Follows cfg q ⟨{ q with engine := m.plus cmds }, some w⟩

variable {p p' : Fine} {q : Watched}

theorem reach_plus (q : Watched) (cmds : List CancelOrderCommand)
    (hroom : cmds ≠ [] → (q.engine.cancelCh ++ cmds).length ≤ cancelChCapacity) :
    Lts.Reach (watchedStep cfg) FreshSent q { q with engine := q.engine.plus cmds } := by
  induction cmds using List.reverseRecOn with
  | nil =>
    rw [plus_nil]
    exact .refl
  | append_singleton cmds cmd ih =>
    have hlen := hroom (by simp)
    simp only [List.length_append, List.length_singleton] at hlen
    have hlt : (q.engine.plus cmds).cancelCh.length < cancelChCapacity := by
      simp only [State.plus, List.length_append]
      omega
    have hsend : step cfg (.sendCancel cmd) (q.engine.plus cmds) =
        some (q.engine.plus (cmds ++ [cmd])) := by
      rw [step, if_pos hlt]
      simp only [State.plus, List.append_assoc]
    refine (ih fun _ => by rw [List.length_append]; omega).next (a := .sendCancel cmd) trivial ?_
    rw [watchedStep, hsend]
    rfl

theorem Sent.then_eq_some {e : ExecutionEvent} {f : State → State}
    (h : (sendExecution cfg s e).then s f = some s') :
    (∃ r, s' = f { put cfg s e with reservationRemaining := r }) ∨
    ∃ panic, s' = { s with pc := .crashed panic } := by
  unfold sendExecution at h
  split_ifs at h
  · exact .inr ⟨_, (Option.some.inj h).symm⟩
  · exact .inl ⟨_, (Option.some.inj h).symm⟩
  · exact .inr ⟨_, (Option.some.inj h).symm⟩
  · exact .inl ⟨_, (Option.some.inj h).symm⟩
  · cases h

/-- The second half leaves the symbol marked, or in a slice that has traded. -/
theorem Opens.left (h : Opens cfg s m w) (hs : leave cfg m w = some s') :
    Stale s' w.symbol ∧ s'.cancelCh = m.cancelCh := by
  cases h with
  | removed =>
    rcases Sent.then_eq_some hs with ⟨r, rfl⟩ | ⟨panic, rfl⟩
    · exact ⟨.inl (mem_markDirty.mpr (.inl rfl)), rfl⟩
    · exact ⟨.inl (mem_markDirty.mpr (.inl rfl)), rfl⟩
  | @traded _ trades =>
    rcases Sent.then_eq_some hs with ⟨r, rfl⟩ | ⟨panic, rfl⟩
    · exact ⟨.inr ⟨decide_eq_true (Nat.le_add_left 1 trades), _, rfl, rfl⟩, rfl⟩
    · exact ⟨.inr ⟨rfl, _, rfl, rfl⟩, rfl⟩
  | rested =>
    cases hs
    exact ⟨.inl (mem_markDirty.mpr (.inl rfl)), rfl⟩

theorem Follows.step (hf : Follows cfg q p) (hok : FreshFine p l) (h : fineStep cfg l p = some p') :
    ∃ q', Lts.Reach (watchedStep cfg) FreshSent q q' ∧ Follows cfg q' p' ∧
      ∀ w, p.window = some w → p'.window = some w ∨ Stale q'.engine w.symbol := by
  cases hf with
  | same =>
    simp only [fineStep] at h
    split at h
    · rename_i m w henter
      obtain ⟨rfl, henter⟩ := Option.ite_none_right_eq_some.mp henter
      cases h
      have hin := Follows.inside (opens_of_enter henter) [] (absurd rfl)
      rw [plus_nil] at hin
      exact ⟨q, .refl, hin, fun w hw => by cases hw⟩
    · obtain ⟨q', hs, he⟩ := Option.map_eq_some_iff.mp h
      cases he
      exact ⟨q', Lts.Reach.refl.next hok hs, .same, fun w hw => by cases hw⟩
  | @inside m w hopen cmds hroom =>
    simp only [fineStep] at h
    split at h
    · rename_i hl
      obtain ⟨e, hleave, rfl⟩ := Option.map_eq_some_iff.mp h
      rw [Fine.engine, leave_plus] at hleave
      obtain ⟨t, ht, rfl⟩ := Option.map_eq_some_iff.mp hleave
      have hstep : watchedStep cfg .advance q = some ⟨t, q.sent, q.dropped⟩ := by
        simp only [watchedStep, Engine.step, hopen.advance, ht, Option.map_some, watch]
      obtain ⟨hstale, hch⟩ := hopen.left ht
      have hsends : Lts.Reach (watchedStep cfg) FreshSent _ _ :=
        reach_plus ⟨t, q.sent, q.dropped⟩ cmds (hch.symm ▸ hroom)
      refine ⟨_, (Lts.Reach.refl.next (a := .advance) trivial hstep).trans hsends, .same,
        fun w' hw => ?_⟩
      cases hw
      exact .inr hstale
    · split at h
      · rename_i hout
        obtain ⟨r, hwatched, rfl⟩ := Option.map_eq_some_iff.mp h
        obtain ⟨e, hs, rfl⟩ := Option.map_eq_some_iff.mp hwatched
        rw [watch_other (by rintro a rfl; cases hout)]
        by_cases hsend : ∃ cmd, l = .sendCancel cmd
        · obtain ⟨cmd, rfl⟩ := hsend
          obtain ⟨hlt, he⟩ := Option.ite_none_right_eq_some.mp hs
          have hin := Follows.inside hopen (cmds ++ [cmd]) fun _ => by
            simpa [State.plus, Nat.succ_le_iff, ← Nat.add_assoc] using hlt
          cases he
          rw [State.plus, ← List.append_assoc] at hin
          exact ⟨q, .refl, hin, fun w' hw => .inl hw⟩
        · obtain ⟨x, rfl, hany⟩ := step_among hout (fun cmd he => hsend ⟨cmd, he⟩) hs
          have hsame : q.engine.surroundings = (m.plus cmds).surroundings := hopen.surroundings.symm
          have hstep : watchedStep cfg l q = some ⟨q.engine.among x, q.sent, q.dropped⟩ := by
            rw [watchedStep, hany q.engine hsame, Option.map_some,
              watch_other (by rintro a rfl; cases hout)]
          have hsubmitted : q.engine.submitted = (m.plus cmds).submitted :=
            congrArg Surroundings.submitted hsame
          have hfresh : FreshSent q l := by
            cases l with
            | submitOrder o => exact ⟨hsubmitted ▸ hok.1, hok.2⟩
            | _ => trivial
          exact ⟨_, Lts.Reach.refl.next hfresh hstep,
            .inside (q := ⟨q.engine.among x, q.sent, q.dropped⟩)
            (hopen.among x) cmds hroom, fun w' hw => .inl hw⟩
      · cases h

/-- The states differ in the book of the symbol at most. -/
structure Apart (symbol : String) (s m : State) : Prop where
  ok : m.core.Ok
  cache : m.snapshotCache = s.snapshotCache
  view : ∀ a, a ≠ symbol → m.core.view a = s.core.view a
  stale : ∀ a, a ≠ symbol → Stale s a → Stale m a

theorem Opens.apart (hser : SerialInv engineID s) (h : Opens cfg s m w) : Apart w.symbol s m := by
  cases h with
  | removed hpc hwait hcancel =>
    have hspec := handleCancel_spec hser.ok hser.wf hcancel
    refine ⟨hspec.ok, rfl, fun a ha => ?_, fun a _ hs => hs⟩
    exact (congrFun (hspec.view_removed rfl) a).trans (Function.update_of_ne ha _ _)
  | traded hpc hsweep hkind hactive hround =>
    have hlook := hser.sweep_symbol hsweep
    have hsymbol := hser.round_symbol hsweep hkind hround
    refine ⟨setBook_ok hser.ok hlook _, rfl, fun a ha => ?_, fun a ha hs => ?_⟩
    · exact (congrFun (view_setBook hser.ok hlook _) a).trans
        (Function.update_of_ne (fun he => ha (he.trans hsymbol.symm)) _ _)
    · rcases hs with hs | ⟨-, sweep', hsweep', rfl⟩
      · exact .inl hs
      · cases hsweep.symm.trans hsweep'
        exact absurd hsymbol.symm ha
  | rested hpc hsweep hrest =>
    have hlook := hser.sweep_symbol hsweep
    rw [sliceDirty_eq]
    refine ⟨setBook_ok hser.ok hlook _, rfl, fun a ha => ?_, fun a ha hs => ?_⟩
    · exact (congrFun (view_setBook hser.ok hlook _) a).trans (Function.update_of_ne ha _ _)
    · exact hs.imp (fun hd => mem_sliceDirty.mpr (.inr hd)) id

/-- The symbol is marked, or in a slice that has traded, or its book has just changed. -/
def Fine.Stale (p : Fine) (symbol : String) : Prop :=
  Engine.Stale p.engine symbol ∨ ∃ w, p.window = some w ∧ w.symbol = symbol

theorem reach_follows (h : Lts.Reach (fineStep cfg) FreshFine (Fine.init engineID) p) :
    ∃ q, Lts.Reach (watchedStep cfg) FreshSent (Watched.init engineID) q ∧ Follows cfg q p := by
  refine h.simulate (fun p q => Follows cfg q p) .same fun p l p' q _ _ hf hok hs => ?_
  obtain ⟨q', hq', hf', -⟩ := hf.step hok hs
  exact ⟨q', hq', hf'⟩

/-- Of a symbol whose book has not just changed both engines show the same. -/
theorem Follows.agree (hf : Follows cfg q p) (hser : SerialInv engineID q.engine)
    (hne : symbol ≠ "") (hout : ∀ w, p.window = some w → w.symbol ≠ symbol) :
    bookOf p.engine symbol = bookOf q.engine symbol ∧
    p.engine.snapshotCache = q.engine.snapshotCache ∧
      (Engine.Stale q.engine symbol → Engine.Stale p.engine symbol) := by
  cases hf with
  | same => exact ⟨rfl, rfl, id⟩
  | @inside m w hopen cmds =>
    have ha := hopen.apart hser
    have hsymbol := (hout w rfl).symm
    refine ⟨?_, ha.cache, ha.stale symbol hsymbol⟩
    rw [bookOf_eq_view hser.ok hne, ← ha.view symbol hsymbol]
    exact bookOf_eq_view (s := m.plus cmds) ha.ok hne

theorem Follows.channel (hf : Follows cfg q p) :
    p.watched.sent = q.sent ∧ p.watched.dropped = q.dropped ∧
    p.engine.snapshotCh = q.engine.snapshotCh := by
  cases hf with
  | same => exact ⟨rfl, rfl, rfl⟩
  | inside hopen => exact ⟨rfl, rfl, congrArg Surroundings.snapshotCh hopen.surroundings⟩

/-! ## What is read and what was sent -/

/-- At any point of any run, also between a change of a book and its mark, whoever reads the
snapshot of a symbol gets the aggregation of its book, cut to the depth asked for, unless the symbol
is marked, or it is that of a slice under way which has traded, or its book has just changed and the
mark is still to come. -/
theorem snapshot_aggregates_book (cfg : EngineConfig) (engineID : Nat)
    (h : Lts.Reach (fineStep cfg) FreshFine (Fine.init engineID) p) (hne : symbol ≠ "")
    (hclean : ¬ p.Stale symbol) (depth : Int) :
    ∃ asks bids, Aggregates .asks ((bookOf p.engine symbol).resting .asks) asks ∧
      Aggregates .bids ((bookOf p.engine symbol).resting .bids) bids ∧
      requestOrderBookSnapshot p.engine symbol depth =
        ⟨symbol, asks.take (servedDepth depth), bids.take (servedDepth depth)⟩ := by
  obtain ⟨q, hq, hf⟩ := reach_follows h
  have hreach := reach_watched hq
  obtain ⟨hbook, hcache, hstale⟩ :=
    hf.agree (reach_serial hreach).2 hne fun w hw he => hclean (.inr ⟨w, hw, he⟩)
  have hread : requestOrderBookSnapshot p.engine symbol depth =
      requestOrderBookSnapshot q.engine symbol depth := by
    simp only [requestOrderBookSnapshot, loadSnapshot, hcache]
  rw [hbook, hread]
  exact requested_aggregates hreach hne (fun hs => hclean (.inl (hstale hs))) depth

/-- A sell order rests, and the engine waits for work. -/
def restFirst : List Label :=
  .submitOrder ⟨1, 1, 1, 0, "BTC", .sell, 0, 0, .limit, 10⟩ :: List.replicate 18 .advance

def publish : List Label :=
  [.tick, .recvTick] ++ List.replicate 4 .advance ++ [.flush "BTC"] ++ List.replicate 5 .advance

/-- A second sell order has just been added to the book of its symbol. -/
def thenRest (symbol : String) : List Label :=
  [.submitOrder ⟨2, 1, 1, 0, symbol, .sell, 0, 0, .limit, 10⟩, .recvOrder] ++
    List.replicate 15 .advance

/-- The first sell order has just been taken out of the book. -/
def thenCancel : List Label :=
  [.sendCancel ⟨1, "BTC", 1, .sell, 10⟩, .recvCancel] ++ List.replicate 3 .advance

/-- A buy order takes the sell order; the slice has not ended yet. -/
def thenTrade : List Label :=
  [.submitOrder ⟨2, 2, 1, 0, "BTC", .buy, 0, 0, .limit, 10⟩, .recvOrder] ++
    List.replicate 15 .advance

instance (p : Fine) (l : Label) : Decidable (FreshFine p l) :=
  inferInstanceAs (Decidable (FreshOrder p.engine l))

/-- One symbol is read while the other one waits for its mark. -/
theorem snapshot_aggregates_book_published :
    ∃ p asks, Lts.exec (Lts.guarded (fineStep smallestConfig) FreshFine)
      (restFirst ++ publish ++ thenRest "ETH")
        (Fine.init 1) = some p ∧ p.window.map Window.symbol = some "ETH" ∧
      (bookOf p.engine "BTC").resting .asks ≠ [] ∧
      Aggregates .asks ((bookOf p.engine "BTC").resting .asks) asks ∧
      (requestOrderBookSnapshot p.engine "BTC" 0).asks = asks.take 30 := by
  have hrun : (Lts.exec (Lts.guarded (fineStep smallestConfig) FreshFine)
      (restFirst ++ publish ++ thenRest "ETH")
      (Fine.init 1)).map (fun p =>
        (p.engine.dirtySymbols, p.engine.pc.Unmarked, p.window.map Window.symbol,
        ((bookOf p.engine "BTC").resting .asks).isEmpty)) =
          some ([], false, some "ETH", false) := by
    decide +kernel
  obtain ⟨p, hp, hend⟩ := Option.map_eq_some_iff.mp hrun
  simp only [Prod.mk.injEq] at hend
  obtain ⟨hdirty, hpc, hwindow, hrest⟩ := hend
  have hclean : ¬ p.Stale "BTC" := by
    rintro (hs | ⟨w, hw, he⟩)
    · simp [Stale, hdirty, hpc] at hs
    · rw [hw, Option.map_some, he] at hwindow
      exact absurd (Option.some.inj hwindow) (by decide)
  obtain ⟨asks, bids, hasks, -, hread⟩ :=
    snapshot_aggregates_book smallestConfig 1 (Lts.reach_of_exec_guarded _ hp) (by decide) hclean 0
  exact ⟨p, asks, hp, hwindow, by simpa using hrest, hasks, congrArg OrderBookSnapshot.asks hread⟩

/-- Inside a slice, between the removal of an order and its mark, and between the arrival of one and
its mark the symbol is not marked, and the cache shows another book. -/
theorem snapshot_stale_before_mark :
    let seen (run : List Label) := (Lts.exec (Lts.guarded (fineStep smallestConfig) FreshFine)
      (restFirst ++ publish ++ run) (Fine.init 1)).map fun p => (p.engine.dirtySymbols,
        ((bookOf p.engine "BTC").resting .asks).map Order.id,
        (requestOrderBookSnapshot p.engine "BTC" 10).asks)
    seen thenTrade = some ([], [], [⟨10, 1⟩]) ∧ seen thenCancel = some ([], [], [⟨10, 1⟩]) ∧
      seen (thenRest "BTC") = some ([], [1, 2], [⟨10, 1⟩]) := by
  decide +kernel

theorem told_or_inside (h : Lts.Reach (fineStep cfg) FreshFine (Fine.init engineID) p)
    (hne : symbol ≠ "")
    (hchanged : bookOf p.engine symbol ≠ newOrderBook)
    (hp : Lts.Reach (fineStep cfg) FreshFine p p') :
    ∃ q, Lts.Reach (watchedStep cfg) FreshSent (Watched.init engineID) q ∧ Follows cfg q p' ∧
      (Told q symbol ∨ ∃ w, p'.window = some w ∧ w.symbol = symbol) := by
  refine hp.invariant (fun p => ∃ q, Lts.Reach (watchedStep cfg) FreshSent
    (Watched.init engineID) q ∧
    Follows cfg q p ∧ (Told q symbol ∨ ∃ w, p.window = some w ∧ w.symbol = symbol)) ?_
    fun r l r' _ hi hok hs => ?_
  · obtain ⟨q, hq, hf⟩ := reach_follows h
    refine ⟨q, hq, hf, ?_⟩
    by_cases hin : ∃ w, p.window = some w ∧ w.symbol = symbol
    · exact .inr hin
    · have hser := (reach_serial (reach_watched hq)).2
      obtain ⟨hbook, -, -⟩ := hf.agree hser hne fun w hw he => hin ⟨w, hw, he⟩
      rw [hbook, bookOf_eq_view hser.ok hne] at hchanged
      exact .inl ((reach_told hq symbol).resolve_right hchanged)
  · obtain ⟨q, hq, hf, htold⟩ := hi
    obtain ⟨q', hq', hf', hleft⟩ := hf.step hok hs
    refine ⟨q', hq.trans hq', hf', ?_⟩
    rcases htold with htold | ⟨w, hw, rfl⟩
    · exact .inl (htold.reach hq hq')
    · exact (hleft w hw).elim (fun hw' => .inr ⟨w, hw', rfl⟩) fun hs => .inl (.inl hs)

/-- Once the book of a symbol has changed, the last snapshot that was put on `SnapshotCh` is that of
its book, unless the mark of the symbol is set or still to come, or the channel had no room for the
last one. What waits on the channel is the end of what was put there. -/
theorem last_snapshot_describes_book (cfg : EngineConfig) (engineID : Nat)
    (h : Lts.Reach (fineStep cfg) FreshFine (Fine.init engineID) p) (hne : symbol ≠ "")
    (hchanged : bookOf p.engine symbol ≠ newOrderBook)
    (hp : Lts.Reach (fineStep cfg) FreshFine p p')
    (hclean : ¬ p'.Stale symbol) (hroom : symbol ∉ p'.watched.dropped) :
    lastSent p'.watched symbol =
      some (snapshotOf symbol (bookOf p'.engine symbol) defaultSnapshotDepth) ∧
      p'.engine.snapshotCh <:+ p'.watched.sent := by
  obtain ⟨q, hq, hf, htold⟩ := told_or_inside h hne hchanged hp
  have hreach := reach_watched hq
  have hser := (reach_serial hreach).2
  obtain ⟨hbook, -, hstale⟩ := hf.agree hser hne fun w hw he => hclean (.inr ⟨w, hw, he⟩)
  have hfresh : ¬ Engine.Stale q.engine symbol := fun hs => hclean (.inl (hstale hs))
  obtain ⟨hsent, hdropped, hch⟩ := hf.channel
  rw [lastSent, hsent, hbook, hch, bookOf_eq_view hser.ok hne,
    ← (reach_cache hreach).fresh symbol hfresh]
  refine ⟨?_, reach_suffix hq⟩
  rcases htold with (hs | hd | hlast) | hin
  · exact absurd hs hfresh
  · exact absurd (hdropped ▸ hd) hroom
  · exact hlast
  · exact absurd (.inr hin) hclean

/-- The sell order is taken after its snapshot was sent, and the book without it is published too.
-/
theorem last_snapshot_describes_book_published :
    ∃ p p', Lts.exec (Lts.guarded (fineStep smallestConfig) FreshFine) restFirst (Fine.init 1) =
      some p ∧ bookOf p.engine "BTC" ≠ newOrderBook ∧
      Lts.exec (Lts.guarded (fineStep smallestConfig) FreshFine)
        (publish ++ thenTrade ++ List.replicate 4 .advance ++ publish) p = some p' ∧
      bookOf p'.engine "BTC" = newOrderBook ∧
      lastSent p'.watched "BTC" =
        some (snapshotOf "BTC" (bookOf p'.engine "BTC") defaultSnapshotDepth) := by
  have hrun :
      ((Lts.exec (Lts.guarded (fineStep smallestConfig) FreshFine) restFirst (Fine.init 1)).bind
        fun p =>
      (Lts.exec (Lts.guarded (fineStep smallestConfig) FreshFine)
        (publish ++ thenTrade ++ List.replicate 4 .advance ++ publish) p).map fun p' =>
          (decide (bookOf p.engine "BTC" = newOrderBook), bookOf p'.engine "BTC",
            p'.engine.dirtySymbols ++ p'.watched.dropped,
            p'.engine.pc.Unmarked || p'.window.isSome)) =
      some (false, newOrderBook, [], false) := by
    decide +kernel
  obtain ⟨p, hp, hrun⟩ := Option.bind_eq_some_iff.mp hrun
  obtain ⟨p', hp', hend⟩ := Option.map_eq_some_iff.mp hrun
  simp only [Prod.mk.injEq] at hend
  obtain ⟨hfirst, hbook, hmarks, hunmarked⟩ := hend
  obtain ⟨hdirty, hdropped⟩ := List.append_eq_nil_iff.mp hmarks
  obtain ⟨hpc, hwindow⟩ := Bool.or_eq_false_iff.mp hunmarked
  have hchanged := of_decide_eq_false hfirst
  have hclean : ¬ p'.Stale "BTC" := by
    rintro (hs | ⟨w, hw, -⟩)
    · simp [Stale, hdirty, hpc] at hs
    · rw [hw] at hwindow
      cases hwindow
  exact ⟨p, p', hp, hchanged, hp', hbook, (last_snapshot_describes_book smallestConfig 1
    (Lts.reach_of_exec_guarded _ hp) (by decide) hchanged (Lts.reach_of_exec_guarded _ hp') hclean
    (by simp [hdropped])).1⟩

/-- A sell order rests and is published. -/
def restOne (n : Nat) : List Label :=
  [.submitOrder ⟨n, 1, 1, 0, "BTC", .sell, 0, 0, .limit, 10⟩, .recvOrder] ++
    List.replicate 18 .advance ++ publish

/-- It is cancelled, which is published too. -/
def cancelOne (n : Nat) : List Label :=
  [.sendCancel ⟨n, "BTC", n, .sell, 10⟩, .tick, .recvCancel] ++ List.replicate 6 .advance ++
    [.flush "BTC"] ++ List.replicate 5 .advance ++ [.consume]

/-- Nobody takes a snapshot from the channel until it is full, and one order more rests. -/
def fillSnapshotCh : List Label :=
  List.replicate 8 .advance ++
    (List.range 128).flatMap (fun n => restOne (n + 1) ++ cancelOne (n + 1)) ++ restOne 129

set_option maxRecDepth 20000 in
/-- A snapshot that finds the channel full is lost with its mark: the engine waits for work, nothing
is marked or about to be, and the last snapshot sent lacks an order. -/
theorem last_snapshot_stale :
    (Lts.exec (fineStep smallestConfig) fillSnapshotCh (Fine.init 1)).map
      (fun p => (p.engine.dirtySymbols, decide (p.engine.pc = .select true ∧ p.window.isNone),
        ((bookOf p.engine "BTC").resting .asks).map Order.id, lastSent p.watched "BTC")) =
      some ([], true, [129], some ⟨"BTC", [], []⟩) := by
  decide +kernel

end GoExchange.Engine
