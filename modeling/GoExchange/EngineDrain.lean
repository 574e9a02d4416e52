import GoExchange.EngineCancels
import GoExchange.EngineStream

/-!
# The end of the engine

Once `Stop` is called nothing new is sent, and the engine closes its outputs
after it has found both channels, both latches and the slot of the sweep empty.
A symbol whose book has changed is marked until its snapshot is taken, or it is
the symbol of the slice under way, so that the last flush leaves a cache equal
to the books.
-/
namespace GoExchange.Engine

open Matching Core

/-- A symbol with no snapshot yet has an empty one. -/
def loadSnapshot (s : State) (symbol : String) : OrderBookSnapshot :=
  (s.snapshotCache.lookup symbol).getD ⟨symbol, [], []⟩

/-- The producers stop before `Stop` is called, and until then they send what they promise. -/
def Orderly (p : Served) : Label → Prop
  | .submitOrder o => p.engine.stopClosed = false ∧ FreshOrder p.engine (.submitOrder o)
  | .sendCancel _ => p.engine.stopClosed = false
  | _ => True

instance (p : Served) : DecidablePred (Orderly p)
  | .submitOrder o => inferInstanceAs
      (Decidable (p.engine.stopClosed = false ∧ FreshOrder p.engine (.submitOrder o)))
  | .sendCancel _ => inferInstanceAs (Decidable (p.engine.stopClosed = false))
  | .advance | .flush _ | .recvCancel | .recvOrder | .recvTick | .recvStop | .recvCapacity
  | .consume | .consumeSnapshot
  | .tick | .stop | .wake => isTrue trivial

/-- Positions on the way out. -/
def Pc.Leaving : Pc → Bool
  | .drain | .lastFlush | .returned => true
  | _ => false

/-- Positions behind the last look into the channels. -/
def Pc.Drained : Pc → Bool
  | .lastFlush | .returned => true
  | _ => false

variable {cfg : EngineConfig} {s s' t : State} {l : Label} {engineID : Nat} {p p' : Served}
  {symbol : String} {sweep : ActiveSweep}

/-! ## The way out -/

structure DrainInv (s : State) : Prop where
  stopped : s.shuttingDown = true → s.stopClosed = true
  leaving : s.pc.Leaving = true → s.shuttingDown = true ∧ s.activeSweep = none
  drained : s.pc.Drained = true → s.cancelCh = [] ∧ s.orderCh = []
  clean : s.pc = .returned → s.dirtySymbols = []

theorem init_drain (engineID : Nat) : DrainInv (init engineID) := ⟨nofun, nofun, nofun, nofun⟩

/-- A step that stays inside the loop. -/
theorem drain_inside (hpc : s.pc.Leaving = false)
    (hdown : s.shuttingDown = true → s.stopClosed = true) : DrainInv s where
  stopped := hdown
  leaving he := by
    rw [hpc] at he
    cases he
  drained he := by
    cases hp : s.pc <;> rw [hp] at he hpc <;> cases he <;> cases hpc
  clean he := by
    rw [he] at hpc
    cases hpc

theorem DrainInv.turn (h : DrainInv s) (ht : Turn cfg s s') : DrainInv s' := by
  cases ht with
  | stopParks _ hstop | stopAdmits _ hstop =>
    subst hstop
    exact drain_inside rfl fun hd => (Bool.or_eq_true_iff.mp hd).elim h.stopped id
  | leave _ hsweep _ _ hdown => exact ⟨h.stopped, fun _ => ⟨hdown, hsweep⟩, nofun, nofun⟩
  | drained hdrain hcancels horders =>
    have hleave := h.leaving (by rw [hdrain]; rfl)
    exact ⟨h.stopped, fun _ => hleave, fun _ => ⟨hcancels, horders⟩, nofun⟩
  | close hlast hdirty =>
    have hleave := h.leaving (by rw [hlast]; rfl)
    have hdrained := h.drained (by rw [hlast]; rfl)
    exact ⟨h.stopped, fun _ => hleave, fun _ => hdrained, fun _ => hdirty⟩
  | _ => exact drain_inside rfl h.stopped

theorem DrainInv.step (h : DrainInv p.engine) (hok : Orderly p l) (hs : Stepped cfg p.engine l s') :
    DrainInv s' := by
  have hsilent : p.engine.stopClosed = false → p.engine.pc.Leaving = false := by
    intro hopen
    cases hleave : p.engine.pc.Leaving with
    | false => rfl
    | true =>
      have hstop := h.stopped (h.leaving hleave).1
      rw [hopen] at hstop
      cases hstop
  cases hs with
  | turn ht => exact h.turn ht
  | flush symbol hpc hdirty =>
    refine ⟨h.stopped, h.leaving, h.drained, fun he => ?_⟩
    change (p.engine.dirtySymbols.filter _) = []
    rw [h.clean he]
    rfl
  | recvCancel | recvTick | recvOrder | recvCapacity => exact drain_inside rfl h.stopped
  | recvStop hpc hstop => exact drain_inside rfl fun _ => hstop
  | submitOrder o => exact drain_inside (hsilent hok.1) h.stopped
  | sendCancel cmd => exact drain_inside (hsilent hok) h.stopped
  | stop => exact ⟨fun _ => rfl, h.leaving, h.drained, h.clean⟩
  | consume | consumeSnapshot | tick | wake => exact ⟨h.stopped, h.leaving, h.drained, h.clean⟩

/-! ## The snapshots -/

/-- A slice has traded, or was cut short by a panic, and has not yet marked its symbol. -/
def Pc.Unmarked : Pc → Bool
  | .matching _ trades | .sliced _ trades _ => decide (1 ≤ trades)
  | .crashed _ => true
  | _ => false

/-- The snapshot of a symbol may be older than its book. -/
def Stale (s : State) (symbol : String) : Prop :=
  symbol ∈ s.dirtySymbols ∨
    s.pc.Unmarked = true ∧ ∃ sweep, s.activeSweep = some sweep ∧ sweep.order.coinSymbol = symbol

structure CacheInv (s : State) : Prop where
  named : "" ∉ s.dirtySymbols
  fresh : ∀ symbol, ¬ Stale s symbol →
    loadSnapshot s symbol = snapshotOf symbol (s.core.view symbol) defaultSnapshotDepth

theorem init_cache (engineID : Nat) : CacheInv (init engineID) := ⟨by simp [init], fun _ _ => rfl⟩

/-- A step that publishes nothing: a book that it changes is marked, or will be when the slice ends.
-/
structure Marked (s s' : State) : Prop where
  cache : s'.snapshotCache = s.snapshotCache
  channel : s'.snapshotCh <:+ s.snapshotCh
  named : "" ∉ s.dirtySymbols → "" ∉ s'.dirtySymbols
  stale : ∀ a, Stale s a → Stale s' a
  view : ∀ a, ¬ Stale s' a → s'.core.view a = s.core.view a

theorem CacheInv.marked (h : CacheInv s) (hm : Marked s s') : CacheInv s' where
  named := hm.named h.named
  fresh a ha := by
    rw [loadSnapshot, hm.cache, hm.view a ha]
    exact h.fresh a fun hs => ha (hm.stale a hs)

/-- Outside a slice only the marks count. -/
theorem marked_idle (hpc : s.pc.Unmarked = false) (hcache : s'.snapshotCache = s.snapshotCache)
    (hch : s'.snapshotCh <:+ s.snapshotCh) (hdirty : s'.dirtySymbols = s.dirtySymbols)
    (hview : s'.core.view = s.core.view) : Marked s s' := by
  refine ⟨hcache, hch, fun h => hdirty ▸ h, fun a ha => ?_, fun a _ => by rw [hview]⟩
  rcases ha with ha | ⟨hun, -⟩
  · exact .inl (hdirty ▸ ha)
  · rw [hpc] at hun
    cases hun

theorem mem_markDirty {a : String} :
    a ∈ (markDirty s symbol).dirtySymbols ↔ a = symbol ∨ a ∈ s.dirtySymbols := by
  unfold markDirty
  dsimp only
  split
  · rename_i hin
    constructor
    · exact .inr
    · rintro (rfl | ha)
      · exact hin
      · exact ha
  · exact List.mem_cons

theorem mem_sliceDirty {a : String} {trades : Nat} :
    a ∈ (sliceDirty s symbol trades).dirtySymbols ↔ 1 ≤ trades ∧ a = symbol ∨
    a ∈ s.dirtySymbols := by
  unfold sliceDirty
  split <;> rename_i htrades
  · rw [mem_markDirty, and_iff_right htrades]
  · simp [htrades]

/-- A trade leaves the order its symbol. -/
theorem SerialInv.round_symbol (hser : SerialInv engineID s) (hsweep : s.activeSweep = some sweep)
    {k : MatchKind} (hkind : kindOf sweep.order = some k) {book : OrderBook} {order : Order}
    {fill : Fill} (hround : k.round (s.core.book sweep.book) sweep.order = .trade book order fill) :
    order.coinSymbol = sweep.order.coinSymbol := by
  have hwf : (s.core.book sweep.book).Wf := view_of_lookup (hser.sweep_symbol hsweep) ▸ hser.wf _
  obtain ⟨m, qty, hr⟩ := round_trade (lawful_of_kindOf hkind) hwf hround
  have hfix : order.fixed = sweep.order.fixed := by
    rw [hr.taker, (lawful_of_kindOf hkind).fill_fixed]
  simp only [Order.fixed, Prod.mk.injEq] at hfix
  exact hfix.2.2.1

/-- The book of the sweep is set, under a mark or the marks to come. -/
theorem view_sweep (hser : SerialInv engineID s) (hsweep : s.activeSweep = some sweep)
    (book : OrderBook) (hnow : Stale s' sweep.order.coinSymbol)
    (hview : s'.core.view = (s.core.setBook sweep.book book).view) (a : String)
    (ha : ¬ Stale s' a) : s'.core.view a = s.core.view a := by
  have hne : a ≠ sweep.order.coinSymbol := by
    rintro rfl
    exact ha hnow
  rw [hview, view_setBook hser.ok (hser.sweep_symbol hsweep), Function.update_of_ne hne]

/-- At the end of a slice the marks say what the position said. -/
theorem stale_of_sliced {hadActive done : Bool} {trades : Nat}
    (hpc : s.pc = .sliced hadActive trades done) (hsweep : s.activeSweep = some sweep)
    (hdirty : ∀ a ∈ (sliceDirty s sweep.order.coinSymbol trades).dirtySymbols, a ∈ s'.dirtySymbols)
    (a : String) (h : Stale s a) : Stale s' a := by
  refine .inl (hdirty a (mem_sliceDirty.mpr ?_))
  rcases h with h | ⟨hun, sweep', hsweep', ha⟩
  · exact .inr h
  · rw [hpc] at hun
    cases hsweep.symm.trans hsweep'
    exact .inl ⟨of_decide_eq_true hun, ha.symm⟩

theorem marked_of_turn (hser : SerialInv engineID s) (ht : Turn cfg s s') : Marked s s' := by
  have hslice : ∀ {symbol trades}, symbol ≠ "" → "" ∉ s.dirtySymbols →
      "" ∉ (sliceDirty s symbol trades).dirtySymbols := by
    intro symbol trades hne hnamed he
    rcases mem_sliceDirty.mp he with ⟨-, he⟩ | he
    · exact hne he.symm
    · exact hnamed he
  cases ht with
  | refused hpc _ hcancel hresult =>
    exact marked_idle (by rw [hpc]; rfl) rfl List.suffix_rfl rfl
      ((handleCancel_spec hser.ok hser.wf hcancel).view_kept hresult)
  | @removed _ _ cmd _ core hpc _ hcancel =>
    have hspec := handleCancel_spec hser.ok hser.wf hcancel
    have hmark : ∀ a, a = cmd.coinSymbol ∨ a ∈ s.dirtySymbols →
        a ∈ (markDirty s cmd.coinSymbol).dirtySymbols :=
      fun a => mem_markDirty.mpr
    refine ⟨rfl, List.suffix_rfl, fun hnamed he => ?_, fun a ha => ?_, fun a ha => ?_⟩
    · rcases mem_markDirty.mp he with he | he
      · exact (hspec.removed_iff.mp rfl).symbol he.symm
      · exact hnamed he
    · rcases ha with ha | ⟨hun, -⟩
      · exact .inl (hmark a (.inr ha))
      · rw [hpc] at hun
        cases hun
    · have hne : a ≠ cmd.coinSymbol := fun he => ha (.inl (hmark a (.inl he)))
      change core.view a = _
      rw [hspec.view_removed rfl, Matching.Core.removed, Function.update_of_ne hne]
  | @trade hadActive trades sweep _ book order fill _ hsweep hkind _ _ hround =>
    have hsymbol := hser.round_symbol hsweep hkind hround
    have hnow : Stale (traded cfg s sweep book order fill (.matching hadActive (trades + 1)))
        sweep.order.coinSymbol :=
      .inr ⟨decide_eq_true (Nat.le_add_left 1 trades), _, rfl, hsymbol⟩
    refine ⟨rfl, List.suffix_rfl, id, fun a ha => ?_, view_sweep hser hsweep book hnow rfl⟩
    rcases ha with ha | ⟨-, sweep', hsweep', rfl⟩
    · exact .inl ha
    · cases hsweep.symm.trans hsweep'
      exact hnow
  | matched hpc =>
    refine ⟨rfl, List.suffix_rfl, id, fun a ha => ?_, fun _ _ => rfl⟩
    rw [Stale, hpc] at ha
    exact ha
  | panicked =>
    exact ⟨rfl, List.suffix_rfl, id, fun a ha => ha.imp id fun ha => ⟨rfl, ha.2⟩, fun _ _ => rfl⟩
  | yielded hpc hsweep hdirty | marketDone hpc hsweep hdirty | filled hpc hsweep hdirty =>
    subst hdirty
    exact ⟨rfl, List.suffix_rfl, hslice (hser.sweep_symbol_ne hsweep), stale_of_sliced hpc hsweep
      fun _ ha => ha, fun _ _ => rfl⟩
  | rested hpc hsweep hdirty =>
    subst hdirty
    have hne := hser.sweep_symbol_ne hsweep
    refine ⟨rfl, List.suffix_rfl, fun hnamed he => ?_, stale_of_sliced hpc hsweep fun _ ha =>
      mem_markDirty.mpr (.inr ha),
      view_sweep hser hsweep _ (.inl (mem_markDirty.mpr (.inl rfl))) rfl⟩
    rcases mem_markDirty.mp he with he | he
    · exact hne he.symm
    · exact hslice hne hnamed he
  | admitted hpc =>
    exact marked_idle (by rw [hpc]; rfl) rfl List.suffix_rfl rfl
      ((getOrderBook_looked hser.ok.toBounded _).view hser.ok)
  | start hpc | accept hpc | reject hpc | spent hpc | held hpc | noCancel hpc | rejected hpc
  | publish hpc
  | noPublish hpc | published hpc | beginSlice hpc | noSlice hpc | stopParks hpc | stopAdmits hpc
  | skipped hpc
  | noOrder hpc | park hpc | again hpc | leave hpc | rest hpc | drainCancel hpc | drainOrder hpc
  | drained hpc
  | close hpc =>
    exact marked_idle (by rw [hpc]; rfl) rfl List.suffix_rfl rfl rfl

/-- A step flushes a symbol, or it publishes nothing. -/
theorem marked_of_stepped (hser : SerialInv engineID s) (hs : Stepped cfg s l s') :
    (∃ symbol ∈ s.dirtySymbols, l = .flush symbol ∧ s' = flushSymbol s symbol) ∨
    ((∀ symbol, l ≠ .flush symbol) ∧ Marked s s') := by
  have hwaits : s.pc.Waits → s.pc.Unmarked = false := by
    intro hw
    cases hpc : s.pc <;> rw [hpc] at hw <;> first | rfl | exact hw.elim
  cases hs with
  | turn ht => exact .inr ⟨nofun, marked_of_turn hser ht⟩
  | flush symbol hpc hdirty => exact .inl ⟨symbol, hdirty, rfl, rfl⟩
  | recvCancel hpc | recvTick hpc | recvStop hpc =>
    exact .inr ⟨nofun, marked_idle (hwaits hpc) rfl List.suffix_rfl rfl rfl⟩
  | recvOrder hpc | recvCapacity hpc =>
    exact .inr ⟨nofun, marked_idle (by rw [hpc]; rfl) rfl List.suffix_rfl rfl rfl⟩
  | submitOrder | sendCancel | consume | tick | stop | wake =>
    exact .inr ⟨nofun, rfl, List.suffix_rfl, id, fun _ ha => ha, fun _ _ => rfl⟩
  | consumeSnapshot hch =>
    exact .inr ⟨nofun, rfl, hch ▸ List.suffix_cons _ _, id, fun _ ha => ha, fun _ _ => rfl⟩

theorem lookup_filter_ne {β : Type} {a : String} (hne : a ≠ symbol) (entries : List (String × β)) :
    (entries.filter fun e => e.1 != symbol).lookup a = entries.lookup a := by
  induction entries with
  | nil => rfl
  | cons e entries ih =>
    by_cases he : e.1 = symbol
    · have hae : (a == e.1) = false := beq_false_of_ne (he ▸ hne)
      rw [List.filter_cons_of_neg (by simp [he]), List.lookup_cons, hae, ih]
    · rw [List.filter_cons_of_pos (by simp [he]), List.lookup_cons, List.lookup_cons, ih]

theorem loadSnapshot_flushSymbol (s : State) (symbol a : String) :
    loadSnapshot (flushSymbol s symbol) a =
      if a = symbol then
        snapshotOf symbol ((s.core.getOrderBook symbol).1.book (s.core.getOrderBook symbol).2)
          defaultSnapshotDepth
      else loadSnapshot s a := by
  by_cases ha : a = symbol
  · simp [loadSnapshot, flushSymbol, ha]
  · simp only [loadSnapshot, flushSymbol, List.lookup_cons, beq_false_of_ne ha,
      lookup_filter_ne ha, if_neg ha]

theorem CacheInv.flush (h : CacheInv s) (hok : s.core.Ok) (hdirty : symbol ∈ s.dirtySymbols) :
    CacheInv (flushSymbol s symbol) := by
  have hne : symbol ≠ "" := by
    rintro rfl
    exact h.named hdirty
  have hl := getOrderBook_looked hok.toBounded symbol
  constructor
  · intro he
    exact h.named (List.mem_of_mem_filter he)
  · intro a ha
    have hview : (flushSymbol s symbol).core.view = s.core.view := hl.view hok
    rw [loadSnapshot_flushSymbol, hview]
    split <;> rename_i he
    · rw [he, hl.book_eq hok hne]
    · refine h.fresh a fun hs => ha (hs.imp (fun hs => ?_) id)
      exact List.mem_filter.mpr ⟨hs, by simp [he]⟩

theorem CacheInv.step (h : CacheInv s) (hser : SerialInv engineID s) (hs : Stepped cfg s l s') :
    CacheInv s' := by
  rcases marked_of_stepped hser hs with ⟨symbol, hdirty, -, rfl⟩ | ⟨-, hm⟩
  · exact h.flush hser.ok hdirty
  · exact h.marked hm

/-! ## The closed outputs -/

theorem reach_fresh (h : Lts.Reach (servedStep cfg) Orderly (Served.init engineID) p) :
    Lts.Reach (step cfg) FreshOrder (init engineID) p.engine := by
  refine h.invariant (fun p => Lts.Reach (step cfg) FreshOrder (init engineID) p.engine) .refl
    fun p l p' _ hi hok hs => ?_
  obtain ⟨s', hstep, rfl⟩ := Option.map_eq_some_iff.mp hs
  refine hi.next ?_ hstep
  cases l with
  | submitOrder o => exact hok.2
  | _ => trivial

theorem reach_drain (h : Lts.Reach (servedStep cfg) Orderly (Served.init engineID) p) :
    DrainInv p.engine := by
  refine h.invariant (fun p => DrainInv p.engine) (init_drain engineID)
    fun p l p' hr hi hok hs => ?_
  obtain ⟨s', hstep, rfl⟩ := Option.map_eq_some_iff.mp hs
  exact hi.step hok (stepped_of_step (reach_reserve (reach_fresh hr)) hstep)

theorem reach_cache (h : Lts.Reach (step cfg) FreshOrder (init engineID) s) : CacheInv s := by
  refine h.invariant CacheInv (init_cache engineID) fun s l s' hr hi _ hs => ?_
  exact hi.step (reach_serial hr).2 (stepped_of_step (reach_reserve hr) hs)

theorem silent_of_exec (hi : ReserveInv cfg p.engine) (hpc : p.engine.pc = .returned)
    (as : List Label)
    (h : Lts.exec (servedStep cfg) as p = some p') : Silent p.engine p'.engine := by
  have hinv := (Lts.reach_of_exec as h).invariant
    (fun q => ReserveInv cfg q.engine ∧ Silent p.engine q.engine) ⟨hi, .refl hpc⟩
    fun q l q' _ ⟨hr, hsilent⟩ _ hs => by
      obtain ⟨s', hstep, rfl⟩ := Option.map_eq_some_iff.mp hs
      exact ⟨hr.step hstep, hsilent.trans ((stepped_of_step hr hstep).silent hsilent.returned)⟩
  exact hinv.2

/-- Where the producers stop before `Stop` is called, the engine closes its outputs with both
channels, both latches and the slot of the sweep empty. Every order sent is admitted and every
cancel answered; the events sent are those of a serial run of all the orders and removals, which
ends with the same books, and one event for each removal. From then on nothing is sent, and the
snapshot cached for a symbol is the one of its book. -/
theorem engine_closes_drained (cfg : EngineConfig) (engineID : Nat) {p : Served}
    (h : Lts.Reach (servedStep cfg) Orderly (Served.init engineID) p)
    (hclosed : p.engine.outputsClosed = true) :
    (p.engine.orderCh = [] ∧ p.engine.cancelCh = [] ∧ p.engine.pendingOrder = none ∧
      p.engine.pendingCancel = none ∧ p.engine.activeSweep = none) ∧
    (p.engine.admitted = p.engine.submitted ∧ p.engine.answers.map Prod.fst = p.sent) ∧
    (∃ ops c es, (Core.new engineID).performAll ops = some (c, es) ∧
      orders ops = p.engine.submitted ∧
      (cancels ops).Perm (removedCancels p.engine) ∧
      Matching.records (events p.engine) = Matching.records es ∧ c.view = p.engine.core.view) ∧
    (cancelEvents p.engine).map eventKey = (removedCancels p.engine).map commandKey ∧
    (∀ as p', Lts.exec (servedStep cfg) as p = some p' → Silent p.engine p'.engine) ∧
    (∀ symbol, loadSnapshot p.engine symbol =
      snapshotOf symbol (p.engine.core.view symbol) defaultSnapshotDepth) := by
  have hfresh := reach_fresh h
  have hdrain := reach_drain h
  have hpc := reach_closed hfresh hclosed
  have hqueues := reach_queues (h.mono fun _ _ _ => trivial)
  obtain ⟨hcancel, horder⟩ := (reach_latches hfresh).clear (by rw [hpc]; rfl)
  obtain ⟨hcancels, horders⟩ := hdrain.drained (by rw [hpc]; rfl)
  have hsweep := (hdrain.leaving (by rw [hpc]; rfl)).2
  have hadmitted : p.engine.admitted = p.engine.submitted := by
    rw [hqueues.orders, intake, horder, horders, Option.toList_none, List.append_nil,
      List.append_nil]
  have hanswers : p.engine.answers.map Prod.fst = p.sent := by
    rw [hqueues.cancels, waiting, hcancel, hcancels, Option.toList_none, List.append_nil,
      List.append_nil]
  refine ⟨⟨horders, hcancels, horder, hcancel, hsweep⟩, ⟨hadmitted, hanswers⟩, ?_,
    reach_matched hfresh,
    fun as p' => silent_of_exec (reach_reserve hfresh) hpc as, fun symbol =>
      (reach_cache hfresh).fresh symbol fun hstale => ?_⟩
  · cases (reach_serial hfresh).2.explained with
    | @idle ops c es run _ hi =>
      exact ⟨ops, c, es, run.run, hi.orders.trans hadmitted, hi.cancels, hi.records, hi.view.symm⟩
    | sweeping run hsome =>
      rw [hsweep] at hsome
      cases hsome
  · rcases hstale with hdirty | ⟨hun, -⟩
    · rw [hdrain.clean hpc] at hdirty
      cases hdirty
    · rw [hpc] at hun
      cases hun

/-- A sell order is taken and rests, `Stop` is called, and the engine drains and closes with the
order in the cache. -/
def restAndStop : List Label :=
  .submitOrder ⟨1, 1, 1, 0, "BTC", .sell, 0, 0, .limit, 10⟩ :: List.replicate 17 .advance ++
    [.stop, .recvStop] ++ List.replicate 9 .advance ++ [.flush "BTC", .advance]

theorem engine_closes_drained_restAndStop :
    ∃ p, Lts.exec (Lts.guarded (servedStep smallestConfig) Orderly) restAndStop (Served.init 1) =
      some p ∧
      p.engine.outputsClosed = true ∧ p.engine.submitted ≠ [] ∧
      p.engine.admitted = p.engine.submitted ∧
      loadSnapshot p.engine "BTC" =
        snapshotOf "BTC" (p.engine.core.view "BTC") defaultSnapshotDepth := by
  have hrun : (Lts.exec (Lts.guarded (servedStep smallestConfig) Orderly) restAndStop
      (Served.init 1)).map
      (fun p => (p.engine.outputsClosed, p.engine.submitted.isEmpty)) = some (true, false) := by
    decide +kernel
  obtain ⟨p, hp, hend⟩ := Option.map_eq_some_iff.mp hrun
  obtain ⟨hclosed, hsent⟩ := Prod.mk.inj hend
  have hall := engine_closes_drained smallestConfig 1 (Lts.reach_of_exec_guarded _ hp) hclosed
  exact ⟨p, hp, hclosed, by simpa using hsent, hall.2.1.1, hall.2.2.2.2.2 "BTC"⟩

end GoExchange.Engine
