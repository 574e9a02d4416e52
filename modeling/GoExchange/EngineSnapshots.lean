import GoExchange.EngineDrain

/-!
# Snapshots of the books

A snapshot is read from the cache at any time, also while the engine works on
a slice, and it is sent to the subscribers when its symbol is flushed. What is
read describes the book unless the symbol is marked or its slice is still under
way; what was sent last does so too, unless the channel had no room for it.
-/
namespace GoExchange.Engine

open Matching Core Tally

variable {cfg : EngineConfig} {s s' : State} {l : Label} {engineID : Nat} {symbol : String}

/-! ## Aggregation -/

/-- The levels of a half: the best price first, one level for each price that has an order, with the
sum of the amounts there. -/
structure Aggregates (h : Half) (orders : List Order) (levels : List PriceLevelData) : Prop where
  sorted : levels.Pairwise fun x y => h.before x.price y.price = true
  prices : ∀ p, p ∈ levels.map PriceLevelData.price ↔ p ∈ orders.map Order.price
  quantity : ∀ x ∈ levels, x.quantity = sumAt Order.price Order.amount orders x.price

theorem sum_pos {items : List Order} (hne : items ≠ []) (h : ∀ m ∈ items, 0 < m.amount) :
    0 < (items.map Order.amount).sum := by
  induction items with
  | nil => exact absurd rfl hne
  | cons m items ih =>
    rw [List.map_cons, List.sum_cons]
    have hm := h m List.mem_cons_self
    by_cases hnil : items = []
    · rw [hnil, List.map_nil, List.sum_nil, add_zero]
      exact hm
    · exact add_pos hm (ih hnil fun x hx => h x (List.mem_cons_of_mem _ hx))

/-- No level of a fair book is skipped. -/
theorem levelData_eq {h : Half} {b : OrderBook} (hb : b.Fair) :
    levelData (b.half h) = (b.half h).map fun l => ⟨l.key, (l.items.map Order.amount).sum⟩ := by
  apply List.filter_eq_self.mpr
  intro d hd
  obtain ⟨level, hlevel, rfl⟩ := List.mem_map.mp hd
  refine decide_eq_true (sum_pos ((hb.wf h).nonempty level hlevel) fun m hm => hb.positive h m ?_)
  exact List.mem_flatMap.mpr ⟨level, hlevel, hm⟩

theorem levelData_aggregates {b : OrderBook} (hb : b.Fair) (h : Half) :
    Aggregates h (b.resting h) (levelData (b.half h)) := by
  have hw := hb.wf h
  rw [levelData_eq hb]
  refine ⟨List.pairwise_map.mpr hw.sorted, fun p => ?_, fun x hx => ?_⟩
  · simp only [List.map_map, List.mem_map, Function.comp_apply, OrderBook.resting, Buckets.flatten,
      List.mem_flatMap]
    constructor
    · rintro ⟨level, hlevel, rfl⟩
      obtain ⟨m, hm⟩ := List.exists_mem_of_ne_nil _ (hw.nonempty level hlevel)
      exact ⟨m, ⟨level, hlevel, hm⟩, hw.keyed level hlevel m hm⟩
    · rintro ⟨m, ⟨level, hlevel, hm⟩, rfl⟩
      exact ⟨level, hlevel, (hw.keyed level hlevel m hm).symm⟩
  · obtain ⟨level, hlevel, rfl⟩ := List.mem_map.mp hx
    have hitems := hw.filter_flatten (OrderBook.before_strict h) hlevel
    unfold sumAt OrderBook.resting
    rw [hitems]

/-! ## Reading the cache -/

def normalizeSnapshotDepth (depth : Int) : Int := if depth ≤ 0 then defaultSnapshotDepth else depth

def truncateSnapshot (snapshot : OrderBookSnapshot) (depth : Nat) : OrderBookSnapshot :=
  ⟨snapshot.coinSymbol, snapshot.asks.take depth, snapshot.bids.take depth⟩

/-- Read by any goroutine, without a lock. -/
def requestOrderBookSnapshot (s : State) (symbol : String) (depth : Int) : OrderBookSnapshot :=
  let depth := normalizeSnapshotDepth depth
  let depth := if (defaultSnapshotDepth : Int) < depth then (defaultSnapshotDepth : Int) else depth
  truncateSnapshot (loadSnapshot s symbol) depth.toNat

/-- The depth that a request gets. -/
def servedDepth (depth : Int) : Nat :=
  if depth ≤ 0 then defaultSnapshotDepth else min depth.toNat defaultSnapshotDepth

theorem requestOrderBookSnapshot_eq (s : State) (symbol : String) (depth : Int) :
    requestOrderBookSnapshot s symbol depth =
      truncateSnapshot (loadSnapshot s symbol) (servedDepth depth) := by
  have hdepth : (if (defaultSnapshotDepth : Int) < normalizeSnapshotDepth depth then
      (defaultSnapshotDepth : Int)
      else normalizeSnapshotDepth depth).toNat = servedDepth depth := by
    unfold normalizeSnapshotDepth servedDepth
    by_cases hpos : depth ≤ 0
    · simp [hpos]
    · simp only [if_neg hpos]
      split <;> omega
  rw [← hdepth]
  rfl

theorem truncate_snapshotOf (symbol : String) (book : OrderBook) {n depth : Nat} (h : n ≤ depth) :
    truncateSnapshot (snapshotOf symbol book depth) n = snapshotOf symbol book n := by
  unfold truncateSnapshot snapshotOf
  rw [List.take_take, List.take_take, Nat.min_eq_left h]

theorem servedDepth_le (depth : Int) : servedDepth depth ≤ defaultSnapshotDepth := by
  unfold servedDepth
  split
  · exact le_refl _
  · exact Nat.min_le_right _ _

theorem bookOf_eq_view (hok : s.core.Ok) (hne : symbol ≠ "") :
    bookOf s symbol = s.core.view symbol := by
  exact (getOrderBook_looked hok.toBounded symbol).book_eq hok hne

/-- Between two steps whoever reads the snapshot of a symbol gets the aggregation of its book, cut
to the depth asked for, unless the symbol is marked or it is that of a slice under way which has
traded. -/
theorem requested_aggregates (h : Lts.Reach (step cfg) FreshOrder (init engineID) s)
    (hne : symbol ≠ "") (hclean : ¬ Stale s symbol) (depth : Int) :
    ∃ asks bids, Aggregates .asks ((bookOf s symbol).resting .asks) asks ∧
      Aggregates .bids ((bookOf s symbol).resting .bids) bids ∧
      requestOrderBookSnapshot s symbol depth =
        ⟨symbol, asks.take (servedDepth depth), bids.take (servedDepth depth)⟩ := by
  have hfair := (reach_books h).bookOf_fair symbol
  refine ⟨_, _, levelData_aggregates hfair .asks, levelData_aggregates hfair .bids, ?_⟩
  rw [requestOrderBookSnapshot_eq, (reach_cache h).fresh symbol hclean,
    truncate_snapshotOf _ _ (servedDepth_le depth), ← bookOf_eq_view (reach_serial h).2.ok hne]
  rfl

/-! ## What the subscribers were sent -/

/-- The engine with the snapshots it has put on `SnapshotCh`, and the symbols whose last one was
dropped. -/
structure Watched where
  engine : State
  sent : List OrderBookSnapshot
  dropped : List String

def Watched.init (engineID : Nat) : Watched := ⟨Engine.init engineID, [], []⟩

/-- Only a flush puts something on the channel; one that does not has dropped its snapshot. -/
def watch (p : Watched) (s : State) : Label → Watched
  | .flush symbol =>
    let added := s.snapshotCh.drop p.engine.snapshotCh.length
    ⟨s, p.sent ++ added, if added = [] then symbol :: p.dropped else p.dropped.filter (· != symbol)⟩
  | _ => ⟨s, p.sent, p.dropped⟩

def watchedStep (cfg : EngineConfig) (l : Label) (p : Watched) : Option Watched :=
  (step cfg l p.engine).map fun s => watch p s l

/-- The last snapshot of a symbol that was put on the channel. -/
def lastSent (p : Watched) (symbol : String) : Option OrderBookSnapshot :=
  p.sent.reverse.find? fun x => x.coinSymbol = symbol

variable {p p' q : Watched}

theorem watch_engine (p : Watched) (s : State) (l : Label) : (watch p s l).engine = s := by
  cases l <;> rfl

theorem watch_other (hl : ∀ symbol, l ≠ .flush symbol) (p : Watched) (s : State) :
    watch p s l = ⟨s, p.sent, p.dropped⟩ := by
  cases l with
  | flush symbol => exact absurd rfl (hl symbol)
  | _ => rfl

theorem step_of_watched (h : watchedStep cfg l p = some p') :
    step cfg l p.engine = some p'.engine := by
  obtain ⟨s, hstep, rfl⟩ := Option.map_eq_some_iff.mp h
  rw [watch_engine]
  exact hstep

/-- The symbol is still to be flushed, or its last flush is known to the subscribers or was dropped.
-/
def Told (p : Watched) (symbol : String) : Prop :=
  Stale p.engine symbol ∨ symbol ∈ p.dropped ∨
    lastSent p symbol = some (loadSnapshot p.engine symbol)

theorem flushSymbol_added (s : State) (symbol : String) :
    (flushSymbol s symbol).snapshotCh.drop s.snapshotCh.length =
      if s.snapshotCh.length < snapshotChCapacity then [loadSnapshot (flushSymbol s symbol) symbol]
        else [] := by
  rw [loadSnapshot_flushSymbol, if_pos rfl]
  unfold flushSymbol
  dsimp only
  split
  · exact List.drop_left
  · exact List.drop_length

theorem loadSnapshot_symbol (s : State) (symbol : String) :
    (loadSnapshot (flushSymbol s symbol) symbol).coinSymbol = symbol := by
  rw [loadSnapshot_flushSymbol, if_pos rfl]
  rfl

theorem Stale.of_flush {a : String} (h : Stale s a) (hne : a ≠ symbol) :
    Stale (flushSymbol s symbol) a := by
  refine h.imp (fun hd => ?_) id
  exact List.mem_filter.mpr ⟨hd, by simp [hne]⟩

/-- A flush tells its symbol, and nothing about the others. -/
theorem told_flush (p : Watched) (symbol : String) :
    Told (watch p (flushSymbol p.engine symbol) (.flush symbol)) symbol ∧
      ∀ a, a ≠ symbol → Told p a →
      Told (watch p (flushSymbol p.engine symbol) (.flush symbol)) a := by
  unfold Told lastSent watch
  simp only [flushSymbol_added p.engine symbol]
  by_cases hroom : p.engine.snapshotCh.length < snapshotChCapacity
  · simp only [if_pos hroom, List.reverse_append, List.reverse_cons, List.reverse_nil,
      List.nil_append, List.singleton_append]
    constructor
    · refine .inr (.inr ?_)
      rw [List.find?_cons_of_pos (by simp [loadSnapshot_symbol])]
    · intro a hne ht
      rcases ht with ht | ht | ht
      · exact .inl (ht.of_flush hne)
      · exact .inr (.inl (by simp [ht, hne]))
      · refine .inr (.inr ?_)
        rw [List.find?_cons_of_neg (by simp [loadSnapshot_symbol, hne.symm]),
          loadSnapshot_flushSymbol, if_neg hne]
        exact ht
  · simp only [if_neg hroom, if_pos, List.append_nil]
    constructor
    · exact .inr (.inl List.mem_cons_self)
    · intro a hne ht
      rcases ht with ht | ht | ht
      · exact .inl (ht.of_flush hne)
      · exact .inr (.inl (List.mem_cons_of_mem _ ht))
      · refine .inr (.inr ?_)
        rw [loadSnapshot_flushSymbol, if_neg hne]
        exact ht

/-- A step that publishes nothing leaves what was told. -/
theorem told_marked (hm : Marked p.engine s) {a : String} (ht : Told p a) :
    Told ⟨s, p.sent, p.dropped⟩ a := by
  rcases ht with ht | ht | ht
  · exact .inl (hm.stale a ht)
  · exact .inr (.inl ht)
  · refine .inr (.inr ?_)
    unfold loadSnapshot
    rw [hm.cache]
    exact ht

/-- The channel holds the end of what was sent. -/
theorem suffix_sent
    (hs : (∃ symbol ∈ p.engine.dirtySymbols, l = .flush symbol ∧ s = flushSymbol p.engine symbol) ∨
      ((∀ symbol, l ≠ .flush symbol) ∧ Marked p.engine s)) (hch : p.engine.snapshotCh <:+ p.sent) :
    s.snapshotCh <:+ (watch p s l).sent := by
  rcases hs with ⟨symbol, -, rfl, rfl⟩ | ⟨hl, hm⟩
  · simp only [watch, flushSymbol_added]
    by_cases hroom : p.engine.snapshotCh.length < snapshotChCapacity
    · have hput : (flushSymbol p.engine symbol).snapshotCh =
          p.engine.snapshotCh ++ [loadSnapshot (flushSymbol p.engine symbol) symbol] := by
        rw [loadSnapshot_flushSymbol, if_pos rfl]
        simp only [flushSymbol, if_pos hroom]
      obtain ⟨before, hbefore⟩ := hch
      rw [if_pos hroom, hput, ← hbefore, List.append_assoc]
      exact List.suffix_append _ _
    · rw [if_neg hroom, List.append_nil]
      simpa only [flushSymbol, if_neg hroom] using hch
  · rw [watch_other hl]
    exact hm.channel.trans hch

/-- What the producers promise, for the watched engine. -/
def FreshSent (p : Watched) (l : Label) : Prop := FreshOrder p.engine l

theorem reach_watched (h : Lts.Reach (watchedStep cfg) FreshSent (Watched.init engineID) p) :
    Lts.Reach (step cfg) FreshOrder (init engineID) p.engine := by
  refine h.invariant (fun p => Lts.Reach (step cfg) FreshOrder (init engineID) p.engine) .refl
    fun p l p' _ hi hok hs => ?_
  exact hi.next hok (step_of_watched hs)

/-- Both kinds of steps at once. -/
theorem Told.step (hr : Lts.Reach (step cfg) FreshOrder (init engineID) p.engine)
    (h : watchedStep cfg l p = some p') {a : String} : (Told p a → Told p' a) ∧
      (p.engine.core.view a = newOrderBook → Told p' a ∨ p'.engine.core.view a = newOrderBook) := by
  have hser := (reach_serial hr).2
  obtain ⟨s, hstep, rfl⟩ := Option.map_eq_some_iff.mp h
  rw [watch_engine]
  rcases marked_of_stepped hser (stepped_of_step (reach_reserve hr) hstep) with
    ⟨symbol, hdirty, rfl, rfl⟩ | ⟨hl, hm⟩
  · obtain ⟨hself, hothers⟩ := told_flush p symbol
    have hne : symbol ≠ "" := by
      rintro rfl
      exact (reach_cache hr).named hdirty
    have hview : (flushSymbol p.engine symbol).core.view = p.engine.core.view :=
      (getOrderBook_looked hser.ok.toBounded _).view hser.ok
    by_cases ha : a = symbol
    · subst ha
      exact ⟨fun _ => hself, fun _ => .inl hself⟩
    · exact ⟨hothers a ha, fun hempty => .inr (by rw [hview, hempty])⟩
  · rw [watch_other hl]
    refine ⟨told_marked hm, fun hempty => ?_⟩
    by_cases hstale : Stale s a
    · exact .inl (.inl hstale)
    · exact .inr ((hm.view a hstale).trans hempty)

theorem Told.reach (hq : Lts.Reach (watchedStep cfg) FreshSent (Watched.init engineID) q)
    (hp : Lts.Reach (watchedStep cfg) FreshSent q p) (h : Told q symbol) : Told p symbol :=
  hp.invariant (fun r => Told r symbol) h fun _ _ _ hr hi _ hs =>
    (Told.step (reach_watched (hq.trans hr)) hs).1 hi

theorem reach_told (h : Lts.Reach (watchedStep cfg) FreshSent (Watched.init engineID) p)
    (symbol : String) : Told p symbol ∨ p.engine.core.view symbol = newOrderBook := by
  refine h.invariant (fun r => Told r symbol ∨ r.engine.core.view symbol = newOrderBook) (.inr rfl)
    fun r l r' hr hi _ hs => ?_
  obtain ⟨htold, hempty⟩ := Told.step (reach_watched hr) hs
  exact hi.elim (fun h => .inl (htold h)) hempty

theorem reach_suffix (h : Lts.Reach (watchedStep cfg) FreshSent (Watched.init engineID) p) :
    p.engine.snapshotCh <:+ p.sent := by
  refine h.invariant (fun r => r.engine.snapshotCh <:+ r.sent) List.nil_suffix
    fun r l r' hr hi _ hs => ?_
  have hr' := reach_watched hr
  obtain ⟨s, hstep, rfl⟩ := Option.map_eq_some_iff.mp hs
  rw [watch_engine]
  exact suffix_sent (marked_of_stepped (reach_serial hr').2
    (stepped_of_step (reach_reserve hr') hstep)) hi

end GoExchange.Engine
