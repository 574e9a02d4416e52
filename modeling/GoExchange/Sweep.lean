import GoExchange.Matching

/-!
# Sweeps

What a run of rounds does to the resting orders, read as one list in priority
order. Each maker but the last is used up; a maker that is only partly filled
ends the sweep, because the taker has nothing left to spend. A resting order
the sweep has not touched can be removed before the sweep as well as after it.
-/
namespace GoExchange.Matching

open Buckets

/-- The resting orders a taker may trade with. -/
def MatchKind.candidate (k : MatchKind) (o m : Order) : Bool :=
  k.accepts o m.price && !isSelfTrade o m

/-- The taker is filled, or is a market order that no candidate at a price not better than `p`
can trade with any more. -/
def MatchKind.SpentAt (k : MatchKind) (o : Order) (p : Decimal) : Prop :=
  k.active o = false ∨ o.orderType = .market ∧
    ∀ q m, 0 < q → k.half.before q p = false → ∃ qty, k.quantity o q m = some qty ∧ qty ≤ 0

/-- The part of an order that no execution changes. -/
def Order.fixed (o : Order) : Nat × Nat × String × OrderSide × OrderType × Decimal :=
  (o.id, o.userID, o.coinSymbol, o.side, o.orderType, o.price)

/-- What the four loops have in common. -/
structure MatchKind.Lawful (k : MatchKind) : Prop where
  accepts_mono : ∀ o p q, k.half.before p q = true → k.accepts o q = true → k.accepts o p = true
  accepts_fixed : ∀ o o', o.fixed = o'.fixed → k.accepts o = k.accepts o'
  fill_fixed : ∀ o p qty, (k.fill o p qty).fixed = o.fixed
  quantity_some : ∀ o p m, 0 < p → ∃ qty, k.quantity o p m = some qty
  -- a maker that is not used up took all the taker had
  spent : ∀ o p m qty, kindOf o = some k → 0 < p → k.active o = true → k.quantity o p m = some qty →
    0 < qty → qty < m.amount → k.SpentAt (k.fill o p qty) p

variable {m o : Order} {qty : Decimal}

theorem quantity_minAmount_lt {p : Decimal} (h : minAmount o p m = some qty)
    (hlt : qty < m.amount) : qty = o.amount := by
  cases h
  rw [min_lt_iff, or_iff_left (lt_irrefl _)] at hlt
  exact min_eq_left hlt.le

theorem matchBuy_lawful : matchBuy.Lawful where
  accepts_mono o p q hpq hq := by
    simp only [matchBuy, Half.before, decide_eq_true_eq, Bool.not_eq_true', decide_eq_false_iff_not,
      not_lt] at hpq hq ⊢
    exact hpq.le.trans hq
  accepts_fixed o o' h := by
    simp only [Order.fixed, Prod.mk.injEq] at h
    simp [matchBuy, h]
  fill_fixed o p qty := rfl
  quantity_some o p m _ := ⟨_, rfl⟩
  spent o p m qty _ _ _ hqty _ hlt := .inl
    (by simpa [matchBuy] using (quantity_minAmount_lt (p := p) hqty hlt).ge)

theorem matchSell_lawful : matchSell.Lawful where
  accepts_mono o p q hpq hq := by
    simp only [matchSell, Half.before, decide_eq_true_eq, Bool.not_eq_true',
      decide_eq_false_iff_not, not_lt] at hpq hq ⊢
    exact hq.trans hpq.le
  accepts_fixed o o' h := by
    simp only [Order.fixed, Prod.mk.injEq] at h
    simp [matchSell, h]
  fill_fixed o p qty := rfl
  quantity_some o p m _ := ⟨_, rfl⟩
  spent o p m qty _ _ _ hqty _ hlt := .inl
    (by simpa [matchSell] using (quantity_minAmount_lt (p := p) hqty hlt).ge)

theorem matchMarketSell_lawful : matchMarketSell.Lawful where
  accepts_mono _ _ _ _ _ := rfl
  accepts_fixed _ _ _ := rfl
  fill_fixed o p qty := rfl
  quantity_some o p m _ := ⟨_, rfl⟩
  spent o p m qty _ _ _ hqty _ hlt := .inl
    (by simpa [matchMarketSell] using (quantity_minAmount_lt (p := p) hqty hlt).ge)

/-- The dust a market buy is left with does not pay for one unit in the last place at the same
or a higher price. -/
theorem dust_buys_nothing {quote p q : Decimal} (hquote : 0 ≤ quote) (hp : 0 < p) (hpq : p ≤ q) :
    Rounding.truncate divisionPrecision
      ((quote - p * Rounding.truncate divisionPrecision (quote / p)) / q) ≤ 0 := by
  have hq : 0 < q := hp.trans_le hpq
  have hdiv : 0 ≤ quote / p := div_nonneg hquote hp.le
  have hle : p * Rounding.truncate divisionPrecision (quote / p) ≤ quote := by
    have := Rounding.truncate_le (d := divisionPrecision) hdiv
    rwa [le_div_iff₀ hp, mul_comm] at this
  have hlt : quote - p * Rounding.truncate divisionPrecision (quote / p) <
      p * Rounding.ulp divisionPrecision := by
    have := Rounding.lt_truncate_add_ulp (d := divisionPrecision) hdiv
    rw [div_lt_iff₀ hp] at this
    linarith
  by_contra hpos
  rw [not_le, Rounding.truncate_pos_iff (div_nonneg (sub_nonneg.mpr hle) hq.le), le_div_iff₀ hq]
    at hpos
  have := mul_le_mul_of_nonneg_left hpq (Rounding.ulp_pos divisionPrecision).le
  linarith

theorem orderType_of_matchMarketBuy (h : kindOf o = some matchMarketBuy) :
    o.orderType = .market := by
  have hne : ∀ k ∈ [matchBuy, matchSell, matchMarketSell], k ≠ matchMarketBuy := by
    intro k hk he
    have hacc :=
      congrArg (fun k => (k.half, k.accepts ⟨0, 0, 0, 0, "", .buy, 0, 0, .limit, 0⟩ 1)) he
    simp only [List.mem_cons, List.not_mem_nil, or_false] at hk
    rcases hk with rfl | rfl | rfl <;> simp [matchBuy, matchSell, matchMarketSell, matchMarketBuy]
      at hacc
  by_contra hmarket
  unfold kindOf at h
  split at h
  · simp only [if_neg hmarket, Option.some.injEq] at h
    exact hne _ (by simp) h
  · simp only [if_neg hmarket, Option.some.injEq] at h
    exact hne _ (by simp) h
  · cases h

theorem matchMarketBuy_lawful : matchMarketBuy.Lawful where
  accepts_mono _ _ _ _ _ := rfl
  accepts_fixed _ _ _ := rfl
  fill_fixed o p qty := rfl
  quantity_some o p m hp := ⟨_, by simp [matchMarketBuy, Decimal.quoRem, hp.ne']; rfl⟩
  spent o p m qty hkind hp hact hqty _ hlt := by
    have hmarket := orderType_of_matchMarketBuy hkind
    simp only [matchMarketBuy, Decimal.quoRem, hp.ne', if_false, Option.map_some, Option.some.injEq,
      decide_eq_true_eq] at hqty hact
    subst hqty
    rw [min_lt_iff, or_iff_left (lt_irrefl _)] at hlt
    refine .inr ⟨hmarket, fun q m' hq hbefore => ?_⟩
    have hpq : p ≤ q := by simpa [matchMarketBuy, Half.before] using hbefore
    simp only [matchMarketBuy, Decimal.quoRem, hq.ne', if_false, Option.map_some, Option.some.injEq,
      exists_eq_left', min_eq_left hlt.le]
    exact (min_le_left _ _).trans (dust_buys_nothing hact.le hp hpq)

/-- Which loop takes which order. -/
inductive Takes (o : Order) : MatchKind → Prop
  | marketBuy : o.side = .buy → o.orderType = .market → Takes o matchMarketBuy
  | buy : o.side = .buy → o.orderType ≠ .market → Takes o matchBuy
  | marketSell : o.side = .sell → o.orderType = .market → Takes o matchMarketSell
  | sell : o.side = .sell → o.orderType ≠ .market → Takes o matchSell

theorem takes_of_kindOf {k : MatchKind} (h : kindOf o = some k) : Takes o k := by
  cases hs : o.side with
  | buy =>
    simp only [kindOf, hs, Option.some.injEq] at h
    split at h <;> subst h
    · exact .marketBuy hs ‹_›
    · exact .buy hs ‹_›
  | sell =>
    simp only [kindOf, hs, Option.some.injEq] at h
    split at h <;> subst h
    · exact .marketSell hs ‹_›
    · exact .sell hs ‹_›
  | unknown => simp [kindOf, hs] at h

theorem lawful_of_kindOf {k : MatchKind} (h : kindOf o = some k) : k.Lawful := by
  cases takes_of_kindOf h with
  | marketBuy => exact matchMarketBuy_lawful
  | buy => exact matchBuy_lawful
  | marketSell => exact matchMarketSell_lawful
  | sell => exact matchSell_lawful

/-! ## One round in the flat list -/

theorem reduce_fixed {m' : Order} (h : reduce qty m = some m') : m'.fixed = m.fixed := by
  simp only [reduce, Option.ite_none_right_eq_some, Option.some.injEq] at h
  rw [← h.2]
  rfl

/-- A round that trades: the first candidate in priority order is filled, the other half stays. -/
structure TradeRound (k : MatchKind) (b : OrderBook) (o : Order) (c : OrderBook)
    (p : Order) (f : Fill) (m : Order) (qty : Decimal) : Prop where
  found : (b.resting k.half).find? (k.candidate o) = some m
  quantity : k.quantity o m.price m = some qty
  positive : 0 < qty
  taker : p = k.fill o m.price qty
  fill : f = ⟨m.id, m.price, qty⟩
  wf : c.Wf
  resting : ∀ h, c.resting h =
    if h = k.half then modifyFirst (k.candidate o) (reduce qty) (b.resting h) else b.resting h

variable {k : MatchKind} {b c d : OrderBook} {o p : Order} {f : Fill} {fs : List Fill}

theorem best_eq_find? (hk : k.Lawful) (hb : b.Wf) (o : Order) :
    (k.best b o).map Prod.snd = (b.resting k.half).find? (k.candidate o) :=
  best_map_snd (hb k.half) (hk.accepts_mono o) _

theorem best_price (hb : b.Wf) {level : PriceLevel} (h : k.best b o = some (level, m)) :
    m.price = level.key := by
  obtain ⟨hl, hf, -⟩ := best_mem h
  exact (hb k.half).keyed level hl m (List.mem_of_find?_eq_some hf)

theorem round_trade (hk : k.Lawful) (hb : b.Wf) (h : k.round b o = .trade c p f) :
    ∃ m qty, TradeRound k b o c p f m qty := by
  obtain ⟨level, m, qty, hbest, hqty, hpos, htaker, hfill, rfl⟩ := MatchKind.round_eq_trade h
  have hprice := best_price hb hbest
  rw [← hprice] at hqty htaker hfill
  refine ⟨m, qty, ?_, hqty, hpos, htaker, hfill, ?_, ?_⟩
  · rw [← best_eq_find? hk hb, hbest]
    rfl
  · refine OrderBook.setHalf_wf hb (update_wf (hb _) (fun l hl x hx => ?_) _)
    rcases mem_modifyFirst hx with hx | ⟨y, hy, -, hr⟩
    · exact (hb _).keyed l hl x hx
    · have := reduce_fixed hr
      simp only [Order.fixed, Prod.mk.injEq] at this
      rw [this.2.2.2.2.2]
      exact (hb _).keyed l hl y hy
  · intro h'
    unfold OrderBook.resting
    split <;> rename_i he
    · rw [he, OrderBook.half_setHalf]
      exact flatten_update_best (OrderBook.before_strict _) (hb _) hbest _
    · rw [OrderBook.half_setHalf_ne b he]

/-- The flat list decides the round. -/
theorem round_of_tradeRound (hk : k.Lawful) (hb : b.Wf)
    (h : TradeRound k b o c p f m qty) : k.round b o = .trade c p f := by
  have hfound := h.found
  rw [← best_eq_find? hk hb, Option.map_eq_some_iff] at hfound
  obtain ⟨⟨level, m'⟩, hbest, rfl⟩ := hfound
  have hprice := best_price hb hbest
  have hround : ∃ c' p' f', k.round b o = .trade c' p' f' := by
    have hqty := h.quantity
    rw [hprice] at hqty
    simp only [MatchKind.round, hbest, hqty, if_pos h.positive]
    exact ⟨_, _, _, rfl⟩
  obtain ⟨c', p', f', hround⟩ := hround
  obtain ⟨m'', qty', h'⟩ := round_trade hk hb hround
  cases h.found.symm.trans h'.found
  cases h.quantity.symm.trans h'.quantity
  have hc : c' = c := OrderBook.ext_resting h'.wf h.wf fun h₀ => by rw [h'.resting, h.resting]
  rw [hround, hc, h'.taker, h'.fill, h.taker, h.fill]

/-! ## Runs of rounds in the flat list -/

/-- A well-formed book whose orders have distinct ids and positive prices. -/
structure OrderBook.Sound (b : OrderBook) : Prop where
  wf : b.Wf
  ids : ∀ h, ((b.resting h).map Order.id).Nodup
  prices : ∀ h, ∀ m ∈ b.resting h, 0 < m.price

/-- The resting orders of `c` are those of `b`, some of them gone and some partly filled. -/
def OrderBook.Consumed (b c : OrderBook) : Prop :=
  ∀ h, ((c.resting h).map Order.fixed).Sublist ((b.resting h).map Order.fixed)

theorem OrderBook.Consumed.trans (h : b.Consumed c) (h' : c.Consumed d) : b.Consumed d :=
  fun half => (h' half).trans (h half)

theorem OrderBook.Consumed.exists_mem (h : b.Consumed c) {half : Half} (hm : m ∈ c.resting half) :
    ∃ m' ∈ b.resting half, m'.fixed = m.fixed :=
  List.mem_map.mp ((h half).subset (List.mem_map_of_mem hm))

theorem OrderBook.Consumed.sound (h : b.Consumed c) (hb : b.Sound) (hc : c.Wf) : c.Sound where
  wf := hc
  ids half := by
    have := (h half).map Prod.fst
    rw [List.map_map, List.map_map] at this
    exact (hb.ids half).sublist this
  prices half m hm := by
    obtain ⟨m', hm', hfix⟩ := h.exists_mem hm
    simp only [Order.fixed, Prod.mk.injEq] at hfix
    exact hfix.2.2.2.2.2 ▸ hb.prices half m' hm'

theorem TradeRound.consumed (h : TradeRound k b o c p f m qty) : b.Consumed c := by
  intro half
  rw [h.resting]
  split
  · exact map_modifyFirst_sublist fun _ _ => reduce_fixed
  · exact .refl _

/-- The taker is filled, or is a market order that nothing it may trade with leaves a positive
quantity for. -/
def MatchKind.Exhausted (k : MatchKind) (b : OrderBook) (o : Order) : Prop :=
  k.active o = false ∨ o.orderType = .market ∧
    ∀ m ∈ b.resting k.half, k.candidate o m = true →
      ∃ qty, k.quantity o m.price m = some qty ∧ qty ≤ 0

theorem candidate_fixed (hk : k.Lawful) {o' : Order} (h : o.fixed = o'.fixed) :
    k.candidate o = k.candidate o' := by
  funext m
  have huser : o.userID = o'.userID := by
    simp only [Order.fixed, Prod.mk.injEq] at h
    exact h.2.1
  simp only [MatchKind.candidate, isSelfTrade, hk.accepts_fixed o o' h, huser]

theorem MatchKind.Exhausted.not_trade (hk : k.Lawful) (hb : b.Wf) (he : k.Exhausted b o)
    (hact : k.active o = true) : k.round b o ≠ .trade c p f := by
  intro h
  obtain ⟨m, qty, hround⟩ := round_trade hk hb h
  rcases he with he | he
  · rw [hact] at he
    cases he
  · obtain ⟨qty', hqty', hle⟩ :=
      he.2 m (List.mem_of_find?_eq_some hround.found) (List.find?_some hround.found)
    cases hround.quantity.symm.trans hqty'
    exact absurd hround.positive hle.not_gt

/-- A maker that stays in the book exhausts the taker. -/
theorem TradeRound.exhausted (hkind : kindOf o = some k) (hb : b.Sound) (hact : k.active o = true)
    {m' : Order} (h : TradeRound k b o c p f m qty) (hm : reduce qty m = some m') :
    k.Exhausted c p := by
  have hk := lawful_of_kindOf hkind
  have hmem := List.mem_of_find?_eq_some h.found
  have hprice := hb.prices _ m hmem
  have hlt : qty < m.amount := by
    simp only [reduce, Option.ite_none_right_eq_some] at hm
    exact sub_pos.mp hm.1
  have hspent := hk.spent o m.price m qty hkind hprice hact h.quantity h.positive hlt
  rw [← h.taker] at hspent
  have hcand : k.candidate p = k.candidate o :=
    candidate_fixed hk (h.taker ▸ hk.fill_fixed o m.price qty)
  refine hspent.imp_right fun ⟨hmarket, hnone⟩ => ⟨hmarket, fun x hx hxc => ?_⟩
  refine hnone x.price x ((h.consumed.sound hb h.wf).prices _ x hx) ?_
  -- every candidate stands at or behind the place of the maker
  obtain ⟨l₁, l₂, hsplit, hskip, hmod⟩ := modifyFirst_of_find? (f := reduce qty) h.found
  have hsorted := (hb.wf k.half).flatten_sorted (OrderBook.before_strict _)
  change (b.resting k.half).Pairwise _ at hsorted
  rw [hsplit, List.pairwise_append] at hsorted
  rw [h.resting, if_pos rfl, hmod, hm, Option.toList_some, List.append_assoc, List.singleton_append,
    List.mem_append, List.mem_cons] at hx
  rcases hx with hx | rfl | hx
  · rw [hcand, hskip x hx] at hxc
    cases hxc
  · have hfix := reduce_fixed hm
    simp only [Order.fixed, Prod.mk.injEq] at hfix
    rw [hfix.2.2.2.2.2]
    exact (OrderBook.before_strict _).irrefl _
  · exact (List.pairwise_cons.mp hsorted.2.1).1 x hx

/-- The taker keeps its identity and the book only loses. -/
theorem Rounds.consumed (hk : k.Lawful) (hb : b.Wf) (h : Rounds k b o c p fs) :
    c.Wf ∧ b.Consumed c ∧ p.fixed = o.fixed := by
  induction h with
  | refl => exact ⟨hb, fun _ => .refl _, rfl⟩
  | next _ _ hround ih =>
    obtain ⟨hwf, hcons, hfix⟩ := ih
    obtain ⟨m, qty, hr⟩ := round_trade hk hwf hround
    exact ⟨hr.wf, hcons.trans hr.consumed, by rw [hr.taker, hk.fill_fixed, hfix]⟩

theorem Rounds.sound (hk : k.Lawful) (hb : b.Sound) (h : Rounds k b o c p fs) : c.Sound := by
  obtain ⟨hwf, hcons, -⟩ := h.consumed hk hb.wf
  exact hcons.sound hb hwf

theorem kindOf_fixed {o' : Order} (h : o'.fixed = o.fixed) : kindOf o' = kindOf o := by
  simp only [Order.fixed, Prod.mk.injEq] at h
  simp [kindOf, h]

theorem Rounds.kindOf (hkind : kindOf o = some k) (hb : b.Wf) (h : Rounds k b o c p fs) :
    Matching.kindOf p = some k := by
  rw [kindOf_fixed (h.consumed (lawful_of_kindOf hkind) hb).2.2, hkind]

/-- Either every maker so far is used up, or the taker is exhausted. -/
theorem Rounds.progress (hkind : Matching.kindOf o = some k) (hb : b.Sound)
    (h : Rounds k b o c p fs) : (c.resting k.half).length + fs.length = (b.resting k.half).length ∧
        (∀ f ∈ fs, f.makerID ∉ (c.resting k.half).map Order.id) ∨
      k.Exhausted c p ∧ fs.length ≤ (b.resting k.half).length := by
  have hk := lawful_of_kindOf hkind
  induction h with
  | refl => exact .inl ⟨rfl, by simp⟩
  | @next c d p q fs f hrun hact hround ih =>
    have hc := hrun.sound hk hb
    obtain ⟨m, qty, hr⟩ := round_trade hk hc.wf hround
    rcases ih with ⟨hlen, hgone⟩ | ⟨hex, -⟩
    · obtain ⟨l₁, l₂, hsplit, -, hmod⟩ := modifyFirst_of_find? (f := reduce qty) hr.found
      have hrest := hr.resting k.half
      rw [if_pos rfl, hmod] at hrest
      cases hm : reduce qty m with
      | none =>
        rw [hm, Option.toList_none, List.append_nil] at hrest
        have hids := hc.ids k.half
        rw [hsplit, List.map_append, List.map_cons] at hids
        refine .inl ⟨?_, fun g hg => ?_⟩
        · rw [hsplit] at hlen
          simp only [hrest, List.length_append, List.length_cons, List.length_nil] at hlen ⊢
          omega
        · rw [hrest, List.map_append]
          rcases List.mem_append.mp hg with hg | hg
          · have := hgone g hg
            rw [hsplit] at this
            simp only [List.map_append, List.map_cons, List.mem_append, List.mem_cons, not_or]
              at this ⊢
            exact ⟨this.1, this.2.2⟩
          · rw [List.mem_singleton.mp hg, hr.fill]
            exact (List.nodup_middle.mp hids).notMem
      | some m' =>
        refine .inr ⟨hr.exhausted (hrun.kindOf hkind hb.wf) hc hact hm, ?_⟩
        rw [hsplit] at hlen
        simp only [List.length_append, List.length_cons, List.length_nil] at hlen ⊢
        omega
    · exact absurd hround (hex.not_trade hk hc.wf hact)

theorem Rounds.length_le (hkind : Matching.kindOf o = some k) (hb : b.Sound)
    (h : Rounds k b o c p fs) : fs.length ≤ (b.resting k.half).length := by
  rcases h.progress hkind hb with ⟨hlen, -⟩ | ⟨-, hle⟩
  · omega
  · exact hle

/-- A maker that was filled and still rests is the last one. -/
theorem Rounds.exhausted_of_touched (hkind : Matching.kindOf o = some k) (hb : b.Sound)
    (h : Rounds k b o c p fs) {id : Nat}
    (hid : id ∈ fs.map Fill.makerID) (hrest : id ∈ (c.resting k.half).map Order.id) :
    k.Exhausted c p := by
  obtain ⟨f, hf, rfl⟩ := List.mem_map.mp hid
  rcases h.progress hkind hb with ⟨-, hgone⟩ | ⟨hex, -⟩
  · exact absurd hrest (hgone f hf)
  · exact hex

theorem Rounds.head_cases (h : Rounds k b o c p fs) :
    (c = b ∧ p = o ∧ fs = []) ∨
      ∃ b' o' f gs, k.active o = true ∧ k.round b o = .trade b' o' f ∧ Rounds k b' o' c p gs ∧
      fs = f :: gs := by
  induction h with
  | refl => exact .inl ⟨rfl, rfl, rfl⟩
  | @next c d p q fs f hrun hact hround ih =>
    rcases ih with ⟨rfl, rfl, rfl⟩ | ⟨b', o', g, gs, ha, hr, hrest, rfl⟩
    · exact .inr ⟨d, q, f, [], hact, hround, .refl, rfl⟩
    · exact .inr ⟨b', o', g, gs ++ [f], ha, hr, hrest.next hact hround, rfl⟩

/-- A run that cannot go on is the run of the loop, if the loop has one more round than it. -/
theorem loop_of_rounds {n : Nat} (h : Rounds k b o c p fs)
    (hend : k.active p = false ∨ k.round c p = .stop)
    (hn : fs.length < n) : k.loop n b o = ⟨c, p, fs, .done⟩ := by
  induction n generalizing b o fs with
  | zero => omega
  | succ n ih =>
    rcases h.head_cases with ⟨rfl, rfl, rfl⟩ | ⟨b', o', f, gs, hact, hround, hrest, rfl⟩
    · rcases hend with hend | hend
      · simp [MatchKind.loop, hend]
      · cases hact : k.active p <;> simp [MatchKind.loop, hact, hend]
    · rw [List.length_cons] at hn
      simp [MatchKind.loop, hact, hround, ih hrest (by omega)]

/-- `Match` without a budget runs the sweep to its end. -/
theorem loop_budget_zero (hkind : kindOf o = some k) (hb : b.Sound) (h : Rounds k b o c p fs)
    (hend : k.active p = false ∨ k.round c p = .stop) :
    k.loop (k.budget b 0) b o = ⟨c, p, fs, .done⟩ := by
  have hlen := h.length_le hkind hb
  exact loop_of_rounds h hend (by simp only [MatchKind.budget, if_true]; omega)

/-- Positive prices keep the division from panicking. -/
theorem round_ne_panic (hk : k.Lawful) (hb : b.Wf) (hprices : ∀ m ∈ b.resting k.half, 0 < m.price) :
    k.round b o ≠ .panic := by
  intro h
  unfold MatchKind.round at h
  split at h
  · cases h
  · rename_i level m hbest
    have hm : m ∈ b.resting k.half := by
      refine List.mem_of_find?_eq_some (p := k.candidate o) ?_
      rw [← best_eq_find? hk hb, hbest]
      rfl
    obtain ⟨qty, hqty⟩ := hk.quantity_some o m.price m (hprices m hm)
    rw [best_price hb hbest] at hqty
    rw [hqty] at h
    simp only at h
    split at h <;> cases h

/-- Every sweep comes to its end. -/
theorem exists_end (hkind : kindOf o = some k) (hb : b.Sound) :
    ∃ c p fs, Rounds k b o c p fs ∧ (k.active p = false ∨ k.round c p = .stop) := by
  obtain ⟨hrun, hend, -, hyield⟩ := k.loop_spec ((b.resting k.half).length + 1) b o
  have hlen := hrun.length_le hkind hb
  refine ⟨_, _, _, hrun, ?_⟩
  cases hout : (k.loop ((b.resting k.half).length + 1) b o).outcome with
  | done =>
    rw [hout] at hend
    exact hend
  | yield =>
    have := hyield hout
    omega
  | panic =>
    rw [hout] at hend
    have hk := lawful_of_kindOf hkind
    have hc := hrun.sound hk hb
    exact absurd hend.2 (round_ne_panic hk hc.wf (hc.prices _))

theorem MatchKind.Exhausted.round_stop (hk : k.Lawful) (hb : b.Sound) (he : k.Exhausted b o)
    (hact : k.active o = true) : k.round b o = .stop := by
  cases h : k.round b o with
  | stop => rfl
  | panic => exact absurd h (round_ne_panic hk hb.wf (hb.prices _))
  | trade c p f => exact absurd h (he.not_trade hk hb.wf hact)

/-! ## Cancels between rounds -/

/-- The order rests at the side and price a cancel names. -/
def OrderBook.Holds (b : OrderBook) (side : OrderSide) (price : Decimal) (id : Nat) : Prop :=
  (b.resting (halfOf side)).any (OrderBook.names price id) = true

variable {side : OrderSide} {price : Decimal} {id : Nat}

theorem OrderBook.Consumed.holds (h : b.Consumed c) (hc : c.Holds side price id) :
    b.Holds side price id := by
  obtain ⟨m, hm, hname⟩ := List.any_eq_true.mp hc
  obtain ⟨m', hm', hfix⟩ := h.exists_mem hm
  refine List.any_eq_true.mpr ⟨m', hm', ?_⟩
  simp only [Order.fixed, Prod.mk.injEq] at hfix
  simpa [names, hfix] using hname

/-- The orders of a half that a cancel leaves alone. -/
def spared (side : OrderSide) (id : Nat) (h : Half) (m : Order) : Bool :=
  !(h == halfOf side && m.id == id)

/-- Ids are distinct, so a cancel takes out all there is under the id. -/
theorem OrderBook.Sound.resting_without (hb : b.Sound) (hx : b.Holds side price id) (h : Half) :
    (b.without side price id).resting h = (b.resting h).filter (spared side id h) := by
  rw [OrderBook.resting_without hb.wf]
  split <;> rename_i he
  · subst he
    obtain ⟨m, hm, hname⟩ := List.any_eq_true.mp hx
    have hsome : ((b.resting (halfOf side)).find? (OrderBook.names price id)).isSome :=
      List.find?_isSome.mpr ⟨m, hm, hname⟩
    obtain ⟨x, hx⟩ := Option.isSome_iff_exists.mp hsome
    have hxid : x.id = id := by
      have := List.find?_some hx
      simp only [OrderBook.names, Bool.and_eq_true, beq_iff_eq] at this
      exact this.2
    obtain ⟨l₁, l₂, hsplit, -, hmod⟩ := modifyFirst_of_find? (f := fun _ => none) hx
    have hids := hb.ids (halfOf side)
    rw [hsplit, List.map_append, List.map_cons, hxid] at hids
    have hnot := (List.nodup_middle.mp hids).notMem
    have hkeep : ∀ l : List Order, id ∉ l.map Order.id →
        l.filter (spared side id (halfOf side)) = l := by
      intro l hl
      refine List.filter_eq_self.mpr fun y hy => ?_
      have : y.id ≠ id := fun he => hl (he ▸ List.mem_map_of_mem hy)
      simp [spared, this]
    rw [List.mem_append, not_or] at hnot
    rw [hmod, hsplit, List.filter_append, List.filter_cons_of_neg (by simp [spared, hxid]),
      hkeep l₁ hnot.1, hkeep l₂ hnot.2]
    simp
  · exact (List.filter_eq_self.mpr fun y _ => by simp [spared, he]).symm

theorem OrderBook.Sound.consumed_without (hb : b.Sound) (hx : b.Holds side price id) :
    b.Consumed (b.without side price id) := by
  intro h
  rw [hb.resting_without hx]
  exact List.filter_sublist.map _

theorem OrderBook.Sound.without (hb : b.Sound) (hx : b.Holds side price id) :
    (b.without side price id).Sound :=
  (hb.consumed_without hx).sound hb (OrderBook.without_wf hb.wf side price id)

theorem MatchKind.Exhausted.without (he : k.Exhausted b o) (hb : b.Sound)
    (hx : b.Holds side price id) : k.Exhausted (b.without side price id) o := by
  refine he.imp_right fun he => ⟨he.1, fun m hm => he.2 m ?_⟩
  rw [hb.resting_without hx] at hm
  exact List.mem_of_mem_filter hm

/-- Removing an order that is not the maker commutes with a round. -/
theorem TradeRound.without (hb : b.Sound) (h : TradeRound k b o c p f m qty)
    (hx : c.Holds side price id) (hm : spared side id k.half m = true) :
    TradeRound k (b.without side price id) o (c.without side price id) p f m qty := by
  have hbx := h.consumed.holds hx
  have hc := h.consumed.sound hb h.wf
  have hreduce : ∀ m', reduce qty m = some m' → spared side id k.half m' = true := by
    intro m' hm'
    have hfix := reduce_fixed hm'
    simp only [Order.fixed, Prod.mk.injEq] at hfix
    simpa [spared, hfix.1] using hm
  obtain ⟨hfind, hmod⟩ := filter_modifyFirst h.found hm hreduce
  refine ⟨?_, h.quantity, h.positive, h.taker, h.fill, OrderBook.without_wf h.wf side price id,
    fun h' => ?_⟩
  · rw [hb.resting_without hbx]
    exact hfind
  · rw [hc.resting_without hx, hb.resting_without hbx, h.resting]
    split
    · rename_i he
      rw [he]
      exact hmod.symm
    · rfl

/-- An order that no execution of the sweep touched can be removed before the sweep. -/
theorem Rounds.without (hk : k.Lawful) (hb : b.Sound) (h : Rounds k b o c p fs)
    (hx : c.Holds side price id) (hun : halfOf side = k.half → id ∉ fs.map Fill.makerID) :
    Rounds k (b.without side price id) o (c.without side price id) p fs := by
  induction h with
  | refl => exact .refl
  | @next c d p q fs f hrun hact hround ih =>
    have hc := hrun.sound hk hb
    obtain ⟨m, qty, hr⟩ := round_trade hk hc.wf hround
    have hcx := hr.consumed.holds hx
    have hspared : spared side id k.half m = true := by
      by_cases he : halfOf side = k.half
      · have := hun he
        rw [List.map_append, List.mem_append, not_or, hr.fill] at this
        have hne : m.id ≠ id := fun h => this.2 (by simp [h])
        simp [spared, hne]
      · simp [spared, Ne.symm he]
    have hstep := round_of_tradeRound hk (OrderBook.without_wf hc.wf side price id)
      (hr.without hc hx hspared)
    exact (ih hcx fun he h => hun he (by simp [h])).next hact hstep

end GoExchange.Matching
