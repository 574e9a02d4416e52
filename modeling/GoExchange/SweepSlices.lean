import GoExchange.Sweep

/-!
# The slices of a sweep

`runSlice` calls `matchSlice` with the same budget until it is done. Here
nothing comes between two slices. A taker that is filled by the last trade of a
full slice is done in that slice; one that still has something left needs one
more slice to find that nothing can be traded.
-/
namespace GoExchange.Matching

open Buckets

/-- `ExpectedSlices`. -/
def expectedSlices (trades maxMatchesPerTurn : Int) : Int :=
  if maxMatchesPerTurn ≤ 0 ∨ trades ≤ maxMatchesPerTurn then 1
  else if trades.tmod maxMatchesPerTurn ≠ 0 then trades.tdiv maxMatchesPerTurn + 1
  else trades.tdiv maxMatchesPerTurn

/-- A finished sweep: the executions slice by slice, and what is left. -/
structure Swept where
  slices : List (List Fill)
  book : OrderBook
  order : Order

/-- Slices until one is done; nothing if `n` are not enough or the loop panics. -/
def sweepInSlices (budget : Nat) : Nat → OrderBook → Order → Option Swept
  | 0, _, _ => none
  | n + 1, book, order =>
    let r := matchSlice book order budget
    match r.outcome with
    | .done => some ⟨[r.fills], r.book, r.order⟩
    | .panic => none
    | .yield => (sweepInSlices budget n r.book r.order).map fun swept =>
        { swept with slices := r.fills :: swept.slices }

/-- The half an order trades with. -/
def oppositeHalf (o : Order) : Half := if o.side = .buy then .asks else .bids

/-- The resting orders of the opposite half that are not the taker's own. -/
def others (b : OrderBook) (o : Order) : List Order :=
  (b.resting (oppositeHalf o)).filter fun m => !isSelfTrade o m

/-- Nothing is left of what the taker trades: its quote amount if it is a market buy, else its
amount. -/
def Order.Spent (o : Order) : Prop :=
  if o.side = .buy ∧ o.orderType = .market then ¬ 0 < o.quoteAmount else ¬ 0 < o.amount

instance (o : Order) : Decidable o.Spent := by unfold Order.Spent; infer_instance

variable {k : MatchKind} {b c d : OrderBook} {o p q : Order} {fs : List Fill} {f : Fill}
  {n budget : Nat}

theorem oppositeHalf_of_kindOf (h : kindOf o = some k) : oppositeHalf o = k.half := by
  unfold kindOf at h
  unfold oppositeHalf
  split at h <;> rename_i hside <;> cases h <;> rw [hside]
  · by_cases hm : o.orderType = .market <;> simp [hm, matchMarketBuy, matchBuy]
  · by_cases hm : o.orderType = .market <;> simp [hm, matchMarketSell, matchSell]

theorem spent_iff_of_kindOf (h : kindOf o = some k) : o.Spent ↔ k.active o = false := by
  unfold kindOf at h
  unfold Order.Spent
  split at h <;> rename_i hside <;> cases h <;> rw [hside]
  · by_cases hm : o.orderType = .market <;> simp [hm, matchMarketBuy, matchBuy]
  · by_cases hm : o.orderType = .market <;> simp [hm, matchMarketSell, matchSell]

theorem isSelfTrade_fixed (h : o.fixed = p.fixed) (m : Order) :
    isSelfTrade o m = isSelfTrade p m := by
  simp only [Order.fixed, Prod.mk.injEq] at h
  simp only [isSelfTrade, h.2.1]

theorem isSelfTrade_reduce {qty : Decimal} {m m' : Order} (h : reduce qty m = some m') :
    isSelfTrade o m' = isSelfTrade o m := by
  have hfix := reduce_fixed h
  simp only [Order.fixed, Prod.mk.injEq] at hfix
  simp only [isSelfTrade, hfix.2.1]

/-! ## How many trades there are -/

/-- A trade takes one of the others out of the book, or it is the taker's last. -/
theorem TradeRound.others {m : Order} {qty : Decimal} (hhalf : oppositeHalf o = k.half)
    (h : TradeRound k b o c p f m qty) :
    (reduce qty m = none ∧ (Matching.others c o).length + 1 = (Matching.others b o).length) ∨
      ((reduce qty m).isSome ∧ (Matching.others c o).length = (Matching.others b o).length ∧
        0 < (Matching.others b o).length) := by
  obtain ⟨l₁, l₂, hsplit, -, hmod⟩ := modifyFirst_of_find? (f := reduce qty) h.found
  have hself : isSelfTrade o m = false := by
    have := List.find?_some h.found
    simp only [MatchKind.candidate, Bool.and_eq_true, Bool.not_eq_true'] at this
    exact this.2
  have hrest := h.resting k.half
  rw [if_pos rfl, hmod] at hrest
  simp only [Matching.others, hhalf, hrest, hsplit]
  cases hm : reduce qty m with
  | none =>
    left
    simp [hself]
    omega
  | some m' =>
    right
    simp [hself, isSelfTrade_reduce hm]

/-- There are at most as many trades as others. -/
theorem Rounds.length_le_others (hkind : Matching.kindOf o = some k) (hb : b.Sound)
    (h : Rounds k b o c p fs) : (others c o).length + fs.length = (others b o).length ∨
      k.Exhausted c p ∧ fs.length ≤ (others b o).length := by
  have hk := lawful_of_kindOf hkind
  induction h with
  | refl => exact .inl rfl
  | @next c d p q fs f hrun hact hround ih =>
    have hc := hrun.sound hk hb
    have hkind' := hrun.kindOf hkind hb.wf
    obtain ⟨m, qty, hr⟩ := round_trade hk hc.wf hround
    have hfix := (hrun.consumed hk hb.wf).2.2
    have hsame : ∀ b, Matching.others b p = Matching.others b o := by
      intro b
      have hside : oppositeHalf p = oppositeHalf o := by
        rw [oppositeHalf_of_kindOf hkind, oppositeHalf_of_kindOf hkind']
      unfold Matching.others
      rw [hside]
      simp only [isSelfTrade_fixed hfix]
    rcases ih with hlen | ⟨hex, -⟩
    · have hcases := hr.others (oppositeHalf_of_kindOf hkind')
      rw [hsame, hsame] at hcases
      rw [List.length_append, List.length_singleton]
      rcases hcases with ⟨-, hone⟩ | ⟨hm, -, hone⟩
      · left
        omega
      · obtain ⟨m', hm⟩ := Option.isSome_iff_exists.mp hm
        exact .inr ⟨hr.exhausted hkind' hc hact hm, by omega⟩
    · exact absurd hround (hex.not_trade hk hc.wf hact)

/-! ## How many slices they take -/

/-- A loop stops in the middle of a run, at its budget. -/
theorem loop_split (h : Rounds k b o c p fs) (hn : n ≤ fs.length) :
    ∃ b' o', Rounds k b o b' o' (fs.take n) ∧ Rounds k b' o' c p (fs.drop n) ∧
      k.loop n b o = ⟨b', o', fs.take n, if k.active o' then .yield else .done⟩ := by
  induction n generalizing b o fs with
  | zero => exact ⟨b, o, .refl, h, rfl⟩
  | succ n ih =>
    rcases h.head_cases with ⟨-, -, rfl⟩ | ⟨b', o', f, gs, hact, hround, hrest, rfl⟩
    · cases hn
    · obtain ⟨b'', o'', hfirst, hrest', hloop⟩ := ih hrest (Nat.le_of_succ_le_succ hn)
      have hone : Rounds k b o b' o' [f] := Rounds.refl.next hact hround
      exact ⟨b'', o'', hone.trans hfirst, hrest', by simp [MatchKind.loop, hact, hround, hloop]⟩

theorem matchSlice_of_kindOf (hkind : kindOf o = some k) (hbudget : 1 ≤ budget) :
    matchSlice b o budget = k.loop budget b o := by
  have hne : budget ≠ 0 := Nat.one_le_iff_ne_zero.mp hbudget
  simp [matchSlice, hkind, MatchKind.budget, hne]

theorem expectedSlices_nat (t : Nat) (hbudget : 1 ≤ budget) :
    expectedSlices t budget =
      ((if t ≤ budget then 1 else if t % budget ≠ 0 then t / budget + 1
        else t / budget : Nat) : Int) := by
  have hpos : ¬ (budget : Int) ≤ 0 := by omega
  unfold expectedSlices
  rw [← Int.ofNat_tmod, ← Int.ofNat_tdiv]
  by_cases ht : t ≤ budget
  · simp [ht]
  · have hlt : ¬ (t : Int) ≤ budget := by omega
    by_cases hm : t % budget = 0
    · simp only [hpos, hlt, ht, hm, or_self, if_false, ne_eq, not_true_eq_false, Nat.cast_zero]
    · have hm' : ((t % budget : Nat) : Int) ≠ 0 := by omega
      simp only [hpos, hlt, ht, hm, hm', or_self, if_false, ne_eq, not_false_eq_true, if_true]
      push_cast
      rfl

/-- A full slice of a taker that ends filled counts for one, if trades are left after it. -/
theorem expectedSlices_of_lt {t : Nat} (hbudget : 1 ≤ budget) (ht : budget < t) :
    expectedSlices t budget = expectedSlices ((t - budget : Nat) : Int) budget + 1 := by
  have hdiv := Nat.div_eq_sub_div hbudget ht.le
  have hmod := Nat.mod_eq_sub_mod ht.le
  rw [expectedSlices_nat t hbudget, expectedSlices_nat (t - budget) hbudget,
    if_neg ht.not_ge, hdiv, hmod]
  by_cases hrest : t - budget ≤ budget
  · rw [if_pos hrest]
    rcases hrest.lt_or_eq with hrest | hrest
    · have hne : t - budget ≠ 0 := by omega
      rw [Nat.mod_eq_of_lt hrest, Nat.div_eq_of_lt hrest, if_pos hne]
      norm_num
    · rw [hrest, Nat.mod_self, Nat.div_self hbudget]
      norm_num
  · rw [if_neg hrest]
    split <;> push_cast <;> ring

/-- What the slices of a sweep look like whose run is `fs` and ends with the taker `p`. -/
structure InSlices (budget : Nat) (filled : Bool) (fs : List Fill) (slices : List (List Fill)) :
    Prop where
  flatten : slices.flatten = fs
  nonempty : slices ≠ []
  full : ∀ slice ∈ slices.dropLast, slice.length = budget
  count : (slices.length : Int) = if filled then expectedSlices fs.length budget
    else fs.length / budget + 1

theorem inSlices_last (hbudget : 1 ≤ budget) {filled : Bool}
    (h : fs.length < budget ∨ fs.length = budget ∧ filled = true) :
    InSlices budget filled fs [fs] where
  flatten := by simp
  nonempty := by simp
  full := by simp
  count := by
    cases filled with
    | true =>
      have hle : fs.length ≤ budget := by rcases h with h | h <;> omega
      rw [if_pos rfl, expectedSlices_nat _ hbudget, if_pos hle]
      rfl
    | false =>
      have hlt : fs.length < budget := h.resolve_right (by simp)
      have hzero : fs.length / budget = 0 := Nat.div_eq_of_lt hlt
      rw [if_neg (by simp), List.length_singleton, ← Int.natCast_ediv, hzero]
      rfl

theorem InSlices.cons (hbudget : 1 ≤ budget) {filled : Bool} {slices : List (List Fill)}
    (h : InSlices budget filled (fs.drop budget) slices)
    (hlong : budget < fs.length ∨ budget = fs.length ∧ filled = false) :
    InSlices budget filled fs (fs.take budget :: slices) where
  flatten := by rw [List.flatten_cons, h.flatten, List.take_append_drop]
  nonempty := by simp
  full slice hslice := by
    rw [List.dropLast_cons_of_ne_nil h.nonempty] at hslice
    rcases List.mem_cons.mp hslice with rfl | hslice
    · rw [List.length_take]
      rcases hlong with hlong | hlong <;> omega
    · exact h.full slice hslice
  count := by
    have hcount := h.count
    rw [List.length_drop] at hcount
    rw [List.length_cons, Nat.cast_add, hcount]
    cases filled with
    | true =>
      have hlt : budget < fs.length := hlong.resolve_right (by simp)
      rw [if_pos rfl, if_pos rfl, expectedSlices_of_lt hbudget hlt]
      rfl
    | false =>
      have hle : budget ≤ fs.length := by rcases hlong with hlong | hlong <;> omega
      have hdiv := Nat.div_eq_sub_div hbudget hle
      rw [if_neg (by simp), if_neg (by simp), ← Int.natCast_ediv, ← Int.natCast_ediv, hdiv]
      push_cast
      ring

/-- The slices of a sweep cut its run into pieces of the budget. -/
theorem sweepInSlices_of_rounds (hkind : kindOf o = some k) (hb : b.Wf) (hbudget : 1 ≤ budget)
    (h : Rounds k b o c p fs) (hend : k.active p = false ∨ k.round c p = .stop) :
    ∃ slices, InSlices budget (!k.active p) fs slices ∧
      ∀ n, slices.length ≤ n → sweepInSlices budget n b o = some ⟨slices, c, p⟩ := by
  -- over the number of trades that are left
  induction hlen : fs.length using Nat.strong_induction_on generalizing b o fs with
  | h t ih =>
  subst hlen
  have hlast : matchSlice b o budget = ⟨c, p, fs, .done⟩ →
      ∀ n, [fs].length ≤ n → sweepInSlices budget n b o = some ⟨[fs], c, p⟩ := by
    intro hslice n hn
    cases n with
    | zero => cases hn
    | succ n => simp [sweepInSlices, hslice]
  rw [matchSlice_of_kindOf hkind hbudget] at hlast
  by_cases hshort : fs.length < budget
  · exact ⟨[fs], inSlices_last hbudget (.inl hshort), hlast (loop_of_rounds h hend hshort)⟩
  · obtain ⟨b', o', hfirst, hrest, hloop⟩ := loop_split h (not_lt.mp hshort)
    cases hact : k.active o' with
    | false =>
      -- the taker is filled, so the run is over
      rcases hrest.head_cases with ⟨rfl, rfl, hnil⟩ | ⟨_, _, _, _, hact', _⟩
      · have hle : fs.length ≤ budget := List.drop_eq_nil_iff.mp hnil
        have htake : fs.take budget = fs := List.take_of_length_le hle
        refine ⟨[fs], inSlices_last hbudget (.inr ⟨by omega, by simp [hact]⟩), hlast ?_⟩
        rw [hloop, htake, hact]
        rfl
      · rw [hact] at hact'
        cases hact'
    | true =>
      have hkind' := hfirst.kindOf hkind hb
      have hwf := (hfirst.consumed (lawful_of_kindOf hkind) hb).1
      have hless : (fs.drop budget).length < fs.length := by
        rw [List.length_drop]
        omega
      obtain ⟨slices, hslices, hsweep⟩ := ih _ hless hkind' hwf hrest rfl
      refine ⟨fs.take budget :: slices, hslices.cons hbudget ?_, fun n hn => ?_⟩
      · rcases (not_lt.mp hshort).lt_or_eq with hlt | heq
        · exact .inl hlt
        · rcases hrest.head_cases with ⟨-, rfl, -⟩ | ⟨_, _, _, gs, _, _, _, hdrop⟩
          · exact .inr ⟨heq, by simp [hact]⟩
          · rw [heq, List.drop_length] at hdrop
            cases hdrop
      · cases n with
        | zero => cases hn
        | succ n =>
          have hrun := hsweep n (Nat.le_of_succ_le_succ hn)
          simp [sweepInSlices, matchSlice_of_kindOf hkind hbudget, hloop, hact, hrun]

/-- A sweep with nothing between its slices comes to an end. It makes at most one trade for each of
the others. If it leaves nothing of the taker it takes as many slices as expected for its trades; if
something is left it takes one more than there are full slices, so only the last slice can be
without a trade. -/
theorem sweepInSlices_count (b : OrderBook) (hb : b.Sound) (o : Order) (budget : Nat)
    (hbudget : 1 ≤ budget) :
    ∃ swept, (∀ n, swept.slices.length ≤ n → sweepInSlices budget n b o = some swept) ∧
      swept.slices.flatten.length ≤ (others b o).length ∧
      (swept.order.Spent → (swept.slices.length : Int) =
        expectedSlices swept.slices.flatten.length budget) ∧
      (¬ swept.order.Spent → swept.slices.length = swept.slices.flatten.length / budget + 1) ∧
      ∀ slice ∈ swept.slices.dropLast, slice ≠ [] := by
  cases hkind : kindOf o with
  | none =>
    -- a side that is neither is done at once
    refine ⟨⟨[[]], b, o⟩, fun n hn => ?_, by simp, fun _ => ?_, by simp, by simp⟩
    · cases n with
      | zero => cases hn
      | succ n => simp [sweepInSlices, matchSlice, hkind]
    · rw [expectedSlices_nat _ hbudget]
      simp
  | some k =>
    obtain ⟨c, p, fs, hrun, hend⟩ := exists_end hkind hb
    obtain ⟨slices, hslices, hsweep⟩ := sweepInSlices_of_rounds hkind hb.wf hbudget hrun hend
    have hspent := spent_iff_of_kindOf (hrun.kindOf hkind hb.wf)
    have hcount := hslices.count
    refine ⟨⟨slices, c, p⟩, hsweep, ?_, fun hp => ?_, fun hp => ?_, fun slice hslice => ?_⟩
    · rw [hslices.flatten]
      rcases hrun.length_le_others hkind hb with hle | ⟨-, hle⟩ <;> omega
    · rwa [hspent.mp hp, Bool.not_false, if_pos rfl, ← hslices.flatten] at hcount
    · rw [Bool.not_eq_false _ |>.mp (hspent.not.mp hp), Bool.not_true, if_neg (by simp),
        ← hslices.flatten] at hcount
      exact_mod_cast hcount
    · have hfull := hslices.full slice hslice
      intro hnil
      rw [hnil, List.length_nil] at hfull
      omega

/-- An ask of one coin at price 1. -/
def oneCoin (id userID : Nat) : Order := ⟨id, userID, 1, 0, "BTC", .sell, 0, 0, .limit, 1⟩

/-- Three asks, the second one of the user who buys below. -/
def threeAsks : OrderBook :=
  ((newOrderBook.addOrder (oneCoin 1 7)).addOrder (oneCoin 2 8)).addOrder (oneCoin 3 7)

theorem threeAsks_sound : threeAsks.Sound where
  wf := OrderBook.addOrder_wf
    (OrderBook.addOrder_wf (OrderBook.addOrder_wf OrderBook.newOrderBook_wf _) _) _
  ids h := by cases h <;> decide +kernel
  prices h := by cases h <;> decide +kernel

/-- A market buy for 5 against them, one trade a slice: two slices with a trade and one without. -/
theorem sweepInSlices_threeAsks :
    ∃ swept, sweepInSlices 1 3 threeAsks ⟨9, 8, 0, 5, "BTC", .buy, 0, 0, .market, 0⟩ = some swept ∧
      ¬ swept.order.Spent ∧ swept.slices.map List.length = [1, 1, 0] ∧
      swept.slices.length = swept.slices.flatten.length / 1 + 1 := by
  obtain ⟨swept, hsweep, hle, hfilled, hleft, -⟩ := sweepInSlices_count threeAsks threeAsks_sound
    ⟨9, 8, 0, 5, "BTC", .buy, 0, 0, .market, 0⟩ 1 (by decide)
  have hothers : (others threeAsks ⟨9, 8, 0, 5, "BTC", .buy, 0, 0, .market, 0⟩).length = 2 := by
    decide +kernel
  have hthree : swept.slices.length ≤ 3 := by
    by_cases hspent : swept.order.Spent
    · have hcount := hfilled hspent
      rw [expectedSlices_nat _ (le_refl 1), Nat.mod_one, Nat.div_one] at hcount
      split at hcount
      · omega
      · rw [if_neg (by simp)] at hcount
        omega
    · have hcount := hleft hspent
      rw [Nat.div_one] at hcount
      omega
  have hrun := hsweep 3 hthree
  have hvalue : (sweepInSlices 1 3 threeAsks ⟨9, 8, 0, 5, "BTC", .buy, 0, 0, .market, 0⟩).map
      (fun s => (decide s.order.Spent, s.slices.map List.length)) = some (false, [1, 1, 0]) := by
    decide +kernel
  rw [hrun] at hvalue
  simp only [Option.map_some, Option.some.injEq, Prod.mk.injEq, decide_eq_false_iff_not] at hvalue
  exact ⟨swept, hrun, hvalue.1, hvalue.2, hleft hvalue.1⟩

end GoExchange.Matching
