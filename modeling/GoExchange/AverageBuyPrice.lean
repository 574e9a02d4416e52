import GoExchange.Settlement

/-!
# The average buy price over many fills

`applyAvgBuyPrice` divides with rounding and stores the result, which the next
fill multiplies with the quantity userTotal before it. Weighed with that quantity
the error of the stored average is carried along unchanged, so every fill adds
half a unit in the last place and no more.
-/
namespace GoExchange.Service

open Ledger Fallible

/-- A buy fill: the quantity bought and what it cost with the fee. -/
structure BuyFill where
  quantity : Decimal
  cost : Decimal
  deriving DecidableEq, Repr

/-- What `user_asset_stats` says of a user's average; none is 0. -/
def avgBuyPrice (s : Store) (userID : Nat) (asset : String) : Decimal :=
  (s.stats.find? fun r => (r.userID, r.asset) = (userID, asset)).elim 0 AssetStat.avgBuyPrice

/-- The fills one after the other, each with the ledger as its postings leave it. -/
def applyBuyFills (userID : Nat) (asset : String) :
    Store → List (BuyFill × Tables) → Except DomainError Store
  | s, [] => .ok s
  | s, (fill, ledger) :: fills => do
    let s ← applyAvgBuyPrice { s with ledger := ledger } userID asset fill.quantity fill.cost
    applyBuyFills userID asset s fills

/-- Only the fills change what the user holds: every ledger has the quantity of its fill more than
the one before. -/
def OnlyBuys (userID : Nat) (asset : String) : Tables → List (BuyFill × Tables) → Prop
  | _, [] => True
  | before, (fill, ledger) :: fills =>
    userTotal ledger userID asset = userTotal before userID asset + fill.quantity ∧
      OnlyBuys userID asset ledger fills

def boughtQuantity (fills : List BuyFill) : Decimal := (fills.map BuyFill.quantity).sum

def boughtCost (fills : List BuyFill) : Decimal := (fills.map BuyFill.cost).sum

variable {s s' : Store} {userID : Nat} {asset : String} {fill : BuyFill}
  {buys buys' : List (BuyFill × Tables)}

/-! ## One fill -/

/-- What is stored for the user is what is read back. -/
theorem avgBuyPrice_stored (s : Store) (userID : Nat) (asset : String) (stats : List AssetStat)
    (avg : Decimal) : avgBuyPrice { s with
      stats := if stats.any fun r => (r.userID, r.asset) = (userID, asset) then
          stats.map fun r => if (r.userID, r.asset) = (userID, asset) then
            { r with avgBuyPrice := avg }
          else r
        else stats ++ [⟨userID, asset, avg⟩] } userID asset = avg := by
  unfold avgBuyPrice
  induction stats with
  | nil => simp
  | cons r rest ih =>
    by_cases hr : (r.userID, r.asset) = (userID, asset)
    · simp only [List.any_cons, hr, decide_true, Bool.true_or, if_true, List.map_cons]
      rw [List.find?_cons_of_pos (by simpa using hr)]
      rfl
    · simp only [List.any_cons, hr, decide_false, Bool.false_or, List.map_cons, if_false] at ih ⊢
      split at ih <;> rename_i hany <;>
        simp only [hany, if_true, if_false, Bool.false_eq_true, List.cons_append]
      all_goals rw [List.find?_cons_of_neg (by simpa using hr)]; exact ih

/-- A fill is accepted, and what it stores is the rounded quotient. -/
theorem applyAvgBuyPrice_avg (hq : 0 < fill.quantity) (hcost : 0 ≤ fill.cost)
    (htotal : fill.quantity ≤ userTotal s.ledger userID asset)
    (havg : 0 ≤ avgBuyPrice s userID asset) :
    ∃ s', applyAvgBuyPrice s userID asset fill.quantity fill.cost = .ok s' ∧ s'.ledger = s.ledger ∧
      avgBuyPrice s' userID asset = Decimal.div (avgBuyPrice s userID asset *
        (userTotal s.ledger userID asset - fill.quantity) + fill.cost)
          (userTotal s.ledger userID asset) := by
  have hpos : 0 < userTotal s.ledger userID asset := hq.trans_le htotal
  have hnew : 0 ≤ Decimal.div (avgBuyPrice s userID asset *
      (userTotal s.ledger userID asset - fill.quantity) + fill.cost)
      (userTotal s.ledger userID asset) :=
    Rounding.roundHalfAway_nonneg
      (div_nonneg (add_nonneg (mul_nonneg havg (sub_nonneg.mpr htotal)) hcost) hpos.le)
  have hstored := avgBuyPrice_stored s userID asset s.stats
    (Decimal.div (avgBuyPrice s userID asset *
      (userTotal s.ledger userID asset - fill.quantity) + fill.cost)
      (userTotal s.ledger userID asset))
  unfold avgBuyPrice at hnew hstored ⊢
  unfold applyAvgBuyPrice
  simp only [not_not.mpr hq, not_not.mpr hpos, not_lt.mpr hnew, if_false]
  split at hstored <;> rename_i hany <;> simp only [hany, if_true, if_false, Bool.false_eq_true]
  all_goals exact ⟨_, rfl, rfl, hstored⟩

/-- One fill is off by at most half a unit, weighed with what the user holds after it. -/
theorem applyAvgBuyPrice_error {ledger : Tables} (hq : 0 < fill.quantity) (hcost : 0 < fill.cost)
    (hheld : 0 ≤ userTotal s.ledger userID asset) (havg : 0 ≤ avgBuyPrice s userID asset)
    (hledger : userTotal ledger userID asset = userTotal s.ledger userID asset + fill.quantity) :
    ∃ s', applyAvgBuyPrice { s with ledger := ledger } userID asset fill.quantity fill.cost =
      .ok s' ∧ s'.ledger = ledger ∧ 0 ≤ avgBuyPrice s' userID asset ∧
      |avgBuyPrice s' userID asset * userTotal ledger userID asset -
          (avgBuyPrice s userID asset * userTotal s.ledger userID asset + fill.cost)| ≤
        Rounding.ulp divisionPrecision / 2 * userTotal ledger userID asset := by
  have htotal : fill.quantity ≤ userTotal ledger userID asset :=
    (le_add_of_nonneg_left hheld).trans_eq hledger.symm
  obtain ⟨s', hs', hsame, hnew⟩ :=
    applyAvgBuyPrice_avg (s := { s with ledger := ledger }) hq hcost.le htotal havg
  have hpos : 0 < userTotal ledger userID asset := hq.trans_le htotal
  have hexact : avgBuyPrice s userID asset * (userTotal ledger userID asset - fill.quantity) +
      fill.cost = avgBuyPrice s userID asset * userTotal s.ledger userID asset + fill.cost := by
    have hbefore : userTotal ledger userID asset - fill.quantity =
        userTotal s.ledger userID asset :=
      sub_eq_of_eq_add hledger
    rw [hbefore]
  have hround := Rounding.abs_roundHalfAway_sub_le divisionPrecision
    ((avgBuyPrice s userID asset * userTotal s.ledger userID asset + fill.cost) /
      userTotal ledger userID asset)
  have hnew : avgBuyPrice s' userID asset = Rounding.roundHalfAway divisionPrecision
      ((avgBuyPrice s userID asset * userTotal s.ledger userID asset + fill.cost) /
        userTotal ledger userID asset) := by
    rw [← hexact]
    exact hnew
  refine ⟨s', hs', hsame, ?_, ?_⟩
  · rw [hnew]
    exact Rounding.roundHalfAway_nonneg
      (div_nonneg (add_nonneg (mul_nonneg havg hheld) hcost.le) hpos.le)
  · rw [← hnew] at hround
    calc |avgBuyPrice s' userID asset * userTotal ledger userID asset -
          (avgBuyPrice s userID asset * userTotal s.ledger userID asset + fill.cost)|
        = |avgBuyPrice s' userID asset -
          (avgBuyPrice s userID asset * userTotal s.ledger userID asset + fill.cost) /
            userTotal ledger userID asset| * userTotal ledger userID asset := by
          rw [← abs_of_pos hpos, ← abs_mul, abs_of_pos hpos, sub_mul, div_mul_cancel₀ _ hpos.ne']
      _ ≤ Rounding.ulp divisionPrecision / 2 * userTotal ledger userID asset :=
          mul_le_mul_of_nonneg_right hround hpos.le

/-! ## All fills -/

/-- Over a run of fills every one adds half a unit, weighed with what the user holds in the end. -/
theorem applyBuyFills_error (hbuys : ∀ b ∈ buys, 0 < b.1.quantity ∧ 0 < b.1.cost)
    (hheld : 0 ≤ userTotal s.ledger userID asset) (havg : 0 ≤ avgBuyPrice s userID asset)
    (honly : OnlyBuys userID asset s.ledger buys) :
    ∃ s', applyBuyFills userID asset s buys = .ok s' ∧
      |avgBuyPrice s' userID asset *
        (userTotal s.ledger userID asset + boughtQuantity (buys.map Prod.fst)) -
          (avgBuyPrice s userID asset * userTotal s.ledger userID asset +
            boughtCost (buys.map Prod.fst))| ≤
        buys.length * (Rounding.ulp divisionPrecision / 2) *
          (userTotal s.ledger userID asset + boughtQuantity (buys.map Prod.fst)) := by
  induction buys generalizing s with
  | nil => exact ⟨s, rfl, by simp [boughtQuantity, boughtCost]⟩
  | cons buy buys ih =>
    obtain ⟨fill, ledger⟩ := buy
    obtain ⟨hledger, honly⟩ := honly
    have hfill := hbuys _ (List.mem_cons_self ..)
    have hrest : ∀ b ∈ buys, 0 < b.1.quantity ∧ 0 < b.1.cost :=
      fun b hb => hbuys b (List.mem_cons_of_mem _ hb)
    obtain ⟨t, ht, rfl, havgt, herror⟩ := applyAvgBuyPrice_error hfill.1 hfill.2 hheld havg hledger
    have hheldt : 0 ≤ userTotal t.ledger userID asset := by
      rw [hledger]
      exact add_nonneg hheld hfill.1.le
    obtain ⟨s', hs', hrun⟩ := ih hrest hheldt havgt honly
    have hquantity : 0 ≤ boughtQuantity (buys.map Prod.fst) := by
      apply List.sum_nonneg
      simp only [List.map_map, List.mem_map, Function.comp_apply]
      rintro _ ⟨b, hb, rfl⟩
      exact (hrest b hb).1.le
    refine ⟨s', ?_, ?_⟩
    · rw [applyBuyFills, ht]
      exact hs'
    · set p := avgBuyPrice s userID asset * userTotal s.ledger userID asset + fill.cost with hp
      set total := userTotal t.ledger userID asset + boughtQuantity (buys.map Prod.fst) with htotal
      have hmore : userTotal s.ledger userID asset + boughtQuantity ((fill :: buys.map Prod.fst)) =
          total := by
        rw [htotal, hledger, boughtQuantity, boughtQuantity, List.map_cons,
          List.sum_cons, add_assoc]
      have hcost : avgBuyPrice s userID asset * userTotal s.ledger userID asset +
          boughtCost (fill :: buys.map Prod.fst) = p + boughtCost (buys.map Prod.fst) := by
        rw [hp, boughtCost, boughtCost, List.map_cons, List.sum_cons, add_assoc]
      have hulp : 0 ≤ Rounding.ulp divisionPrecision / 2 := (half_pos (Rounding.ulp_pos _)).le
      simp only [List.map_cons, List.length_cons, Nat.cast_add, Nat.cast_one]
      rw [hmore, hcost]
      calc |avgBuyPrice s' userID asset * total - (p + boughtCost (buys.map Prod.fst))|
          = |(avgBuyPrice s' userID asset * total -
                (avgBuyPrice t userID asset * userTotal t.ledger userID asset +
                  boughtCost (buys.map Prod.fst))) +
              (avgBuyPrice t userID asset * userTotal t.ledger userID asset - p)| := by ring_nf
        _ ≤ buys.length * (Rounding.ulp divisionPrecision / 2) * total +
              Rounding.ulp divisionPrecision / 2 * userTotal t.ledger userID asset :=
            (abs_add_le _ _).trans (add_le_add hrun herror)
        _ ≤ buys.length * (Rounding.ulp divisionPrecision / 2) * total +
              Rounding.ulp divisionPrecision / 2 * total := by
            have : userTotal t.ledger userID asset ≤ total := le_add_of_nonneg_right hquantity
            gcongr
        _ = (buys.length + 1) * (Rounding.ulp divisionPrecision / 2) * total := by ring

theorem boughtQuantity_pos (hbuys : ∀ b ∈ buys, 0 < b.1.quantity ∧ 0 < b.1.cost) (hne : buys ≠ []) :
    0 < boughtQuantity (buys.map Prod.fst) := by
  apply List.sum_pos
  · simp only [List.map_map, List.mem_map, Function.comp_apply]
    rintro _ ⟨b, hb, rfl⟩
    exact (hbuys b hb).1
  · simpa using hne

/-- The exact weighted average after the fills. -/
def exactAverage (s : Store) (userID : Nat) (asset : String) (fills : List BuyFill) : Decimal :=
  (avgBuyPrice s userID asset * userTotal s.ledger userID asset + boughtCost fills) /
    (userTotal s.ledger userID asset + boughtQuantity fills)

theorem exactAverage_perm {fills fills' : List BuyFill} (h : fills'.Perm fills) :
    exactAverage s userID asset fills' = exactAverage s userID asset fills := by
  unfold exactAverage boughtCost boughtQuantity
  rw [(h.map _).sum_eq, (h.map _).sum_eq]

theorem applyBuyFills_average (hbuys : ∀ b ∈ buys, 0 < b.1.quantity ∧ 0 < b.1.cost)
    (hheld : 0 ≤ userTotal s.ledger userID asset) (havg : 0 ≤ avgBuyPrice s userID asset)
    (honly : OnlyBuys userID asset s.ledger buys)
    (hpos : 0 < userTotal s.ledger userID asset + boughtQuantity (buys.map Prod.fst)) :
    ∃ s', applyBuyFills userID asset s buys = .ok s' ∧
      |avgBuyPrice s' userID asset - exactAverage s userID asset (buys.map Prod.fst)| ≤
        buys.length * (Rounding.ulp divisionPrecision / 2) := by
  obtain ⟨s', hs', herror⟩ := applyBuyFills_error hbuys hheld havg honly
  refine ⟨s', hs', le_of_mul_le_mul_right ?_ hpos⟩
  calc |avgBuyPrice s' userID asset - exactAverage s userID asset (buys.map Prod.fst)| *
        (userTotal s.ledger userID asset + boughtQuantity (buys.map Prod.fst))
      = |avgBuyPrice s' userID asset *
        (userTotal s.ledger userID asset + boughtQuantity (buys.map Prod.fst)) -
          (avgBuyPrice s userID asset * userTotal s.ledger userID asset +
            boughtCost (buys.map Prod.fst))| := by
        rw [← abs_of_pos hpos, ← abs_mul, abs_of_pos hpos, sub_mul, exactAverage,
          div_mul_cancel₀ _ hpos.ne']
    _ ≤ _ := herror

/-- Fills applied without a sale in between are all accepted. The stored average is off the exact
one by at most half a unit in the sixteenth place for each of them (with nothing held and nothing
bought there is no exact one), so the order of the fills moves it by at most one unit for each. -/
theorem applyBuyFills_close (s : Store) (userID : Nat) (asset : String)
    (buys : List (BuyFill × Tables))
    (hbuys : ∀ b ∈ buys, 0 < b.1.quantity ∧ 0 < b.1.cost)
    (hheld : 0 ≤ userTotal s.ledger userID asset)
    (havg : 0 ≤ avgBuyPrice s userID asset) (honly : OnlyBuys userID asset s.ledger buys) :
    ∃ s', applyBuyFills userID asset s buys = .ok s' ∧
      (0 < userTotal s.ledger userID asset + boughtQuantity (buys.map Prod.fst) →
        |avgBuyPrice s' userID asset - exactAverage s userID asset (buys.map Prod.fst)| ≤
          buys.length * (1 / 10 ^ 16 / 2)) ∧
      ∀ buys' s'', OnlyBuys userID asset s.ledger buys' →
      (buys'.map Prod.fst).Perm (buys.map Prod.fst) →
        applyBuyFills userID asset s buys' = .ok s'' →
        |avgBuyPrice s' userID asset - avgBuyPrice s'' userID asset| ≤
          buys.length * (1 / 10 ^ 16) := by
  by_cases hnone : buys = []
  · subst hnone
    refine ⟨s, rfl, fun hpos => ?_, fun buys' s'' _ hperm hs'' => ?_⟩
    · simp only [List.map_nil, boughtQuantity, List.sum_nil, add_zero] at hpos
      simp [exactAverage, boughtCost, boughtQuantity, mul_div_cancel_right₀ _ hpos.ne']
    · have hnil : buys' = [] := by simpa using hperm
      subst hnil
      cases hs''
      simp
  have hpos := add_pos_of_nonneg_of_pos hheld (boughtQuantity_pos hbuys hnone)
  obtain ⟨s', hs', hclose⟩ := applyBuyFills_average hbuys hheld havg honly hpos
  refine ⟨s', hs', fun _ => hclose, fun buys' s'' honly' hperm hs'' => ?_⟩
  have hbuys' : ∀ b ∈ buys', 0 < b.1.quantity ∧ 0 < b.1.cost := by
    intro b hb
    obtain ⟨b', hb', he⟩ := List.mem_map.mp (hperm.subset (List.mem_map_of_mem hb))
    rw [← he]
    exact hbuys b' hb'
  have hsame : boughtQuantity (buys'.map Prod.fst) = boughtQuantity (buys.map Prod.fst) :=
    (hperm.map BuyFill.quantity).sum_eq
  obtain ⟨t, ht, hclose'⟩ := applyBuyFills_average hbuys' hheld havg honly' (by rwa [hsame])
  have ht : t = s'' := by
    rw [ht] at hs''
    cases hs''
    rfl
  subst ht
  have hlength : buys'.length = buys.length := by simpa using hperm.length_eq
  rw [exactAverage_perm hperm, hlength] at hclose'
  calc |avgBuyPrice s' userID asset - avgBuyPrice t userID asset|
      ≤ |avgBuyPrice s' userID asset - exactAverage s userID asset (buys.map Prod.fst)| +
          |exactAverage s userID asset (buys.map Prod.fst) -
            avgBuyPrice t userID asset| := abs_sub_le _ _ _
    _ ≤ buys.length * (Rounding.ulp divisionPrecision / 2) + buys.length *
      (Rounding.ulp divisionPrecision / 2) :=
        add_le_add hclose (by rwa [abs_sub_comm])
    _ = buys.length * (1 / 10 ^ 16) := by
        unfold Rounding.ulp divisionPrecision
        ring

/-- A user who holds this much of the coin, and nothing else. -/
def holdsBTC (quantity : Decimal) : Tables :=
  { Ledger.empty with
    accounts := [⟨1, .userAvailable, some 1, "BTC", false⟩]
    balances := [⟨1, quantity, 1⟩] }

/-- One coin at 100, then two for 101 and four for 7. -/
theorem applyBuyFills_two :
    ∃ s', applyBuyFills 1 "BTC" ⟨holdsBTC 1, [], [], [⟨1, "BTC", 100⟩], 0, 0⟩
        [(⟨2, 101⟩, holdsBTC 3), (⟨4, 7⟩, holdsBTC 7)] = .ok s' ∧
      |avgBuyPrice s' 1 "BTC" - 208 / 7| ≤ 1 / 10 ^ 16 ∧
      ∀ s'', applyBuyFills 1 "BTC" ⟨holdsBTC 1, [], [], [⟨1, "BTC", 100⟩], 0, 0⟩
          [(⟨4, 7⟩, holdsBTC 5), (⟨2, 101⟩, holdsBTC 7)] = .ok s'' →
        |avgBuyPrice s' 1 "BTC" - avgBuyPrice s'' 1 "BTC"| ≤ 2 / 10 ^ 16 := by
  have hheld : ∀ q, userTotal (holdsBTC q) 1 "BTC" = q := by
    intro q
    simp [userTotal, holdsBTC, balanceOf, Account.key, newAccountKey]
  have honly : OnlyBuys 1 "BTC" (holdsBTC 1) [(⟨2, 101⟩, holdsBTC 3), (⟨4, 7⟩, holdsBTC 7)] := by
    norm_num [OnlyBuys, hheld]
  obtain ⟨s', hs', hclose, horder⟩ :=
    applyBuyFills_close ⟨holdsBTC 1, [], [], [⟨1, "BTC", 100⟩], 0, 0⟩ 1 "BTC"
    [(⟨2, 101⟩, holdsBTC 3), (⟨4, 7⟩, holdsBTC 7)] (by simp) (by simp [hheld])
      (by simp [avgBuyPrice]) honly
  refine ⟨s', hs', ?_, fun s'' hs'' => ?_⟩
  · have hexact : exactAverage ⟨holdsBTC 1, [], [], [⟨1, "BTC", 100⟩], 0, 0⟩ 1 "BTC" [⟨2, 101⟩,
        ⟨4, 7⟩] = 208 / 7 := by
      norm_num [exactAverage, hheld, avgBuyPrice, boughtCost, boughtQuantity]
    have hpos : 0 < userTotal (holdsBTC 1) 1 "BTC" + boughtQuantity [⟨2, 101⟩, ⟨4, 7⟩] := by
      norm_num [hheld, boughtQuantity]
    have hclose := hclose hpos
    simp only [List.map_cons, List.map_nil, hexact, List.length_cons, List.length_nil] at hclose
    norm_num at hclose ⊢
    exact hclose
  · have honly' : OnlyBuys 1 "BTC" (holdsBTC 1) [(⟨4, 7⟩, holdsBTC 5), (⟨2, 101⟩, holdsBTC 7)] := by
      norm_num [OnlyBuys, hheld]
    have horder := horder _ s'' honly' (by simpa using List.Perm.swap ..) hs''
    norm_num at horder ⊢
    exact horder

end GoExchange.Service
