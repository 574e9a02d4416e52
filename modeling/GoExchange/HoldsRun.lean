import GoExchange.MarketBuyBudget
import GoExchange.MarketRules
import GoExchange.SharedTables
import GoExchange.TransfersSound

/-!
# Locked balances over whole runs

In every run in which no trade brings a market buy exactly to its quote
amount, every locked balance is what the open orders and the unresolved
withdrawals of its owner hold.
-/
namespace GoExchange.Holds

open Ledger Service Rows Tally Fallible Matching
open TransferRun (Change requestDeposit_change requestWithdrawal_change dispatch_change
  resolveTransfer_change)
open OrderRun (ofHolds reach_of_holds)

variable {policy : OrderRow → Except DomainError Unit} {s s' : State}

/-- The tables are right, and nothing has been bought for an order that was not yet given to the
engine. -/
structure RunOk (s : State) : Prop where
  bank : BankOk s.bank
  unfilled : ∀ o ∈ s.handoff, o.filledAmount = 0 ∧ o.filledQuoteAmount = 0
  untraded : ∀ o ∈ s.handoff, o.id ∉ s.bank.trades.map fun t => t.buyOrderID

theorem init_ok : RunOk init := by
  refine ⟨⟨empty_sound, ?_, ?_, ?_, ?_, ?_, ?_, ?_, ?_, fun u => ?_⟩, ?_, ?_⟩
  all_goals simp [init, Ledger.empty, KeysKnown, holdsOf, lockedOf, balanceOf]

theorem RunOk.handled (h : RunOk s) {store : Store} {ids : List Nat} (hs : Handled s.bank store ids)
    (hids : ∀ o ∈ s.handoff, o.id ∉ ids) :
    RunOk { s with bank := { s.bank with toStore := store } } := by
  refine ⟨hs.ok, h.unfilled, fun o ho hmem => ?_⟩
  obtain ⟨tr, htr, heq⟩ := List.mem_map.mp hmem
  rcases hs.trades tr htr with htr | hnew
  · exact h.untraded o ho (List.mem_map.mpr ⟨tr, htr, heq⟩)
  · exact hids o ho (heq ▸ hnew)

/-- Fewer orders wait for the engine. -/
theorem RunOk.fewer (h : RunOk s) {handoff : List OrderRow} {submitted : List Nat}
    (hsub : ∀ o ∈ handoff, o ∈ s.handoff) :
    RunOk { s with handoff := handoff, submitted := submitted } :=
  ⟨h.bank, fun o ho => h.unfilled o (hsub o ho), fun o ho => h.untraded o (hsub o ho)⟩

theorem RunOk.onStore (h : RunOk s) {f : Store → Except DomainError Store}
    (hf : ∀ store, f s.bank.toStore = .ok store → Handled s.bank store []) : RunOk (s.onStore f) :=
  transact_of h fun store hstore => h.handled (hf store hstore) (by simp)

theorem RunOk.onBank (h : RunOk s) {f : Bank → Except DomainError Bank}
    (hf : ∀ bank, f s.bank = .ok bank → ∃ ks, Change s.bank bank ks) : RunOk (s.onBank f) := by
  refine transact_of h fun bank hbank => ?_
  obtain ⟨ks, hchange⟩ := hf bank hbank
  exact ⟨h.bank.changed hchange, h.unfilled, by rw [hchange.trades_eq]; exact h.untraded⟩

/-! ## The steps -/

/-- The trade brings the order, a market buy, exactly to its quote amount. -/
def Label.exhausts (o : OrderRow) : Label → Bool
  | .settle trade _ => decide (o.id = trade.buyOrderID ∧ o.orderType = .market ∧
    o.filledQuoteAmount + trade.price * trade.quantity = o.quoteAmount)
  | _ => false

def Unexhausted (s : State) (l : Label) : Prop := ∀ o ∈ s.bank.orders, l.exhausts o = false

instance (s : State) (l : Label) : Decidable (Unexhausted s l) :=
  inferInstanceAs (Decidable (∀ o ∈ s.bank.orders, l.exhausts o = false))

/-- What the tables of orders tell in every run is used at each step. -/
theorem step_ok {l : Label} (hinv : OrderRun.Inv (ofHolds s)) (h : RunOk s) (hok : Unexhausted s l)
    (hs : step policy l s = some s') : RunOk s' := by
  cases l with
  | create input =>
    cases hs
    refine transact_of h ?_
    rintro ⟨store, o⟩ hc
    obtain ⟨row, hrow, hc⟩ := bind_eq_ok.mp hc
    obtain ⟨_, -, hp⟩ := bind_eq_ok.mp hc
    have hnew := persistAndHold_ok h.bank (parseOrderRequest_newRow hrow) hp
    refine ⟨hnew.ok, forall_mem_concat h.unfilled hnew.row.filled, ?_⟩
    rw [hnew.trades]
    refine forall_mem_concat h.untraded fun hmem => ?_
    -- the new id is above every id in use
    obtain ⟨tr, htr, heq⟩ := List.mem_map.mp hmem
    have hle := h.bank.trades tr htr
    have hid := hnew.id
    omega
  | submit id =>
    obtain ⟨-, rfl⟩ := Lts.of_enabled hs
    exact h.fewer fun o ho => List.mem_of_mem_filter ho
  | reject id =>
    simp only [step] at hs
    split at hs
    · rename_i o hfind
      cases hs
      have ho := (of_find? hfind).1
      obtain ⟨hrow, hst, -⟩ := hinv.waiting o ho
      have hrest : RunOk { s with handoff := s.handoff.filter (·.id ≠ id) } :=
        h.fewer fun p hp => List.mem_of_mem_filter hp
      refine hrest.onStore fun store hc => ?_
      exact rejection_ok h.bank hrow hst (h.unfilled o ho).1 (h.unfilled o ho).2
        (h.untraded o ho) hc
    · cases hs
  | settle trade retried =>
    obtain ⟨⟨hbuy, -⟩, rfl⟩ := Lts.of_enabled hs
    refine transact_of h fun store hc =>
      h.handled (settleTrade_ok h.bank (fun o ho hid hm heq => ?_) hc) ?_
    · have := hok o ho
      simp [Label.exhausts, hid, hm, heq] at this
    · intro o ho hid
      exact (hinv.waiting o ho).2.2 (List.mem_singleton.mp hid ▸ hbuy)
  | complete input =>
    obtain ⟨hgiven, rfl⟩ := Lts.of_enabled hs
    refine h.onStore fun store hc => completion_ok h.bank (fun o ho hid hrej => ?_) hc
    exact (hinv.rows o ho).2.2 hrej (hid ▸ hgiven)
  | cancel id =>
    obtain ⟨-, rfl⟩ := Lts.of_enabled hs
    exact h.onStore fun store hc => cancellation_ok h.bank hc
  | finalize input =>
    obtain ⟨⟨-, hopen⟩, rfl⟩ := Lts.of_enabled hs
    obtain ⟨o, ho, hopen⟩ := List.any_eq_true.mp hopen
    simp only [decide_eq_true_eq, Bool.decide_and, Bool.and_eq_true] at hopen
    refine h.onStore fun store hc => completion_ok h.bank (fun x hx hid hrej => ?_) hc
    rw [List.inj_on_of_nodup_map h.bank.orderIDs hx ho (hid.trans hopen.1.symm)] at hrej
    simp [isOpen, hrej, isCancellableOrderStatus] at hopen
  | deposit input =>
    cases hs
    exact h.onBank fun bank hr => ⟨_, requestDeposit_change hr⟩
  | withdraw input =>
    cases hs
    exact h.onBank fun bank hr => ⟨_, requestWithdrawal_change h.bank.numbered hr⟩
  | dispatch id submitted =>
    cases hs
    exact h.onBank fun bank hr => ⟨_, dispatch_change hr⟩
  | resolve input =>
    cases hs
    refine h.onBank fun bank hr => ?_
    rcases resolveTransfer_change h.bank.numbered hr with rfl | ⟨hchange, -⟩
    · exact ⟨_, .refl _⟩
    · exact ⟨_, hchange⟩
  | restart =>
    cases hs
    exact h.fewer (List.forall_mem_nil _)
  | lost m n r a j p =>
    cases hs
    exact ⟨h.bank.lost (h.bank.ledger.lost a j p) rfl (fun _ => rfl) m n r, h.unfilled, h.untraded⟩

theorem reach_ok (h : Lts.Reach (step policy) Unexhausted init s) : RunOk s :=
  h.invariant RunOk init_ok fun _ _ _ hr hi hok hs =>
    step_ok (OrderRun.reach_inv (reach_of_holds hr)) hi hok hs

/-! ## The locked balance -/

/-- In every run in which no market buy is brought exactly to its quote amount, under any rules of
the markets, a user's locked balance is what their open orders and unresolved withdrawals hold. -/
theorem locked_eq_holds (policy : OrderRow → Except DomainError Unit) (s : State)
    (h : Lts.Reach (step policy) Unexhausted init s) (u : Nat × String) :
    lockedOf s.bank.ledger u = holdsOf s.bank u :=
  (reach_ok h).bank.locked u

/-- User 1 deposits 100 KRW and user 2 deposits 10 BTC. -/
def deposits : List Label :=
  [.deposit ⟨1, .bank, "KRW", some 100, "first"⟩, .dispatch 1 (some "bank:1"),
    .resolve ⟨1, "bank:1:done", .success, none⟩,
    .deposit ⟨2, .chain, "BTC", some 10, "first"⟩, .dispatch 2 (some "chain:1"),
    .resolve ⟨2, "chain:1:done", .success, none⟩]

/-- An ask of 5 BTC at 1, a bid of 1 ETH at 1 and a market buy of BTC. -/
def orders (quoteAmount : Decimal) : List Label :=
  [.create ⟨2, "BTC", .sell, .limit, some 1, some 5, none⟩, .submit 1,
    .create ⟨1, "ETH", .buy, .limit, some 1, some 1, none⟩, .submit 2,
    .create ⟨1, "BTC", .buy, .market, none, none, some quoteAmount⟩, .submit 3]

/-- A trade of 1 BTC leaves an ask of 4, and user 2 withdraws 3 more. -/
theorem locked_eq_holds_tradeAndWithdrawal :
    ∃ s, Lts.Reach (step (validateMarketPolicy defaultMarketRulesRegistry)) Unexhausted init s ∧
      lockedOf s.bank.ledger (2, "BTC") = 7 ∧ holdsOf s.bank (2, "BTC") = 7 := by
  have hrun :
      (Lts.exec (Lts.guarded (step (validateMarketPolicy defaultMarketRulesRegistry)) Unexhausted)
      (deposits ++ orders 2 ++ [.settle ⟨⟨1, 1⟩, "BTC", 1, 1, 3, 1⟩ false,
        .withdraw ⟨2, .chain, "BTC", some 3, "out"⟩])
      init).map (fun s => lockedOf s.bank.ledger (2, "BTC")) = some 7 := by
    decide +kernel
  obtain ⟨s, hs, hlocked⟩ := Option.map_eq_some_iff.mp hrun
  have hr := Lts.reach_of_exec_guarded _ hs
  exact ⟨s, hr, hlocked, (locked_eq_holds _ s hr (2, "BTC")).symm.trans hlocked⟩

/-- A market buy of 1e-16 KRW, which is all given to the engine since 1e-16 / 1.0005 rounds up to
it. -/
def dustBuy : OrderRow := ⟨3, 1, 0, 1 / 10 ^ 16, "BTC", .buy, .pending, 0, 0, .market, 0⟩

def dustTrade : Trade := ⟨⟨1, 1⟩, "BTC", 1, 1 / 10 ^ 16, 3, 1⟩

/-- The engine spends all of it, the order is filled, and the fee is taken from the hold of the
other order. -/
theorem dustBuy_takes_from_other_hold :
    tradesOf 1 0 (engineOrder dustBuy) (sweepFills (engineOrder dustBuy) [(loneAsk 2 5, 1)]) =
      [dustTrade] ∧
    ∃ s, Lts.Reach (step (validateMarketPolicy defaultMarketRulesRegistry)) Lts.free init s ∧
      s.bank.orders.find? (·.id = 3) =
        some { dustBuy with
          status := .filled, filledAmount := 1 / 10 ^ 16, filledQuoteAmount := 1 / 10 ^ 16 } ∧
      holdsOf s.bank (1, "KRW") = 10005 / 10000 ∧
      lockedOf s.bank.ledger (1, "KRW") = 10005 / 10000 - 5 / 10 ^ 20 := by
  refine ⟨by decide +kernel, ?_⟩
  have hrun : (Lts.exec (step (validateMarketPolicy defaultMarketRulesRegistry))
      (deposits ++ orders (1 / 10 ^ 16) ++ [.settle dustTrade false]) init).map (fun s =>
        (s.bank.orders.find? (·.id = 3), holdsOf s.bank (1, "KRW"),
          lockedOf s.bank.ledger (1, "KRW"))) =
      some (some { dustBuy with
        status := .filled, filledAmount := 1 / 10 ^ 16, filledQuoteAmount := 1 / 10 ^ 16 },
        10005 / 10000, 10005 / 10000 - 5 / 10 ^ 20) := by
    decide +kernel
  obtain ⟨s, hs, hend⟩ := Option.map_eq_some_iff.mp hrun
  obtain ⟨hrow, hholds, hlocked⟩ : _ ∧ _ ∧ _ := by simpa only [Prod.mk.injEq] using hend
  exact ⟨s, Lts.reach_of_exec _ hs, hrow, hholds, hlocked⟩

end GoExchange.Holds
