import GoExchange.HoldVerdicts
import Mathlib.Data.Nat.Digits.Defs

/-!
# Holds and balances

When the ledger takes the hold of an order, and that the fold over the locked
balances asks the same: a hold passes as long as what the user has available
covers it and the holds before it.
-/
namespace GoExchange.Service

open Ledger Rows Fallible Tally

variable {order : OrderRow} {store : Store} {req : HoldRequest} {reqs : List HoldRequest}
  {b : AccountKey → Decimal} {accounts : List Account} {balances : List AccountBalance}

/-! ## One hold -/

/-- The balances after the hold of an order. -/
def afterHold (b : AccountKey → Decimal) (order : OrderRow) (k : AccountKey) : Decimal :=
  b k + sumAt PostingInput.key PostingInput.amount (orderHoldPostings order (holdAmountFor order)) k

theorem afterHold_eq (b : AccountKey → Decimal) (order : OrderRow) (k : AccountKey) :
    afterHold b order k = b k + ((if availableKeyOf order = k then -holdAmountFor order else 0) +
      (if newAccountKey .userLocked (some order.userID) (orderHoldAsset order) = k then
        holdAmountFor order else 0)) := by
  simp only [afterHold, orderHoldPostings, sumAt_cons, sumAt_nil, add_zero]
  rfl

theorem afterHold_available :
    afterHold b order (availableKeyOf order) = b (availableKeyOf order) - holdAmountFor order := by
  rw [afterHold_eq, if_pos rfl, if_neg (by simp [availableKeyOf, newAccountKey]), add_zero,
    sub_eq_add_neg]

/-- What others have available stays. -/
theorem afterHold_other {k : AccountKey} (htype : k.accountType = .userAvailable)
    (hne : availableKeyOf order ≠ k) : afterHold b order k = b k := by
  have hlocked : newAccountKey .userLocked (some order.userID) (orderHoldAsset order) ≠ k :=
    fun he => by
    rw [← he] at htype
    cases htype
  rw [afterHold_eq, if_neg hne, if_neg hlocked, add_zero, add_zero]

theorem holdAmountFor_pos (h : NewRow order) : 0 < holdAmountFor order := by
  unfold holdAmountFor
  have hfee : ∀ x : Decimal, 0 < x → 0 < quoteAmountWithTradingFee x := fun x hx => by
    rw [quoteAmountWithTradingFee_eq]
    have := defaultTradingFeeRate_bounds.1
    positivity
  rcases h.amounts with ⟨htype, hprice, hamount, -⟩ | ⟨htype, hside, -, -, hquote⟩ | ⟨htype, hside,
    -, hamount, -⟩
  · simp only [htype, reduceCtorEq, if_false]
    split
    · exact hfee _ (mul_pos hprice hamount)
    · exact hamount
  · simp [htype, hside, hquote]
  · simp [hside, hamount]

/-- What is locked does not fall. -/
theorem le_afterHold_locked (h : NewRow order) {k : AccountKey}
    (htype : k.accountType = .userLocked) : b k ≤ afterHold b order k := by
  have hne : availableKeyOf order ≠ k := fun he => by
    rw [← he] at htype
    cases htype
  have hpos := (holdAmountFor_pos h).le
  rw [afterHold_eq, if_neg hne, zero_add]
  split
  · linarith
  · linarith

/-- A hold is covered by what is available, where no locked balance is below zero. -/
theorem covered_hold (h : NewRow order)
    (hlocked : ∀ k : AccountKey, k.accountType = .userLocked → 0 ≤ b k) :
    Covered b (orderHoldPostings order (holdAmountFor order)) ↔
    holdAmountFor order ≤ b (availableKeyOf order) := by
  constructor
  · intro hc
    have havail := hc _ List.mem_cons_self rfl
    have hsum : 0 ≤ afterHold b order (availableKeyOf order) := havail
    rw [afterHold_available] at hsum
    linarith
  · intro hle i hi _
    have hsum : 0 ≤ afterHold b order i.key := by
      simp only [orderHoldPostings, List.mem_cons, List.not_mem_nil, or_false] at hi
      rcases hi with rfl | rfl
      · show 0 ≤ afterHold b order (availableKeyOf order)
        rw [afterHold_available]
        linarith
      · exact le_trans (hlocked _ rfl) (le_afterHold_locked h rfl)
    exact hsum

/-- What `parseOrderRequest` gives and the tables can take. -/
structure Holdable (req : HoldRequest) : Prop where
  row : NewRow req.order
  id : req.order.id = 0
  asset : (orderHoldAsset req.order).length ≤ 16

theorem holdSpec_valid (hasset : (orderHoldAsset order).length ≤ 16) (accountType : AccountType)
    (h : accountType = .userAvailable ∨ accountType = .userLocked) :
    AccountSpec.Valid ⟨accountType, some order.userID, orderHoldAsset order⟩ := by
  rcases h with rfl | rfl
  · exact ⟨by simp, rfl, hasset⟩
  · exact ⟨by simp, rfl, hasset⟩

/-- The ids of orders are 64 bits wide, so that the key of a hold journal fits its column. -/
theorem holdInput_recordable (h : NewRow order) (hid : order.id < 2 ^ 63) :
    Recordable (holdInput order) := by
  have hpos := holdAmountFor_pos h
  have hasset : orderHoldAsset order ≠ "" := by
    unfold orderHoldAsset
    split
    · decide
    · exact h.symbol
  refine ⟨validateJournalInput_iff.mpr
    ⟨⟨?_, by simp [holdInput], by simp [holdInput], ?_, by simp [holdInput]⟩, ?_, ?_⟩,
    by simp [holdInput], by simp [holdInput], ?_⟩
  · simp [holdInput, JournalKey.text, JournalKey.label]
  · simp [holdInput, orderHoldPostings]
  · intro p hp
    simp only [holdInput, orderHoldPostings, List.mem_cons, List.not_mem_nil, or_false] at hp
    rcases hp with rfl | rfl
    · exact ⟨hasset, neg_ne_zero.mpr hpos.ne', rfl⟩
    · exact ⟨hasset, hpos.ne', rfl⟩
  · intro asset
    simp only [holdInput, orderHoldPostings, sumAt_cons, sumAt_nil, add_zero]
    split
    · rw [neg_add_cancel]
    · rw [add_zero]
  · have hlen := Nat.repr_length order.id 20 (by omega) (by omega)
    have htext : (holdInput order).idempotencyKey = "order-hold:" ++ Nat.repr order.id := rfl
    rw [htext, String.length_append]
    have hlabel : "order-hold:".length = 11 := rfl
    omega

/-- The ledger takes a hold that what is available covers and refuses any other for lack of balance.
-/
theorem holdOrderAssets_cases (ht : Provisioned store.ledger) (h : NewRow order)
    (hid : order.id < 2 ^ 63) (hasset : (orderHoldAsset order).length ≤ 16)
    (hfresh : (JournalKey.orderHold order.id).text ∉
      store.ledger.journals.map JournalEntry.idempotencyKey)
    (hlocked : ∀ k : AccountKey, k.accountType = .userLocked → 0 ≤ balanceOf store.ledger k) :
    (holdAmountFor order ≤ balanceOf store.ledger (availableKeyOf order) ∧
      ∃ t', holdOrderAssets store order = .ok { store with ledger := t' }) ∨
    (balanceOf store.ledger (availableKeyOf order) < holdAmountFor order ∧
      holdOrderAssets store order = .error (insufficientBalanceError order.side)) := by
  have hrec := holdInput_recordable h hid
  have hspecs : ∀ i ∈ (holdInput order).postings, i.spec.Valid := fun i hi => by
    simp only [holdInput, orderHoldPostings, List.mem_cons, List.not_mem_nil, or_false] at hi
    rcases hi with rfl | rfl
    · exact holdSpec_valid hasset _ (.inl rfl)
    · exact holdSpec_valid hasset _ (.inr rfl)
  have hside : ¬ (order.side ≠ .buy ∧ order.side ≠ .sell) := fun hne => by
    rcases h.side with he | he
    · exact hne.1 he
    · exact hne.2 he
  have heq : holdOrderAssets store order = asInsufficientBalance order.side
      (record store.ledger (holdInput order) >>= fun p => .ok { store with ledger := p.1 }) := by
    rw [holdOrderAssets, if_neg hside, if_neg (not_not.mpr (holdAmountFor_pos h))]
    rfl
  rw [heq]
  by_cases hle : holdAmountFor order ≤ balanceOf store.ledger (availableKeyOf order)
  · obtain ⟨t', ht'⟩ := record_new_ok ht hrec rfl hfresh hspecs ((covered_hold h hlocked).mpr hle)
    exact .inl ⟨hle, t', by rw [ht']; rfl⟩
  · obtain ⟨e, he, hkind⟩ := record_refused ht hrec rfl hfresh hspecs fun hc =>
      hle ((covered_hold h hlocked).mp hc)
    refine .inr ⟨not_le.mp hle, ?_⟩
    rw [he]
    show Except.error (if e.kind = .conflict then insufficientBalanceError order.side else e) = _
    rw [if_pos hkind]

/-! ## The fold -/

/-- The fold by account key: what it refuses. -/
def foldErrs (b : AccountKey → Decimal) : List HoldRequest → List (Option DomainError)
  | [] => []
  | req :: reqs =>
    if b (availableKeyOf req.order) - holdAmountFor req.order < 0 then
      some (insufficientBalanceError req.order.side) :: foldErrs b reqs
    else none :: foldErrs (afterHold b req.order) reqs

/-- The balances once the holds that pass are taken. -/
def foldBalance (b : AccountKey → Decimal) : List HoldRequest → AccountKey → Decimal
  | [] => b
  | req :: reqs =>
    if b (availableKeyOf req.order) - holdAmountFor req.order < 0 then foldBalance b reqs
    else foldBalance (afterHold b req.order) reqs

/-- The fold over account ids is the fold over account keys. -/
theorem checkHolds_eq {available : Nat → Decimal}
    (hids : (accounts.map Account.id).Nodup) (hkeys : (accounts.map Account.key).Nodup)
    (hcover : ∀ req ∈ reqs, availableKeyOf req.order ∈ accounts.map Account.key)
    (havail : ∀ a ∈ accounts, a.accountType = .userAvailable → available a.id = b a.key) :
    checkHolds accounts available reqs = foldErrs b reqs := by
  induction reqs generalizing available b with
  | nil => rfl
  | cons req reqs ih =>
    rw [List.forall_mem_cons] at hcover
    obtain ⟨a, ha, hak⟩ := List.mem_map.mp hcover.1
    have htype : a.accountType = .userAvailable := congrArg AccountKey.accountType hak
    have hfind : accounts.find? (·.key = availableKeyOf req.order) = some a := by
      have hself : availableKeyOf req.order = a.key := hak.symm
      rw [hself]
      exact find?_eq_some hkeys ha
    have hbal : available a.id = b (availableKeyOf req.order) := by rw [havail a ha htype, hak]
    simp only [checkHolds, hfind, foldErrs, hbal]
    split
    · rw [ih hcover.2 havail]
    · rw [ih hcover.2]
      intro c hc hctype
      by_cases hca : c.id = a.id
      · have hsame : c = a := List.inj_on_of_nodup_map hids hc ha hca
        rw [hsame, Function.update_self, hak, afterHold_available]
      · have hne : availableKeyOf req.order ≠ c.key := fun he =>
          hca (congrArg Account.id (List.inj_on_of_nodup_map hkeys hc ha (he.symm.trans hak.symm)))
        rw [Function.update_of_ne hca, afterHold_other hctype hne, havail c hc hctype]

/-- The map of locked balances gives what the ledger holds. -/
theorem availableOf_eq {t : Tables} (ht : Provisioned t)
    (hsub : ∀ a ∈ accounts, a ∈ t.accounts)
    (hlock : lockBalances t ((accounts.map Account.id).insertionSort (· ≤ ·)) = .ok balances)
    {a : Account}
    (ha : a ∈ accounts) (htype : a.accountType = .userAvailable) :
    availableOf accounts balances a.id = balanceOf t a.key := by
  have hany : accounts.any (fun c => c.id = a.id ∧ c.accountType = .userAvailable) := by
    rw [List.any_eq_true]
    exact ⟨a, ha, by simp [htype]⟩
  obtain ⟨b, hb, hid⟩ := ht.rows.row (hsub a ha)
  have hmem : b ∈ balances := by
    rw [mem_lockBalances hlock, List.mem_insertionSort, hid]
    exact ⟨hb, List.mem_map_of_mem ha⟩
  rw [availableOf, if_pos hany, ht.balanceOf_row (hsub a ha) hb hid]
  cases hf : balances.find? (·.accountID = a.id) with
  | none => exact absurd (List.mem_map.mpr ⟨b, hmem, hid⟩) (find?_eq_none.mp hf)
  | some c =>
    obtain ⟨hc, hca⟩ := of_find? hf
    have hsame := List.inj_on_of_nodup_map ht.rows.ids ((mem_lockBalances hlock).mp hc).1 hb
      (hca.trans hid.symm)
    rw [hsame]
    rfl

/-- What a batch checks its requests against are the balances of the ledger. -/
theorem checkHolds_locked {t u : Tables} (ht : Provisioned t)
    (hensure : ensureAccounts t (holdSpecs reqs) = .ok (u, accounts))
    (hcover : ∀ spec ∈ holdSpecs reqs, spec.key ∈ accounts.map Account.key)
    (hlock : lockBalances u ((accounts.map Account.id).insertionSort (· ≤ ·)) = .ok balances) :
    checkHolds accounts (availableOf accounts balances) reqs = foldErrs (balanceOf t) reqs := by
  have hens := ensureAccounts_spec ht.accounts ht.rows hensure
  have hids := ensureAccounts_nodup ht.accounts hensure
  have hkeys : (accounts.map Account.key).Nodup := by
    refine List.Nodup.map_on (fun a ha c hc he => ?_) hids.of_map
    exact List.inj_on_of_nodup_map hens.accounts.keys (hens.returned a ha).1
      (hens.returned c hc).1 he
  refine checkHolds_eq hids hkeys (fun req hreq => ?_) fun a ha htype => ?_
  · exact hcover ⟨.userAvailable, some req.order.userID, orderHoldAsset req.order⟩
      (List.mem_flatMap.mpr ⟨req, hreq, List.mem_cons_self⟩)
  · rw [← hens.balanceOf_eq ht]
    exact availableOf_eq hens.provisioned (fun c hc => (hens.returned c hc).1) hlock ha htype

theorem holdSpecs_valid (h : ∀ req ∈ reqs, Holdable req) : ∀ spec ∈ holdSpecs reqs, spec.Valid := by
  intro spec hspec
  obtain ⟨req, hreq, hspec⟩ := List.mem_flatMap.mp hspec
  rcases List.mem_pair.mp hspec with rfl | rfl
  · exact holdSpec_valid (h req hreq).asset _ (.inl rfl)
  · exact holdSpec_valid (h req hreq).asset _ (.inr rfl)

theorem NewRow.withID (h : NewRow order) (n : Nat) : NewRow { order with id := n } :=
  ⟨h.user, h.symbol, h.side, h.status, h.filled, h.amounts⟩

/-- The ledger as a transaction finds it: no hold of an order to come, and no locked balance below
zero. -/
structure Unheld (t : Tables) (seq : Nat) : Prop where
  provisioned : Provisioned t
  holds : ∀ id, (JournalKey.orderHold id).text ∈ t.journals.map JournalEntry.idempotencyKey →
    id ≤ seq
  locked : ∀ k : AccountKey, k.accountType = .userLocked → 0 ≤ balanceOf t k

/-- A hold that is covered is taken, and what is not covered is refused. -/
theorem Unheld.hold (store : Store) {seq : Nat} (h : Unheld store.ledger seq) (hreq : Holdable req)
    (hseq : seq < 2 ^ 63 - 1) :
    (¬ balanceOf store.ledger (availableKeyOf req.order) - holdAmountFor req.order < 0 ∧
      ∃ t', holdOrderAssets store { req.order with id := seq + 1 } =
        .ok { store with ledger := t' } ∧
        Unheld t' (seq + 1) ∧ balanceOf t' = afterHold (balanceOf store.ledger) req.order) ∨
    (balanceOf store.ledger (availableKeyOf req.order) - holdAmountFor req.order < 0 ∧
      holdOrderAssets store { req.order with id := seq + 1 } =
        .error (insufficientBalanceError req.order.side)) := by
  have hrow := hreq.row.withID (seq + 1)
  have hfresh : (JournalKey.orderHold (seq + 1)).text ∉
      store.ledger.journals.map JournalEntry.idempotencyKey :=
    fun hmem => by
      have := h.holds _ hmem
      omega
  rcases holdOrderAssets_cases h.provisioned hrow (by show seq + 1 < 2 ^ 63; omega) hreq.asset
    (by exact hfresh) h.locked with
    ⟨hle, t', hok⟩ | ⟨hlt, herr⟩
  · have hle' : holdAmountFor req.order ≤ balanceOf store.ledger (availableKeyOf req.order) := hle
    obtain ⟨t'', heq, hwrote⟩ := holdOrderAssets_ok h.provisioned (by exact hfresh) hok
    have ht : t' = t'' := congrArg Store.ledger heq
    subst ht
    have hbalance : balanceOf t' = afterHold (balanceOf store.ledger) req.order :=
      funext hwrote.balance
    refine .inl ⟨by linarith, t', hok, ⟨hwrote.provisioned, fun id hid => ?_, fun k hk => ?_⟩,
      hbalance⟩
    · rw [hwrote.journals, List.map_append, List.mem_append] at hid
      rcases hid with hid | hid
      · exact Nat.le_succ_of_le (h.holds id hid)
      · have htext : (JournalKey.orderHold id).text = (JournalKey.orderHold (seq + 1)).text :=
          List.mem_singleton.mp hid
        rw [JournalKey.orderHold.inj (JournalKey.text_injective htext)]
    · rw [hbalance]
      exact le_trans (h.locked k hk) (le_afterHold_locked hreq.row hk)
  · have hlt' : balanceOf store.ledger (availableKeyOf req.order) < holdAmountFor req.order := hlt
    exact .inr ⟨by linarith, herr⟩

/-- What the fold lets pass the ledger takes. -/
theorem holds_passing (store : Store) {seq : Nat} (h : Unheld store.ledger seq)
    (hreqs : ∀ req ∈ reqs, Holdable req) (hseq : seq + reqs.length < 2 ^ 63) : ∃ t',
      (numberOrders seq (passing reqs (foldErrs (balanceOf store.ledger) reqs))).foldlM
        (fun store req => holdOrderAssets store req.order) store = .ok { store with ledger := t' } ∧
      balanceOf t' = foldBalance (balanceOf store.ledger) reqs := by
  induction reqs generalizing store seq with
  | nil => exact ⟨store.ledger, rfl, rfl⟩
  | cons req reqs ih =>
    rw [List.forall_mem_cons] at hreqs
    rw [List.length_cons] at hseq
    rcases Unheld.hold store h hreqs.1 (by omega) with ⟨hpass, t, hok, ht, hbalance⟩ | ⟨hfail, -⟩
    · rw [foldErrs, if_neg hpass, passing, numberOrders, List.foldlM_cons, foldBalance,
        if_neg hpass, ← hbalance]
      obtain ⟨t', ht', hfinal⟩ := ih { store with ledger := t } ht hreqs.2 (by omega)
      exact ⟨t', by rw [hok]; exact ht', hfinal⟩
    · rw [foldErrs, if_pos hfail, passing, foldBalance, if_pos hfail]
      exact ih store h hreqs.2 (by omega)

end GoExchange.Service
