import GoExchange.LockTrace
import GoExchange.LedgerView
import GoExchange.HoldClaims

/-!
# The order in which balances are locked

`Record` locks the balances of its accounts in ascending order, and a batch
those of all its journals before the first of them. So whichever transaction
moves money, it first locks the balance rows it needs in ascending order.
-/
namespace GoExchange.Locks

open Ledger Service Locking Fallible Traced

/-! ## Accounts that are locked beforehand -/

section Accounts

variable {t t' : Tables} {specs : List AccountSpec} {rows : List Account} {keys : List AccountKey}
  {ids : List Nat}

/-- The accounts under the keys exist, and the ids are theirs. -/
structure PreLocked (t : Tables) (keys : List AccountKey) (ids : List Nat) : Prop where
  there : ∀ k ∈ keys, k ∈ t.accounts.map Account.key
  held : ∀ a ∈ t.accounts, a.key ∈ keys → a.id ∈ ids

theorem insertAccount_keeps {s : AccountSpec} (h : insertAccount t s = .ok t') :
    t'.balances = t.balances ∧ (s.key ∈ t.accounts.map Account.key → t'.accounts = t.accounts) := by
  simp only [insertAccount, guard_eq_ok] at h
  obtain ⟨-, -, -, h⟩ := h
  split at h <;> rename_i hs <;> cases h
  · exact ⟨rfl, fun _ => rfl⟩
  · exact ⟨rfl, fun h => absurd h hs⟩

theorem insertAccounts_keys (h : specs.foldlM insertAccount t = .ok t') (k : AccountKey) :
    k ∈ t'.accounts.map Account.key ↔ k ∈ t.accounts.map Account.key ∨
    k ∈ specs.map AccountSpec.key := by
  obtain ⟨u, hu, hkeys⟩ := insertAccounts_ok (t := t) (valid_of_insertAccounts h)
  obtain rfl : u = t' := Except.ok.inj (hu.symm.trans h)
  exact hkeys k

theorem ensureBalanceRows_accounts (t : Tables) (ids : List Nat) :
    (ensureBalanceRows t ids).accounts = t.accounts := by
  unfold ensureBalanceRows
  induction ids using List.reverseRecOn with
  | nil => rfl
  | append_singleton ids id ih =>
    rw [List.foldl_append, List.foldl_cons, List.foldl_nil, ← ih]
    unfold ensureBalanceRow
    split <;> rfl

theorem mem_sorted_keys {k : AccountKey} :
    k ∈ ((unique specs).insertionSort AccountSpec.before).map AccountSpec.key ↔
    k ∈ specs.map AccountSpec.key := by
  obtain ⟨-, hsub, hcover⟩ := unique_spec specs
  rw [((List.perm_insertionSort AccountSpec.before (unique specs)).map AccountSpec.key).mem_iff]
  constructor
  · intro hk
    obtain ⟨s, hs, rfl⟩ := List.mem_map.mp hk
    exact List.mem_map_of_mem (hsub s hs)
  · intro hk
    obtain ⟨s, hs, rfl⟩ := List.mem_map.mp hk
    exact hcover s hs

theorem ensureAccounts_returned (h : ensureAccounts t specs = .ok (t', rows)) {a : Account}
    (ha : a ∈ rows) : a ∈ t'.accounts ∧ a.key ∈ specs.map AccountSpec.key := by
  obtain ⟨u, -, h⟩ := bind_eq_ok.mp h
  obtain ⟨-, h⟩ := guard_eq_ok.mp h
  cases h
  obtain ⟨ha, hk⟩ := List.mem_filter.mp ha
  rw [ensureBalanceRows_accounts]
  exact ⟨ha, mem_sorted_keys.mp (of_decide_eq_true hk)⟩

/-- What `EnsureAccounts` returns is every account under the keys, each with its balance row. -/
theorem ensureAccounts_preLocked (hn : (t.balances.map AccountBalance.accountID).Nodup)
    (h : ensureAccounts t specs = .ok (t', rows)) :
    PreLocked t' (specs.map AccountSpec.key) (rows.map Account.id) ∧
      (t'.balances.map AccountBalance.accountID).Nodup ∧
      ∀ id ∈ rows.map Account.id, id ∈ t'.balances.map AccountBalance.accountID := by
  obtain ⟨u, hu, h⟩ := bind_eq_ok.mp h
  obtain ⟨-, h⟩ := guard_eq_ok.mp h
  cases h
  have hmem := insertAccounts_keys hu
  have hbal : u.balances = t.balances :=
    foldlM_invariant (fun v => v.balances = t.balances)
      (fun v s w _ hv hw => (insertAccount_keeps hw).1.trans hv) rfl hu
  have hz := ensureBalanceRows_zeroed (by rw [hbal]; exact hn)
    (((findBySpecs u ((unique specs).insertionSort AccountSpec.before)).map
      Account.id).insertionSort (· ≤ ·))
  refine ⟨⟨fun k hk => ?_, fun a ha hk => ?_⟩, hz.nodup, fun id hid => ?_⟩
  · rw [ensureBalanceRows_accounts, hmem]
    exact .inr (mem_sorted_keys.mpr hk)
  · rw [ensureBalanceRows_accounts] at ha
    exact List.mem_map_of_mem (List.mem_filter.mpr ⟨ha, decide_eq_true (mem_sorted_keys.mpr hk)⟩)
  · exact hz.cover id ((List.mem_insertionSort _).mpr hid)

theorem ensureAccounts_there (hs : ∀ s ∈ specs, s.key ∈ t.accounts.map Account.key)
    (h : ensureAccounts t specs = .ok (t', rows)) : t'.accounts = t.accounts := by
  obtain ⟨u, hu, h⟩ := bind_eq_ok.mp h
  obtain ⟨-, h⟩ := guard_eq_ok.mp h
  cases h
  rw [ensureBalanceRows_accounts]
  have hsub : ∀ s ∈ (unique specs).insertionSort AccountSpec.before, s ∈ specs :=
    fun s hm => (unique_spec specs).2.1 s ((List.mem_insertionSort _).mp hm)
  refine foldlM_invariant (fun v => v.accounts = t.accounts) (fun v s w hm hv hw => ?_) rfl hu
  exact ((insertAccount_keeps hw).2 (hv ▸ hs s (hsub s hm))).trans hv

end Accounts

/-! ## Balance rows -/

section Balances

variable {t t' : Tables} {ids : List Nat} {id : Nat}

theorem mem_trace_lockBalances : id ∈ (lockBalances t ids).trace.filterMap Row.balance? ↔
    id ∈ t.balances.map AccountBalance.accountID ∧ id ∈ ids := by
  simp only [lockBalances, Row.filterMap_balance, List.mem_map, List.mem_insertionSort,
    List.mem_filter, decide_eq_true_eq]
  constructor
  · rintro ⟨b, ⟨hb, hid⟩, rfl⟩
    exact ⟨⟨b, hb, rfl⟩, hid⟩
  · rintro ⟨⟨b, hb, rfl⟩, hid⟩
    exact ⟨b, ⟨hb, hid⟩, rfl⟩

theorem lockBalances_pairwise (hn : (t.balances.map AccountBalance.accountID).Nodup)
    (ids : List Nat) : ((lockBalances t ids).trace.filterMap Row.balance?).Pairwise (· < ·) := by
  rw [lockBalances, Row.filterMap_balance]
  exact pairwise_map_insertionSort _ (hn.sublist (List.filter_sublist.map _))

theorem applyBalanceDeltas_within (t : Tables) (deltas : List BalanceDelta) :
    Confined (fun r => ∀ k, r.balance? = some k →
      k ∈ t.balances.map AccountBalance.accountID ∧ k ∈ deltas.map BalanceDelta.accountID)
      (applyBalanceDeltas t deltas) := by
  constructor
  intro r hr k hk
  obtain ⟨b, hb, rfl⟩ := List.mem_map.mp hr
  cases hk
  obtain ⟨hb, hid⟩ := List.mem_filter.mp hb
  exact ⟨List.mem_map_of_mem hb, of_decide_eq_true hid⟩

theorem createPostings_keeps {postings postings' : List Posting}
    (h : createPostings t postings = .ok (t', postings')) :
    t'.balances = t.balances ∧ t'.accounts = t.accounts := by
  simp only [createPostings, guard_eq_ok] at h
  obtain ⟨-, -, -, -, h⟩ := h
  cases h
  exact ⟨rfl, rfl⟩

/-- The part of `Record` that locks: the balances of some accounts, and nothing after them. -/
theorem lockBalances_bind_ascending (hn : (t.balances.map AccountBalance.accountID).Nodup)
    {α : Type} {f : List AccountBalance → Tx α}
    (hf : ∀ bs, Confined (fun r => ∀ k, r.balance? = some k →
      k ∈ t.balances.map AccountBalance.accountID ∧ k ∈ ids) (f bs)) :
    Ascending Row.balance? (lockBalances t ids >>= f) := by
  apply (ascending_of_pairwise (lockBalances_pairwise hn ids)).bind
  intro bs _
  exact (hf bs).mono fun r hr k hk => mem_trace_lockBalances.mpr (hr k hk)

end Balances

section Record

variable {t t' : Tables} {inputs : List PostingInput} {keys : List AccountKey} {ids : List Nat}
  {journalID : Nat}

theorem post_ascending (hn : (t.balances.map AccountBalance.accountID).Nodup) (journalID : Nat)
    (inputs : List PostingInput) : Ascending Row.balance? (post t journalID inputs) := by
  apply ascending_lift_bind
  intro (t', rows) he
  have hn' := (ensureAccounts_preLocked hn he).2.1
  apply ascending_lift_bind
  intro postings _
  apply lockBalances_bind_ascending hn'
  intro bs
  apply Confined.lift_bind
  intro _ _
  apply Confined.lift_bind
  intro (t'', postings') hc
  refine (applyBalanceDeltas_within t'' _).mono fun r hr k hk => ?_
  obtain ⟨hbal, hid⟩ := hr k hk
  rw [(createPostings_keeps hc).1] at hbal
  rw [List.map_map] at hid
  exact ⟨hbal, by simpa using hid⟩

/-- A balance row among the ids, or a row of another table. -/
def BalanceAmong (ids : List Nat) (r : Row) : Prop := ∀ k, r.balance? = some k → k ∈ ids

theorem postingRow_mem {rows : List Account} {i : PostingInput} {p : Posting}
    (h : postingRow journalID rows i = .ok p) : p.accountID ∈ rows.map Account.id := by
  unfold postingRow at h
  split at h
  · rename_i a ha
    cases h
    exact List.mem_map_of_mem (List.mem_of_find?_eq_some ha)
  · cases h

/-- Accounts that are locked already are all that a journal over their keys locks. -/
theorem post_within (hp : PreLocked t keys ids) (hk : ∀ i ∈ inputs, i.key ∈ keys)
    (journalID : Nat) : Confined (BalanceAmong ids) (post t journalID inputs) := by
  apply Confined.lift_bind
  intro (t', rows) he
  apply Confined.lift_bind
  intro postings hm
  have hsub : ∀ id ∈ ((postings.map Posting.accountID).dedup).insertionSort (· ≤ ·), id ∈ ids := by
    intro id hid
    rw [List.mem_insertionSort, List.mem_dedup] at hid
    obtain ⟨p, hpm, rfl⟩ := List.mem_map.mp hid
    obtain ⟨i, -, hi⟩ := forall₂_exists_left (mapM_eq_ok.mp hm) hpm
    obtain ⟨a, ha, hid⟩ := List.mem_map.mp (postingRow_mem hi)
    have hthere : t'.accounts = t.accounts := by
      exact ensureAccounts_there (List.forall_mem_map.mpr fun j hj => hp.there j.key (hk j hj)) he
    obtain ⟨hmem, hkey⟩ := ensureAccounts_returned he ha
    rw [hthere] at hmem
    rw [List.map_map] at hkey
    obtain ⟨j, hj, hjk⟩ := List.mem_map.mp hkey
    rw [← hid]
    exact hp.held a hmem (hjk ▸ hk j hj)
  apply Confined.bind
  · constructor
    intro r hr k hrk
    exact hsub k (mem_trace_lockBalances.mp (List.mem_filterMap.mpr ⟨r, hr, hrk⟩)).2
  · intro bs _
    apply Confined.lift_bind
    intro _ _
    apply Confined.lift_bind
    intro (t'', postings') _
    refine (applyBalanceDeltas_within t'' _).mono fun r hr k hrk => hsub k ?_
    have hid := (hr k hrk).2
    rw [List.map_map] at hid
    simpa using hid

theorem post_there (hk : ∀ i ∈ inputs, i.key ∈ t.accounts.map Account.key)
    (h : Ledger.post t journalID inputs = .ok t') : t'.accounts = t.accounts := by
  obtain ⟨⟨u, rows⟩, hu, h⟩ := bind_eq_ok.mp h
  obtain ⟨postings, -, h⟩ := bind_eq_ok.mp h
  obtain ⟨bs, -, h⟩ := bind_eq_ok.mp h
  obtain ⟨-, -, h⟩ := bind_eq_ok.mp h
  obtain ⟨⟨v, postings'⟩, hv, h⟩ := bind_eq_ok.mp h
  obtain ⟨-, h⟩ := guard_eq_ok.mp h
  cases h
  exact (createPostings_keeps hv).2.trans (ensureAccounts_there (List.forall_mem_map.mpr hk) hu)

theorem insertOrGet_keeps {entry entry' : JournalEntry} {created : Bool}
    (h : insertOrGet t entry = .ok (t', entry', created)) :
    t'.balances = t.balances ∧ t'.accounts = t.accounts := by
  simp only [insertOrGet, guard_eq_ok] at h
  obtain ⟨-, -, -, -, h⟩ := h
  split at h
  · cases h
    exact ⟨rfl, rfl⟩
  · obtain ⟨-, h⟩ := guard_eq_ok.mp h
    obtain ⟨-, h⟩ := guard_eq_ok.mp h
    cases h
    exact ⟨rfl, rfl⟩

theorem PreLocked.congr (hp : PreLocked t keys ids) (h : t'.accounts = t.accounts) :
    PreLocked t' keys ids :=
  ⟨h ▸ hp.there, h ▸ hp.held⟩

variable {input : JournalInput}

theorem record_ascending (hn : (t.balances.map AccountBalance.accountID).Nodup)
    (input : JournalInput) : Ascending Row.balance? (record t input) := by
  apply ascending_lift_bind
  intro _ _
  apply ascending_lift_bind
  intro (t', entry, created) h
  rw [← (insertOrGet_keeps h).1] at hn
  cases created with
  | true => exact (post_ascending hn _ _).bind_silent fun _ _ => .pure _
  | false => exact ascending_lift_bind fun _ _ => Silent.ascending (.pure _)

theorem record_within (hp : PreLocked t keys ids) (hk : ∀ i ∈ input.postings, i.key ∈ keys) :
    Confined (BalanceAmong ids) (record t input) := by
  apply Confined.lift_bind
  intro _ _
  apply Confined.lift_bind
  intro (t', entry, created) h
  cases created with
  | true => exact (post_within (hp.congr (insertOrGet_keeps h).2) hk _).bind fun _ _ => .pure _
  | false => exact Confined.lift_bind fun _ _ => .pure _

theorem record_preLocked (hp : PreLocked t keys ids) (hk : ∀ i ∈ input.postings, i.key ∈ keys)
    {entry : JournalEntry} {created : Bool} (h : Ledger.record t input = .ok (t', entry, created)) :
    PreLocked t' keys ids := by
  obtain ⟨-, -, h⟩ := bind_eq_ok.mp h
  obtain ⟨⟨u, entry', created'⟩, hu, h⟩ := bind_eq_ok.mp h
  have hpu := hp.congr (insertOrGet_keeps hu).2
  cases created' with
  | true =>
    obtain ⟨v, hv, h⟩ := bind_eq_ok.mp h
    cases h
    exact hpu.congr (post_there (fun i hi => hpu.there _ (hk i hi)) hv)
  | false =>
    obtain ⟨-, -, h⟩ := bind_eq_ok.mp h
    cases h
    exact hpu

end Record

/-! ## Transactions with one journal -/

section Journal

variable {α : Type} {s s' : Store} {P : Row → Prop}

theorem within_orders {x : Tx α} {orders : List OrderRow}
    (h : x.trace = orders.map fun o => .order o.id)
    (hP : ∀ o ∈ orders, P (.order o.id)) : Confined P x := by
  constructor
  rw [h]
  exact List.forall_mem_map.mpr hP

theorem within_balances {x : Tx α} {balances : List AccountBalance}
    (h : x.trace = balances.map fun b => .balance b.accountID)
    (hP : ∀ b ∈ balances, P (.balance b.accountID)) : Confined P x := by
  constructor
  rw [h]
  exact List.forall_mem_map.mpr hP

theorem findByIDForUpdate_silent (s : Store) (id : Nat) :
    Silent Row.balance? (findByIDForUpdate s id) :=
  within_orders rfl fun _ _ => rfl

theorem updateOrderExecution_silent (s : Store) (id : Nat) (filled filledQuote : Decimal)
    (status : OrderStatus) :
    Silent Row.balance? (updateOrderExecution s id filled filledQuote status) :=
  within_orders rfl fun _ _ => rfl

theorem updateOrderExecution_ledger {id : Nat} {filled filledQuote : Decimal} {status : OrderStatus}
    (h : Service.updateOrderExecution s id filled filledQuote status = .ok s') :
    s'.ledger = s.ledger := by
  obtain ⟨-, h⟩ := guard_eq_ok.mp h
  cases h
  rfl

theorem insertTrade_keeps {trade : TradeRow} (h : insertTrade s trade = .ok s') :
    s'.ledger = s.ledger ∧ s'.orders = s.orders := by
  obtain ⟨-, h⟩ := guard_eq_ok.mp h
  cases h
  exact ⟨rfl, rfl⟩

variable (hn : (s.ledger.balances.map AccountBalance.accountID).Nodup)
include hn

theorem recordJournal_ascending (key : JournalKey) (eventType : JournalEventType)
    (referenceType : JournalReferenceType) (referenceID : Nat) (postings : List PostingInput) :
    Ascending Row.balance? (recordJournal s key eventType referenceType referenceID postings) :=
  (record_ascending hn _).bind_silent fun _ _ => .pure _

theorem releaseOrderAssets_ascending (order : OrderRow) (amount : Decimal)
    (reason : ReleaseReason) : Ascending Row.balance? (releaseOrderAssets s order amount reason) :=
  (recordJournal_ascending hn _ _ _ _ _).guard.guard

theorem rejectAcceptedOrder_ascending (order : OrderRow) :
    Ascending Row.balance? (rejectAcceptedOrder s order) :=
  (releaseOrderAssets_ascending hn _ _ _).bind_silent fun _ _ =>
    updateOrderExecution_silent _ _ _ _ _

theorem releaseOrderHold_ascending (order : OrderRow) (remaining : Decimal) :
    Ascending Row.balance? (releaseOrderHold s order remaining) := by
  unfold releaseOrderHold
  cases order.side with
  | buy => exact releaseOrderAssets_ascending hn _ _ _
  | sell => exact releaseOrderAssets_ascending hn _ _ _
  | unknown => exact Silent.ascending (.lift _)

theorem processOrderCancellation_ascending (orderID : Nat) :
    Ascending Row.balance? (processOrderCancellation s orderID) := by
  apply Ascending.guard
  apply (findByIDForUpdate_silent s orderID).bind_ascending
  intro order _
  apply Ascending.guard
  exact (releaseOrderHold_ascending hn _ _).bind_silent fun _ _ =>
    updateOrderExecution_silent _ _ _ _ _

theorem releaseRemain_ascending (order : OrderRow) (remaining : Decimal) :
    Ascending Row.balance? (releaseRemain s order remaining) := by
  unfold releaseRemain
  split
  · exact releaseOrderAssets_ascending hn _ _ _
  · exact Silent.ascending (.lift _)

theorem completeMarketOrder_ascending (input : CompleteMarketOrderInput) :
    Ascending Row.balance? (completeMarketOrder s input) := by
  apply Ascending.guard
  apply (findByIDForUpdate_silent s input.orderID).bind_ascending
  intro order _
  apply Ascending.guard
  apply Ascending.guard
  apply Ascending.guard
  cases order.side with
  | buy =>
    apply ascending_lift_bind
    intro remaining _
    exact (releaseRemain_ascending hn _ _).bind_silent fun _ _ =>
      updateOrderExecution_silent _ _ _ _ _
  | sell =>
    apply Ascending.guard
    exact (releaseRemain_ascending hn _ _).bind_silent fun _ _ =>
      updateOrderExecution_silent _ _ _ _ _
  | unknown => exact Silent.ascending (.lift _)

theorem settleNewTrade_ascending (trade : TradeRow) :
    Ascending Row.balance? (settleNewTrade s trade) := by
  apply ascending_lift_bind
  intro s₁ h₁
  rw [← (insertTrade_keeps h₁).1] at hn
  apply (findByIDForUpdate_silent s₁ _).bind_ascending
  intro buyOrder _
  apply (findByIDForUpdate_silent s₁ _).bind_ascending
  intro sellOrder _
  apply Ascending.guard
  apply Ascending.guard
  apply Ascending.guard
  apply ascending_lift_bind
  intro _ _
  apply ascending_lift_bind
  intro _ _
  apply ascending_lift_bind
  intro (buyer, seller) _
  apply ascending_lift_bind
  intro (buyFilled, buyFilledQuote, buyStatus) _
  apply ascending_lift_bind
  intro (sellFilled, sellFilledQuote, sellStatus) _
  apply ascending_lift_bind
  intro (postings, executionDebit) _
  apply (updateOrderExecution_silent s₁ _ _ _ _).bind_ascending
  intro s₂ h₂
  apply (updateOrderExecution_silent s₂ _ _ _ _).bind_ascending
  intro s₃ h₃
  rw [← updateOrderExecution_ledger h₂, ← updateOrderExecution_ledger h₃] at hn
  apply (recordJournal_ascending hn _ _ _ _ _).bind_silent
  intro s₄ _
  exact Confined.lift_bind fun _ _ => .pure _

theorem settleCreatedTrade_ascending (trade : TradeRow) :
    Ascending Row.balance? (settleCreatedTrade s trade) := by
  unfold settleCreatedTrade
  split
  · exact (settleNewTrade_ascending hn trade).bind_silent fun _ _ => .pure _
  · apply Ascending.guard
    apply Ascending.bind_silent
    · apply settleNewTrade_ascending
      exact hn
    · intro _ _
      exact .pure _

end Journal

theorem settleTrade_ascending {d : Database}
    (hn : (d.ledger.balances.map AccountBalance.accountID).Nodup)
    (trade : TradeRow) (outboxEventID : Nat) :
    Ascending Row.balance? (settleTrade d trade outboxEventID) := by
  apply ascending_lift_bind
  intro trade _
  apply ascending_lift_bind
  intro trade _
  cases d.trades.find? (·.idempotencyKey = trade.idempotencyKey) with
  | some existing => exact ascending_lift_bind fun _ _ => Silent.ascending (.pure _)
  | none => exact (settleCreatedTrade_ascending hn trade).bind_silent fun _ _ => .pure _

theorem insertOrGetByUserRequestKey_ledger (b : Bank) (request : TransferRequest) :
    (insertOrGetByUserRequestKey b request).1.ledger = b.ledger := by
  unfold insertOrGetByUserRequestKey
  simp only
  split <;> rfl

theorem acceptTransfer_ledger {b b' : Bank} {request row : TransferRequest} {created : Bool}
    (h : acceptTransfer b request = .ok (b', row, created)) : b'.ledger = b.ledger := by
  obtain ⟨-, h⟩ := guard_eq_ok.mp h
  cases h
  exact insertOrGetByUserRequestKey_ledger b request

section Transfers

variable {b : Bank} (hn : (b.ledger.balances.map AccountBalance.accountID).Nodup)
include hn

theorem recordTransfer_ascending (key : JournalKey) (eventType : JournalEventType) (requestID : Nat)
    (postings : List PostingInput) :
    Ascending Row.balance? (recordTransfer b key eventType requestID postings) :=
  (record_ascending hn _).bind_silent fun _ _ => .pure _

theorem requestWithdrawal_ascending (input : TransferInput) :
    Ascending Row.balance? (requestWithdrawal b input) := by
  apply ascending_lift_bind
  intro amount _
  apply ascending_lift_bind
  intro (b', row, created) h
  rw [← acceptTransfer_ledger h] at hn
  cases created with
  | true => exact (recordTransfer_ascending hn _ _ _ _).bind_silent fun _ _ => .pure _
  | false => exact Silent.ascending (.pure _)

theorem recordConfirmationJournal_ascending (request : TransferRequest)
    (outcome : TransferOutcome) :
    Ascending Row.balance? (recordConfirmationJournal b request outcome) := by
  unfold recordConfirmationJournal
  cases request.externalRef with
  | none => exact Silent.ascending (.lift _)
  | some ref =>
    cases request.direction <;> cases outcome <;>
      first
        | exact Silent.ascending (.lift _)
        | exact (recordTransfer_ascending hn _ _ _ _).bind_silent fun _ _ => .pure _

theorem resolveTransfer_ascending (input : ResolveInput) :
    Ascending Row.balance? (resolveTransfer b input) := by
  apply Ascending.guard
  apply Ascending.guard
  apply ascending_lift_bind
  intro request _
  apply Ascending.guard
  cases request.status with
  | received => exact Silent.ascending (.lift _)
  | processing =>
    refine (recordConfirmationJournal_ascending ?_ request input.outcome).bind_silent
      fun _ _ => .pure _
    exact hn
  | completed => exact (Silent.ascending (.lift _)).guard
  | failed => exact (Silent.ascending (.lift _)).guard

end Transfers

/-! ## Batches -/

section Batches

variable {α : Type} {t t' : Tables} {specs : List AccountSpec} {rows : List Account} {s s' : Store}
  {keys : List AccountKey} {ids : List Nat} {postings : List PostingInput}

/-- A transaction that ensures and locks its accounts first may go on with them in any order. -/
theorem lockEnsured_ascending (hn : (t.balances.map AccountBalance.accountID).Nodup)
    (he : ensureAccounts t specs = .ok (t', rows)) {f : List AccountBalance → Tx α}
    (hf : ∀ bs, PreLocked t' (specs.map AccountSpec.key) (rows.map Account.id) →
      Confined (BalanceAmong (rows.map Account.id)) (f bs)) :
    Ascending Row.balance?
      (lockBalances t' ((rows.map Account.id).insertionSort (· ≤ ·)) >>= f) := by
  obtain ⟨hp, hn', hcover⟩ := ensureAccounts_preLocked hn he
  apply lockBalances_bind_ascending hn'
  intro bs
  refine (hf bs hp).mono fun r hr k hk => ?_
  exact ⟨hcover k (hr k hk), (List.mem_insertionSort _).mpr (hr k hk)⟩

theorem recordJournal_within (hp : PreLocked s.ledger keys ids)
    (hk : ∀ i ∈ postings, i.key ∈ keys) (key : JournalKey) (eventType : JournalEventType)
    (referenceType : JournalReferenceType) (referenceID : Nat) :
    Confined (BalanceAmong ids)
      (recordJournal s key eventType referenceType referenceID postings) :=
  (record_within hp hk).bind fun _ _ => .pure _

theorem recordJournal_preLocked (hp : PreLocked s.ledger keys ids)
    (hk : ∀ i ∈ postings, i.key ∈ keys) {key : JournalKey} {eventType : JournalEventType}
    {referenceType : JournalReferenceType} {referenceID : Nat}
    (h : Service.recordJournal s key eventType referenceType referenceID postings = .ok s') :
    PreLocked s'.ledger keys ids := by
  obtain ⟨⟨ledger, entry, created⟩, hr, h⟩ := bind_eq_ok.mp h
  cases h
  exact record_preLocked hp hk hr

/-! ### Trades -/

theorem applyAvgBuyPrice_ledger {userID : Nat} {asset : String} {quantity cost : Decimal}
    (h : applyAvgBuyPrice s userID asset quantity cost = .ok s') : s'.ledger = s.ledger := by
  simp only [applyAvgBuyPrice, guard_eq_ok] at h
  obtain ⟨-, -, -, h⟩ := h
  split at h <;> (cases h; rfl)

theorem clearAvgBuyPriceIfEmpty_ledger (s : Store) (userID : Nat) (asset : String) :
    (clearAvgBuyPriceIfEmpty s userID asset).ledger = s.ledger := by
  unfold clearAvgBuyPriceIfEmpty
  split <;> rfl

variable {plan : TradePlan} {plans : List TradePlan} {run run' : BatchRun}

theorem bookTrade_within (hp : PreLocked s.ledger keys ids)
    (hk : ∀ i ∈ plan.postings, i.key ∈ keys) : Confined (BalanceAmong ids) (bookTrade s plan) := by
  apply (recordJournal_within hp hk _ _ _ _).bind
  intro s' _
  exact Confined.lift_bind fun _ _ => .pure _

theorem bookTrade_preLocked (hp : PreLocked s.ledger keys ids)
    (hk : ∀ i ∈ plan.postings, i.key ∈ keys)
    (h : Service.bookTrade s plan = .ok s') : PreLocked s'.ledger keys ids := by
  obtain ⟨s₁, h₁, h⟩ := bind_eq_ok.mp h
  obtain ⟨s₂, h₂, h⟩ := bind_eq_ok.mp h
  cases h
  rw [clearAvgBuyPriceIfEmpty_ledger, applyAvgBuyPrice_ledger h₂]
  exact recordJournal_preLocked hp hk h₁

theorem settleLocked_within (hp : PreLocked run.store.ledger keys ids)
    (hk : ∀ i ∈ plan.postings, i.key ∈ keys) :
    Confined (BalanceAmong ids) (settleLocked run plan) := by
  apply Confined.lift_bind
  intro buyOrder _
  apply Confined.lift_bind
  intro sellOrder _
  apply Confined.lift_bind
  intro _ _
  apply Confined.lift_bind
  intro _ _
  apply Confined.lift_bind
  intro (buyFilled, buyFilledQuote, buyStatus) _
  apply Confined.lift_bind
  intro (sellFilled, sellFilledQuote, sellStatus) _
  exact (bookTrade_within hp hk).bind fun _ _ => .pure _

/-- A trade is booked, and the copies of its orders in memory keep their ids. -/
theorem settleLocked_ok (h : Service.settleLocked run plan = .ok run') :
    Service.bookTrade run.store plan = .ok run'.store ∧
      run'.orders.map OrderRow.id = run.orders.map OrderRow.id := by
  obtain ⟨buyOrder, -, h⟩ := bind_eq_ok.mp h
  obtain ⟨sellOrder, -, h⟩ := bind_eq_ok.mp h
  obtain ⟨-, -, h⟩ := bind_eq_ok.mp h
  obtain ⟨-, -, h⟩ := bind_eq_ok.mp h
  obtain ⟨⟨buyFilled, buyFilledQuote, buyStatus⟩, -, h⟩ := bind_eq_ok.mp h
  obtain ⟨⟨sellFilled, sellFilledQuote, sellStatus⟩, -, h⟩ := bind_eq_ok.mp h
  obtain ⟨s', hs, h⟩ := bind_eq_ok.mp h
  cases h
  exact ⟨hs, (ids_setExecution _ _ _ _ _).trans (ids_setExecution _ _ _ _ _)⟩

theorem settlePlans_within (hk : ∀ p ∈ plans, ∀ i ∈ p.postings, i.key ∈ keys)
    (hp : PreLocked run.store.ledger keys ids) :
    Confined (BalanceAmong ids) (plans.foldlM settleLocked run) := by
  apply Confined.foldlM (fun run => PreLocked run.store.ledger keys ids) _ hp
  intro run plan hm hp
  refine ⟨settleLocked_within hp (hk plan hm), fun run' h => ?_⟩
  rw [settleLocked_result] at h
  exact bookTrade_preLocked hp (hk plan hm) (settleLocked_ok h).1

theorem createTrades_keeps {trades rows : List TradeRow}
    (h : createTrades s trades = .ok (s', rows)) : s'.ledger = s.ledger ∧ s'.orders = s.orders := by
  obtain ⟨⟨u, rs⟩, hu, h⟩ := bind_eq_ok.mp h
  obtain ⟨-, h⟩ := guard_eq_ok.mp h
  cases h
  refine foldlM_invariant (fun r : Store × List TradeRow => r.1.ledger = s.ledger ∧
    r.1.orders = s.orders) (fun r trade r' _ hr h => ?_) ⟨rfl, rfl⟩ hu
  unfold createTrade at h
  simp only at h
  split at h
  · cases h
    exact hr
  · obtain ⟨v, hv, h⟩ := bind_eq_ok.mp h
    cases h
    obtain ⟨hledger, horders⟩ := insertTrade_keeps hv
    exact ⟨hledger.trans hr.1, horders.trans hr.2⟩

theorem settleTradeBatchTx_ascending {d : Database}
    (hn : (d.ledger.balances.map AccountBalance.accountID).Nodup) (items : List TradeBatchItem) :
    Ascending Row.balance? (settleTradeBatchTx d items) := by
  apply ascending_lift_bind
  intro _ _
  apply ascending_lift_bind
  rintro ⟨s, rows⟩ h
  rw [← (createTrades_keeps h).1] at hn
  apply Silent.bind_ascending (within_orders rfl fun _ _ => rfl)
  intro orders _
  apply ascending_lift_bind
  intro participants _
  apply ascending_lift_bind
  intro plans _
  rw [lockBatchAccounts, bind_assoc]
  apply ascending_lift_bind
  rintro ⟨ledger, accounts⟩ he
  simp only [bind_assoc, pure_bind]
  apply lockEnsured_ascending hn he
  intro bs hp
  apply Confined.bind
  · apply settlePlans_within _ hp
    intro p hpm i hi
    exact List.mem_map.mpr ⟨i.spec, List.mem_flatMap.mpr ⟨p, hpm, List.mem_map_of_mem hi⟩, rfl⟩
  · intro run _
    apply Confined.bind (within_of_silent (within_orders rfl fun _ _ => rfl))
    intro s' _
    exact Confined.lift_bind fun _ _ => .pure _

/-! ### Holds -/

variable {reqs reqs' active : List HoldRequest} {order : OrderRow}

theorem holdOrderAssets_within (hp : PreLocked s.ledger keys ids)
    (hk : ∀ i ∈ orderHoldPostings order (holdAmountFor order), i.key ∈ keys) :
    Confined (BalanceAmong ids) (holdOrderAssets s order) := by
  apply Confined.guard
  apply Confined.guard
  exact ⟨(recordJournal_within hp hk _ _ _ _).of_mem⟩

theorem holdOrderAssets_preLocked (hp : PreLocked s.ledger keys ids)
    (hk : ∀ i ∈ orderHoldPostings order (holdAmountFor order), i.key ∈ keys)
    (h : Service.holdOrderAssets s order = .ok s') : PreLocked s'.ledger keys ids := by
  obtain ⟨-, h⟩ := guard_eq_ok.mp h
  obtain ⟨-, h⟩ := guard_eq_ok.mp h
  exact recordJournal_preLocked hp hk (asInsufficientBalance_ok h)

theorem insertOrder_keeps {order' : OrderRow} (h : insertOrder s order = .ok (s', order')) :
    s'.ledger = s.ledger ∧ ∃ id, order' = { order with id := id } := by
  unfold insertOrder at h
  split at h
  · cases h
    exact ⟨rfl, _, rfl⟩
  · obtain ⟨-, h⟩ := guard_eq_ok.mp h
    cases h
    exact ⟨rfl, _, rfl⟩

theorem insertOrders_keeps (h : insertOrders s reqs = .ok (s', reqs')) :
    s'.ledger = s.ledger ∧ ∀ req' ∈ reqs', ∃ req ∈ reqs, ∃ id,
    req'.order = { req.order with id := id } := by
  induction reqs generalizing s s' reqs' with
  | nil =>
    cases h
    exact ⟨rfl, fun _ hm => absurd hm List.not_mem_nil⟩
  | cons req reqs ih =>
    obtain ⟨⟨s₁, order⟩, h₁, h⟩ := bind_eq_ok.mp h
    obtain ⟨⟨s₂, reqs₂⟩, h₂, h⟩ := bind_eq_ok.mp h
    cases h
    obtain ⟨hledger, hreqs⟩ := ih h₂
    obtain ⟨hledger₁, horder⟩ := insertOrder_keeps h₁
    refine ⟨hledger.trans hledger₁, fun req' hm => ?_⟩
    rcases List.mem_cons.mp hm with rfl | hm
    · exact ⟨req, List.mem_cons_self, horder⟩
    · obtain ⟨r, hr, hid⟩ := hreqs req' hm
      exact ⟨r, List.mem_cons_of_mem _ hr, hid⟩

theorem holdPostings_keys {req : HoldRequest} (hreq : req ∈ active)
    {id : Nat} (ho : order = { req.order with id := id }) (amount : Decimal) :
    ∀ i ∈ orderHoldPostings order amount, i.key ∈ (holdSpecs active).map AccountSpec.key := by
  have hspec : ∀ spec ∈ [⟨.userAvailable, some req.order.userID, orderHoldAsset req.order⟩,
      ⟨.userLocked, some req.order.userID, orderHoldAsset req.order⟩],
      AccountSpec.key spec ∈ (holdSpecs active).map AccountSpec.key := fun spec hs =>
    List.mem_map_of_mem (List.mem_flatMap.mpr ⟨req, hreq, hs⟩)
  intro i hi
  subst ho
  rcases List.mem_cons.mp hi with rfl | hi
  · exact hspec _ List.mem_cons_self
  · obtain rfl := List.mem_singleton.mp hi
    exact hspec _ (List.mem_cons_of_mem _ List.mem_cons_self)

theorem holdPassing_within {s : Intake} (hsub : reqs ⊆ active)
    (hp : PreLocked s.ledger ((holdSpecs active).map AccountSpec.key) ids) :
    Confined (BalanceAmong ids) (holdPassing s reqs) := by
  apply Confined.lift_bind
  intro (store, reqs') h
  obtain ⟨hledger, hreqs⟩ := insertOrders_keeps h
  have hkeys : ∀ req' ∈ reqs', ∀ i ∈ orderHoldPostings req'.order (holdAmountFor req'.order),
      i.key ∈ (holdSpecs active).map AccountSpec.key := by
    intro req' hm
    obtain ⟨req, hreq, id, ho⟩ := hreqs req' hm
    exact holdPostings_keys (hsub hreq) ho _
  apply Confined.bind
  · apply Confined.foldlM
      (fun store => PreLocked store.ledger ((holdSpecs active).map AccountSpec.key) ids)
    · intro store req' hm hp
      refine ⟨holdOrderAssets_within hp (hkeys req' hm), fun store' h => ?_⟩
      rw [holdOrderAssets_result] at h
      exact holdOrderAssets_preLocked hp (hkeys req' hm) h
    · exact hp.congr (congrArg Tables.accounts hledger)
  · intro store' _
    exact Confined.lift_bind fun _ _ => .pure _

theorem insertNew_store (s : Intake) (records : List OrderIdempotencyKey) :
    (insertNew s records).1.toStore = s.toStore := by
  induction records generalizing s with
  | nil => rfl
  | cons record records ih =>
    have hkey : (insertKey s record).1.toStore = s.toStore := by
      unfold insertKey
      simp only
      split <;> rfl
    exact (ih _).trans hkey

theorem deleteByIDs_store {s s' : Intake} {recordIDs : List Nat}
    (h : deleteByIDs s recordIDs = .ok s') : s'.toStore = s.toStore := by
  unfold deleteByIDs at h
  simp only at h
  split at h
  · cases h
    rfl
  · obtain ⟨-, h⟩ := guard_eq_ok.mp h
    obtain ⟨-, h⟩ := guard_eq_ok.mp h
    cases h
    rfl

theorem holdBatch_ascending {s : Intake}
    (hn : (s.ledger.balances.map AccountBalance.accountID).Nodup)
    (reqs : List HoldRequest) : Ascending Row.balance? (holdBatch s reqs) := by
  refine Ascending.bind_silent ?_ fun _ _ => .pure _
  apply ascending_lift_bind
  intro (s₁, claims) h
  obtain ⟨-, h⟩ := guard_eq_ok.mp h
  cases h
  rw [← insertNew_store s] at hn
  apply ascending_lift_bind
  intro (ledger, accounts) he
  apply lockEnsured_ascending hn he
  intro bs hp
  apply Confined.lift_bind
  intro s₂ hd
  have hledger : s₂.ledger = ledger := congrArg Store.ledger (deleteByIDs_store hd)
  exact (holdPassing_within (passing_sublist _ _).subset
    (hp.congr (congrArg Tables.accounts hledger))).bind fun _ _ => .pure _

end Batches

end GoExchange.Locks
