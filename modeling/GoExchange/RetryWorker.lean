import GoExchange.Failures

/-!
# The retry worker

`RunOnce` goes through the open failed settlements, then the deferred market
completions and then the deferred cancellations. Each phase reads the oldest
open rows, one page of them, and decides for each whether it may be tried again.
An attempt that ends in a statement timeout stops the run.
-/
namespace GoExchange.Retry

open Service
open SettlementErrors (isTransientFailedSettlementCategory)

/-- A row of one of the three tables, with what a list is ordered by. -/
structure Listed (α : Type) where
  id : Nat
  occurredAt : Nat
  row : α
  deriving DecidableEq, Repr

variable {α σ : Type}

/-! ## The pages -/

def defaultFailedSettlementListLimit : Int := 50
def maxFailedSettlementListLimit : Int := 200
def settlementRetryBatchLimit : Int := 50

def normalizeFailedSettlementListLimit (limit : Int) : Int :=
  if limit ≤ 0 then defaultFailedSettlementListLimit
  else if maxFailedSettlementListLimit < limit then maxFailedSettlementListLimit
  else limit

/-- `ORDER BY occurred_at, id`. -/
def Listed.older (r r' : Listed α) : Prop :=
  r.occurredAt < r'.occurredAt ∨ r.occurredAt = r'.occurredAt ∧ r.id ≤ r'.id

instance : DecidableRel (Listed.older (α := α)) :=
  fun r r' => by unfold Listed.older; infer_instance

/-- `FindOpen` of the three repositories. -/
def findOpen (record : α → FailureRecord) (table : List (Listed α)) (limit : Int) :
    List (Listed α) :=
  ((table.filter fun r => (record r.row).status = .opened).insertionSort Listed.older).take
    (normalizeFailedSettlementListLimit limit).toNat

def listOpenFailures (record : α → FailureRecord) (table : List (Listed α)) (limit : Int) :
    List (Listed α) :=
  findOpen record table (normalizeFailedSettlementListLimit limit)

/-! ## The phases -/

/-- The three tables, and the rest of the database. -/
structure State (σ : Type) where
  world : σ
  settlements : List (Listed FailedSettlement)
  completions : List (Listed FailedMarketCompletion)
  cancellations : List (Listed FailedOrderCancellation)

/-- The services behind the worker, and its cap on retries if one is set. -/
structure Worker (σ : Type) where
  settleTrade : TradeRow → σ → σ × Except CallError Unit
  completeMarketOrder : CompleteMarketOrderInput → σ → σ × Except CallError Unit
  processOrderCancellation : OrderCancelled → σ → σ × Except CallError Unit
  configuredMax : Nat

def Worker.maxRetryCount (w : Worker σ) : Nat :=
  if 0 < w.configuredMax then w.configuredMax else Service.maxRetryCount

/-- What a phase has done: the rows it tried, the state it leaves, and whether it was stopped. -/
structure Phase (σ α : Type) where
  attempted : List (Listed α)
  state : State σ
  stopped : Bool

def isStatementTimeoutStopSignal (e : CallError) : Bool := e == .database .queryCanceled

/-- A pass over a page. -/
structure Pass (σ α : Type) where
  /-- Whether the row is to be tried now; an error ends the phase. -/
  isDue : Listed α → State σ → Except DomainError Bool
  attempt : Listed α → State σ → State σ × Except CallError Unit
  recordFailure : Listed α → CallError → State σ → State σ
  resolveFailure : Listed α → State σ → State σ

def Pass.run (pass : Pass σ α) : List (Listed α) → State σ → Phase σ α
  | [], s => ⟨[], s, false⟩
  | r :: rs, s =>
    match pass.isDue r s with
    | .error _ => ⟨[], s, false⟩
    | .ok false => pass.run rs s
    | .ok true =>
      match pass.attempt r s with
      | (s, .ok _) =>
        let rest := pass.run rs (pass.resolveFailure r s)
        { rest with attempted := r :: rest.attempted }
      | (s, .error e) =>
        let s := pass.recordFailure r e s
        if isStatementTimeoutStopSignal e then ⟨[r], s, true⟩
        else
          let rest := pass.run rs s
          { rest with attempted := r :: rest.attempted }

section

variable (w : Worker σ)

/-- What `HasOpenFailureForOrder` sees. -/
def State.openFailureForOrder (s : State σ) (orderID : Nat) : Except DomainError Bool :=
  if orderID = 0 then .error ⟨.other, "order id is required"⟩
  else .ok (hasOpenFailureForOrder (s.settlements.map Listed.row) orderID)

def settlementPass : Pass σ FailedSettlement where
  isDue r _ := .ok (isTransientFailedSettlementCategory (classifyFailedSettlement r.row) &&
    decide (r.row.retryCount < w.maxRetryCount))
  attempt r s :=
    let (world, result) := w.settleTrade (tradeFromFailedSettlement r.row) s.world
    ({ s with world := world }, result)
  recordFailure r e s :=
    match failedSettlementFromTrade (tradeFromFailedSettlement r.row) e with
    | .error _ => s
    | .ok failure => { s with
      settlements := Rows.modify (fun f => f.row.tradeIdempotencyKey) failure.tradeIdempotencyKey
        (fun f => { f with row := FailedSettlement.again e f.row }) s.settlements }
  resolveFailure r s := { s with
    settlements := Rows.modify Listed.id r.id
      (fun f => { f with row := { f.row with toFailureRecord := f.row.toFailureRecord.resolve } })
      s.settlements }

/-- The check of the two phases for deferred events. -/
def deferredDue (r : Listed (Deferred α)) (s : State σ) : Except DomainError Bool :=
  if w.maxRetryCount ≤ r.row.retryCount then .ok false
  else (s.openFailureForOrder r.row.orderID).map (! ·)

def againDeferred (orderID : Nat) (e : CallError) (rows : List (Listed (Deferred α))) :
    List (Listed (Deferred α)) :=
  Rows.modify (fun f => f.row.orderID) orderID
    (fun f => { f with row := Deferred.again e f.row }) rows

def resolveListed (id : Nat) (rows : List (Listed (Deferred α))) : List (Listed (Deferred α)) :=
  Rows.modify Listed.id id
    (fun f => { f with row := { f.row with toFailureRecord := f.row.toFailureRecord.resolve } })
    rows

def completionPass : Pass σ FailedMarketCompletion where
  isDue := deferredDue w
  attempt r s :=
    let (world, result) := w.completeMarketOrder (completionInputOf r.row) s.world
    ({ s with world := world }, result)
  recordFailure r e s :=
    match failedMarketCompletionFrom (completionInputOf r.row) r.row.payload.coinSymbol e 1 with
    | .error _ => s
    | .ok failure => { s with completions := againDeferred failure.orderID e s.completions }
  resolveFailure r s := { s with completions := resolveListed r.id s.completions }

def orderCancelledFromFailure (failure : FailedOrderCancellation) : OrderCancelled where
  commandID := 0
  orderID := failure.orderID
  coinSymbol := failure.payload.coinSymbol
  side := failure.payload.side
  eventID := failure.payload.eventID

def cancellationPass : Pass σ FailedOrderCancellation where
  isDue := deferredDue w
  attempt r s :=
    let (world, result) := w.processOrderCancellation (orderCancelledFromFailure r.row) s.world
    ({ s with world := world }, result)
  recordFailure r e s :=
    match failedOrderCancellationFrom (orderCancelledFromFailure r.row)
      r.row.payload.outboxEventID e 1 with
    | .error _ => s
    | .ok failure => { s with cancellations := againDeferred failure.orderID e s.cancellations }
  resolveFailure r s := { s with cancellations := resolveListed r.id s.cancellations }

def settlementPage (s : State σ) : List (Listed FailedSettlement) :=
  listOpenFailures FailedSettlement.toFailureRecord s.settlements settlementRetryBatchLimit

def deferredPage (rows : List (Listed (Deferred α))) : List (Listed (Deferred α)) :=
  listOpenFailures Deferred.toFailureRecord rows settlementRetryBatchLimit

def retryFailedSettlements (s : State σ) : Phase σ FailedSettlement :=
  (settlementPass w).run (settlementPage s) s

def retryFailedCompletions (s : State σ) : Phase σ FailedMarketCompletion :=
  (completionPass w).run (deferredPage s.completions) s

def retryFailedCancellations (s : State σ) : Phase σ FailedOrderCancellation :=
  (cancellationPass w).run (deferredPage s.cancellations) s

/-- A run: a phase that is not reached is missing. -/
structure Run (σ : Type) where
  settlements : Phase σ FailedSettlement
  completions : Option (Phase σ FailedMarketCompletion)
  cancellations : Option (Phase σ FailedOrderCancellation)

def runOnce (s : State σ) : Run σ :=
  let first := retryFailedSettlements w s
  if first.stopped then ⟨first, none, none⟩
  else
    let second := retryFailedCompletions w first.state
    if second.stopped then ⟨first, some second, none⟩
    else ⟨first, some second, some (retryFailedCancellations w second.state)⟩

end

/-! ## What a phase tries -/

variable {w : Worker σ} {s : State σ} {pass : Pass σ α}

theorem mem_findOpen {record : α → FailureRecord} {table : List (Listed α)} {limit : Int}
    {r : Listed α}
    (h : r ∈ findOpen record table limit) : r ∈ table ∧ (record r.row).status = .opened := by
  have hin := List.mem_filter.mp ((List.mem_insertionSort _).mp (List.mem_of_mem_take h))
  exact ⟨hin.1, of_decide_eq_true hin.2⟩

theorem Pass.attempted_subset (rs : List (Listed α)) (s : State σ) :
    (pass.run rs s).attempted ⊆ rs := by
  induction rs generalizing s with
  | nil => simp [Pass.run]
  | cons r rs ih =>
    have hcons : ∀ t, r :: (pass.run rs t).attempted ⊆ r :: rs :=
      fun t => List.cons_subset_cons r (ih t)
    rw [Pass.run]
    split
    · exact List.nil_subset _
    · exact List.subset_cons_of_subset r (ih s)
    · split
      · exact hcons _
      · simp only
        split
        · exact List.cons_subset_cons r (List.nil_subset rs)
        · exact hcons _

/-- The first row of the page that is due is tried: nothing has happened before it. -/
theorem Pass.attempts_iff (pass : Pass σ α) (rs : List (Listed α)) (s : State σ)
    (hcheck : ∀ r ∈ rs, ∃ due, pass.isDue r s = .ok due) :
    (∃ r ∈ (pass.run rs s).attempted, pass.isDue r s = .ok true) ↔
    ∃ r ∈ rs, pass.isDue r s = .ok true := by
  constructor
  · rintro ⟨r, hr, hdue⟩
    exact ⟨r, Pass.attempted_subset rs s hr, hdue⟩
  · rintro ⟨r, hr, hdue⟩
    induction rs with
    | nil => cases hr
    | cons q rs ih =>
      obtain ⟨due, hq⟩ := hcheck q List.mem_cons_self
      rw [Pass.run, hq]
      cases due with
      | false =>
        have hne : r ≠ q := by
          rintro rfl
          rw [hq] at hdue
          cases hdue
        exact ih (fun r hr => hcheck r (List.mem_cons_of_mem q hr))
          ((List.mem_cons.mp hr).resolve_left hne)
      | true =>
        refine ⟨q, ?_, hq⟩
        simp only
        split
        · exact List.mem_cons_self
        · split
          · exact List.mem_cons_self
          · exact List.mem_cons_self

theorem Pass.run_keeps (pass : Pass σ α) {P : State σ → Prop}
    (hattempt : ∀ r s, P s → P (pass.attempt r s).1)
    (hrecord : ∀ r e s, P s → P (pass.recordFailure r e s))
    (hresolve : ∀ r s, P s → P (pass.resolveFailure r s))
    (rs : List (Listed α)) (s : State σ) (h : P s) : P (pass.run rs s).state := by
  induction rs generalizing s with
  | nil => exact h
  | cons r rs ih =>
    rw [Pass.run]
    split
    · exact h
    · exact ih s h
    · have htried := hattempt r s h
      split
      · rename_i t _ ht
        rw [ht] at htried
        exact ih _ (hresolve r t htried)
      · rename_i t e ht
        rw [ht] at htried
        simp only
        split
        · exact hrecord r e t htried
        · exact ih _ (hrecord r e t htried)

/-! ## Rows that may be tried again -/

/-- An open failed settlement of a transient category below the cap. -/
def Worker.Retriable (w : Worker σ) (r : Listed FailedSettlement) : Prop :=
  r.row.status = .opened ∧
    isTransientFailedSettlementCategory (classifyFailedSettlement r.row) = true ∧
    r.row.retryCount < w.maxRetryCount

/-- An open deferred event below the cap, with no open failed settlement of its order. -/
def Worker.Unblocked (w : Worker σ) (s : State σ) (r : Listed (Deferred α)) : Prop :=
  r.row.status = .opened ∧ r.row.retryCount < w.maxRetryCount ∧
    hasOpenFailureForOrder (s.settlements.map Listed.row) r.row.orderID = false

/-- If a row of the table is due, one of the rows chosen is. -/
def Serves {β : Type} (table chosen : List β) (due : β → Prop) : Prop :=
  (∃ r ∈ table, due r) → ∃ r ∈ chosen, due r

theorem served {β : Type} {table page chosen : List β} {due : β → Prop}
    (h : Serves table chosen due ↔ Serves table page due) (hpage : ∀ r ∈ page, r ∈ table)
    (hdue : ∃ r ∈ page, due r) : ∃ r ∈ chosen, due r := by
  obtain ⟨r, hr, hr'⟩ := hdue
  exact h.mpr (fun _ => ⟨r, hr, hr'⟩) ⟨r, hpage r hr, hr'⟩

theorem retriable_iff {r : Listed FailedSettlement} (hopen : r.row.status = .opened) :
    w.Retriable r ↔ (settlementPass w).isDue r s = .ok true := by
  simp [Worker.Retriable, settlementPass, hopen]

theorem unblocked_iff {r : Listed (Deferred α)} (hopen : r.row.status = .opened)
    (hid : r.row.orderID ≠ 0) : w.Unblocked s r ↔ deferredDue w r s = .ok true := by
  unfold Worker.Unblocked deferredDue State.openFailureForOrder
  rw [if_neg hid]
  split <;> rename_i hcap
  · simp [Nat.not_lt.mpr hcap]
  · simp [hopen, Nat.lt_of_not_le hcap, Except.map]

theorem retryFailedSettlements_serves (w : Worker σ) (s : State σ) :
    (∃ r ∈ (retryFailedSettlements w s).attempted, w.Retriable r) ↔
    ∃ r ∈ settlementPage s, w.Retriable r := by
  have hopen : ∀ r ∈ settlementPage s, r.row.status = .opened := fun r hr => (mem_findOpen hr).2
  have hall := (settlementPass w).attempts_iff (settlementPage s) s fun r _ => ⟨_, rfl⟩
  constructor
  · rintro ⟨r, hr, hdue⟩
    exact ⟨r, Pass.attempted_subset _ s hr, hdue⟩
  · rintro ⟨r, hr, hdue⟩
    obtain ⟨q, hq, hqdue⟩ := hall.mpr ⟨r, hr, (retriable_iff (hopen r hr)).mp hdue⟩
    exact ⟨q, hq, (retriable_iff (hopen q (Pass.attempted_subset _ s hq))).mpr hqdue⟩

/-- The two phases for deferred events, whatever their rows. -/
theorem deferred_serves (pass : Pass σ (Deferred α)) (hpass : pass.isDue = deferredDue w)
    {rows : List (Listed (Deferred α))} (hids : ∀ r ∈ rows, r.row.orderID ≠ 0) (s : State σ) :
    (∃ r ∈ (pass.run (deferredPage rows) s).attempted, w.Unblocked s r) ↔
      ∃ r ∈ deferredPage rows, w.Unblocked s r := by
  have hrow : ∀ r ∈ deferredPage rows, r.row.status = .opened ∧ r.row.orderID ≠ 0 :=
    fun r hr => ⟨(mem_findOpen hr).2, hids r (mem_findOpen hr).1⟩
  have hcheck : ∀ r ∈ deferredPage rows, ∃ due, pass.isDue r s = .ok due := by
    intro r hr
    rw [hpass, deferredDue, State.openFailureForOrder, if_neg (hrow r hr).2]
    split
    · exact ⟨_, rfl⟩
    · exact ⟨_, rfl⟩
  have hall := pass.attempts_iff (deferredPage rows) s hcheck
  rw [hpass] at hall
  constructor
  · rintro ⟨r, hr, hdue⟩
    exact ⟨r, Pass.attempted_subset _ s hr, hdue⟩
  · rintro ⟨r, hr, hdue⟩
    obtain ⟨q, hq, hqdue⟩ := hall.mpr ⟨r, hr, (unblocked_iff (hrow r hr).1 (hrow r hr).2).mp hdue⟩
    have hqrow := hrow q (Pass.attempted_subset _ s hq)
    exact ⟨q, hq, (unblocked_iff hqrow.1 hqrow.2).mpr hqdue⟩

/-- The first phase leaves the deferred events alone. -/
theorem retryFailedSettlements_keeps (w : Worker σ) (s : State σ) :
    (retryFailedSettlements w s).state.completions = s.completions ∧
      (retryFailedSettlements w s).state.cancellations = s.cancellations := by
  refine (settlementPass w).run_keeps (P := fun t => t.completions = s.completions ∧
    t.cancellations = s.cancellations)
    (fun r t h => h) (fun r e t h => ?_) (fun r t h => h) (settlementPage s) s ⟨rfl, rfl⟩
  simp only [settlementPass]
  split
  · exact h
  · exact h

theorem retryFailedCompletions_keeps (w : Worker σ) (s : State σ) :
    (retryFailedCompletions w s).state.cancellations = s.cancellations := by
  refine (completionPass w).run_keeps (P := fun t => t.cancellations = s.cancellations)
    (fun r t h => h) (fun r e t h => ?_) (fun r t h => h) (deferredPage s.completions) s rfl
  simp only [completionPass]
  split
  · exact h
  · exact h

theorem runOnce_eq_first (w : Worker σ) (s : State σ) :
    (runOnce w s).settlements = retryFailedSettlements w s := by
  unfold runOnce
  simp only
  split
  · rfl
  · split <;> rfl

theorem runOnce_eq_second {second : Phase σ FailedMarketCompletion}
    (h : (runOnce w s).completions = some second) :
    second = retryFailedCompletions w (retryFailedSettlements w s).state := by
  unfold runOnce at h
  simp only at h
  split at h
  · cases h
  · split at h <;> exact (Option.some.inj h).symm

theorem runOnce_eq_third {third : Phase σ FailedOrderCancellation}
    (h : (runOnce w s).cancellations = some third) : third = retryFailedCancellations w
      (retryFailedCompletions w (retryFailedSettlements w s).state).state := by
  unfold runOnce at h
  simp only at h
  split at h
  · cases h
  · split at h
    · cases h
    · exact (Option.some.inj h).symm

/-- Each phase that is reached tries a row that may be tried again, if there is one in the database
in which it starts, exactly if there is one among the oldest open rows that make up its page. -/
theorem runOnce_serves_iff (w : Worker σ) (s : State σ)
    (hcompletions : ∀ r ∈ s.completions, r.row.orderID ≠ 0)
    (hcancellations : ∀ r ∈ s.cancellations, r.row.orderID ≠ 0) :
    (Serves s.settlements (runOnce w s).settlements.attempted w.Retriable ↔
      Serves s.settlements (settlementPage s) w.Retriable) ∧
    (∀ second, (runOnce w s).completions = some second →
      (Serves (runOnce w s).settlements.state.completions second.attempted
        (w.Unblocked (runOnce w s).settlements.state) ↔
        Serves (runOnce w s).settlements.state.completions
          (deferredPage (runOnce w s).settlements.state.completions)
          (w.Unblocked (runOnce w s).settlements.state))) ∧
    (∀ second third, (runOnce w s).completions = some second →
      (runOnce w s).cancellations = some third →
      (Serves second.state.cancellations third.attempted (w.Unblocked second.state) ↔
        Serves second.state.cancellations (deferredPage second.state.cancellations)
          (w.Unblocked second.state))) := by
  obtain ⟨hkeep, hkeep'⟩ := retryFailedSettlements_keeps w s
  refine ⟨?_, fun second hsecond => ?_, fun second third hsecond hthird => ?_⟩
  · rw [Serves, Serves, runOnce_eq_first, retryFailedSettlements_serves]
  · have hids : ∀ r ∈ (retryFailedSettlements w s).state.completions, r.row.orderID ≠ 0 :=
      hkeep ▸ hcompletions
    rw [runOnce_eq_second hsecond, runOnce_eq_first]
    have hserves := deferred_serves (completionPass w) rfl hids (retryFailedSettlements w s).state
    rw [Serves, Serves, retryFailedCompletions, hserves]
  · have hids :
        ∀ r ∈ (retryFailedCompletions w (retryFailedSettlements w s).state).state.cancellations,
        r.row.orderID ≠ 0 := by
      rw [retryFailedCompletions_keeps, hkeep']
      exact hcancellations
    rw [runOnce_eq_third hthird, runOnce_eq_second hsecond]
    have hserves := deferred_serves (cancellationPass w) rfl hids
      (retryFailedCompletions w (retryFailedSettlements w s).state).state
    rw [Serves, Serves, retryFailedCancellations, hserves]

/-- A failed settlement, number `id`, of the orders `2 * id` and `2 * id + 1`. -/
def failedSettlement (id : Nat) (error : CallError) : Listed FailedSettlement :=
  ⟨id, id,
    { toTrade := ⟨⟨1, id⟩, "BTC", 10, 1, 2 * id, 2 * id + 1⟩
      error := error
      status := .opened
      retryCount := 1
      tradeIdempotencyKey := s!"engine:1-{id}"
      buyerFee := 0
      sellerFee := 0
      feeRate := 0 }⟩

/-- A worker whose attempts all succeed. -/
def workingWorker : Worker Unit :=
  ⟨fun _ s => (s, .ok ()), fun _ s => (s, .ok ()), fun _ s => (s, .ok ()), 0⟩

/-- A deferred event of the order. -/
def deferred (id orderID retryCount : Nat) (payload : α) : Listed (Deferred α) :=
  ⟨id, id, ⟨⟨.database .deadlockDetected, .opened, retryCount⟩, orderID, payload⟩⟩

/-- Of the fifty rows on the page of the settlements only the last may be tried again. Of the
completions one waits for such a settlement, and one of the cancellations is at the cap. -/
def crowded : State Unit :=
  ⟨(), (List.range 49).map
    (fun i => failedSettlement (i + 1) (.refused ⟨.other, "order is cancelled"⟩)) ++
    [failedSettlement 50 (.database .deadlockDetected)],
    [deferred 1 2 1 ⟨"BTC", 1, 0, 0⟩, deferred 2 200 1 ⟨"BTC", 1, 0, 0⟩],
    [deferred 1 201 5 ⟨1, "BTC", .sell, ⟨1, 1⟩⟩, deferred 2 202 1 ⟨2, "BTC", .sell, ⟨1, 2⟩⟩]⟩

instance (r : Listed FailedSettlement) :
    Decidable (w.Retriable r) := by unfold Worker.Retriable; infer_instance

instance (r : Listed (Deferred α)) :
    Decidable (w.Unblocked s r) := by unfold Worker.Unblocked; infer_instance

theorem runOnce_serves_crowded :
    ∃ second third, (runOnce workingWorker crowded).completions = some second ∧
    (runOnce workingWorker crowded).cancellations = some third ∧
    (∃ r ∈ (runOnce workingWorker crowded).settlements.attempted, workingWorker.Retriable r) ∧
    (∃ r ∈ second.attempted,
      workingWorker.Unblocked (runOnce workingWorker crowded).settlements.state r) ∧
    ∃ r ∈ third.attempted, workingWorker.Unblocked second.state r := by
  have hreached : (runOnce workingWorker crowded).completions.isSome = true ∧
      (runOnce workingWorker crowded).cancellations.isSome = true := by decide +kernel
  obtain ⟨second, hsecond⟩ := Option.isSome_iff_exists.mp hreached.1
  obtain ⟨third, hthird⟩ := Option.isSome_iff_exists.mp hreached.2
  obtain ⟨hsettlements, hcompletions, hcancellations⟩ :=
    runOnce_serves_iff workingWorker crowded (by decide) (by decide)
  refine ⟨second, third, hsecond, hthird, served hsettlements (fun r hr => (mem_findOpen hr).1)
    (by decide +kernel),
    served (hcompletions second hsecond) (fun r hr => (mem_findOpen hr).1) (by decide +kernel),
    served (hcancellations second third hsecond hthird) (fun r hr => (mem_findOpen hr).1) ?_⟩
  rw [runOnce_eq_second hsecond]
  decide +kernel

/-- Fifty settlements that were refused for good, and behind them one that ended in a deadlock. -/
def starved : State Unit :=
  ⟨(), (List.range 50).map
    (fun i => failedSettlement (i + 1) (.refused ⟨.other, "order is cancelled"⟩)) ++
    [failedSettlement 51 (.database .deadlockDetected)], [], []⟩

/-- The run tries nothing, and leaves the database as it was for the next one. -/
theorem runOnce_starves : (∃ r ∈ starved.settlements, workingWorker.Retriable r) ∧
    (runOnce workingWorker starved).settlements.attempted = [] ∧
    (runOnce workingWorker starved).settlements.state.settlements = starved.settlements := by
  have hdue : workingWorker.Retriable (failedSettlement 51 (.database .deadlockDetected)) := by
    refine ⟨rfl, rfl, ?_⟩
    decide
  refine ⟨⟨_, List.mem_append_right _ List.mem_cons_self, hdue⟩, ?_, ?_⟩
  · decide +kernel
  · decide +kernel

end GoExchange.Retry
