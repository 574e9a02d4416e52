import GoExchange.OutboxWriter
import GoExchange.Paging

/-!
# Replay of the outbox

`OutboxReplayer.Replay` of `outbox_replayer.go`: at start the rows that are
PENDING are handed to `Process` in pages, and each one that was handled is
marked. The pages are read from a table that changes as rows are marked. What
`Process` and the store answer may depend on all calls before.
-/
namespace GoExchange.Replay

open Outbox Rows

/-- What `MarkProcessed` can meet: the statement fails, or it commits and the answer is lost. -/
inductive MarkFault where
  | failed | lost
  deriving DecidableEq, Repr

inductive Call where
  | process (sourceOutboxID : Nat) (event : ExecutionEvent) (durable : Bool)
  | mark (id : Nat) (marked : Bool)
  deriving DecidableEq, Repr

structure OutboxReplayResult where
  replayed : Nat
  deferred : Nat
  undurable : Nat
  corrupted : Nat
  deriving DecidableEq, Repr

variable {β : Type}

/-- The payloads, and the answers of `Process` and of the store given the calls so far. -/
structure Outside (β : Type) where
  unmarshalTrade : β → Except String Trade
  unmarshalMarketOrderDone : β → Except String MarketOrderDone
  unmarshalOrderCancelled : β → Except String OrderCancelled
  process : List Call → Nat → ExecutionEvent → Bool
  find : List Call → Nat → Option String
  mark : List Call → Nat → Option MarkFault

/-- The table, the calls made so far and the counters. -/
structure Run (β : Type) where
  outbox : List (Row β)
  calls : List Call
  result : OutboxReplayResult

/-! ## The repository -/

def pendingRows (outbox : List (Row β)) : List (Row β) :=
  outbox.filter fun row => row.status = .pending

/-- `WHERE status = 'PENDING' AND id > afterID ORDER BY id LIMIT limit`. -/
def findPendingAfter (outbox : List (Row β)) (afterID limit : Nat) : List (Row β) :=
  (Paging.after Row.id (pendingRows outbox) afterID).take limit

def setProcessed (outbox : List (Row β)) (id : Nat) : List (Row β) :=
  modify Row.id id ({ · with status := .processed }) outbox

/-- The table after the statement, and whether it returned no error. -/
def markProcessed (outbox : List (Row β)) (id : Nat) : Option MarkFault → List (Row β) × Bool
  | some .failed => (outbox, false)
  | some .lost => (setProcessed outbox id, false)
  | none => (setProcessed outbox id, outbox.any fun row => row.id = id)

/-! ## The replayer -/

section

variable (o : Outside β)

def executionEventFromOutbox (row : Row β) : Except String ExecutionEvent :=
  match row.eventType with
  | .trade =>
    match o.unmarshalTrade row.payload with
    | .ok trade => .ok (.trade trade)
    | .error e => .error s!"unmarshal trade outbox payload {row.id}: {e}"
  | .marketOrderDone =>
    match o.unmarshalMarketOrderDone row.payload with
    | .ok done => .ok (.marketOrderDone done)
    | .error e => .error s!"unmarshal market order done outbox payload {row.id}: {e}"
  | .orderCancelled =>
    match o.unmarshalOrderCancelled row.payload with
    | .ok cancelled => .ok (.orderCancelled cancelled)
    | .error e => .error s!"unmarshal order cancelled outbox payload {row.id}: {e}"

/-- `Process` has been called for a row. -/
def Run.processed (s : Run β) (row : Row β) (event : ExecutionEvent) (durable : Bool) : Run β :=
  { s with calls := s.calls ++ [.process row.id event durable] }

/-- A handled row is marked; a failure is only counted. -/
def markRow (row : Row β) (s : Run β) : Run β :=
  match markProcessed s.outbox row.id (o.mark s.calls row.id) with
  | (outbox, false) =>
    ⟨outbox, s.calls ++ [.mark row.id false], { s.result with deferred := s.result.deferred + 1 }⟩
  | (outbox, true) =>
    ⟨outbox, s.calls ++ [.mark row.id true], { s.result with replayed := s.result.replayed + 1 }⟩

/-- One row of the loop: the run after it, and the error that ends the replay. -/
def replayRow (row : Row β) (s : Run β) : Run β × Option String :=
  match executionEventFromOutbox o row with
  | .error e =>
    ({ s with result := { s.result with corrupted := s.result.corrupted + 1 } },
      some s!"corrupted outbox event {row.id}: {e}")
  | .ok event =>
    if o.process s.calls row.id event then (markRow o row (s.processed row event true), none)
    else
      ({ s.processed row event false with
        result := { s.result with undurable := s.result.undurable + 1 } },
        some s!"outbox event {row.id} not durably handled")

/-- The rows of a page, and the last id they leave in `afterID`. -/
def replayRows : List (Row β) → Nat → Run β → Run β × Except String Nat
  | [], afterID, s => (s, .ok afterID)
  | row :: rows, _, s =>
    match replayRow o row s with
    | (s, some e) => (s, .error e)
    | (s, none) => replayRows rows row.id s

/-- The loop over pages; nothing if `fuel` pages are not enough. -/
def replayFrom (limit : Nat) : Nat → Nat → Run β → Option (Run β × Option String)
  | 0, _, _ => none
  | fuel + 1, afterID, s =>
    match o.find s.calls afterID with
    | some e => some (s, some ("load pending outbox events: " ++ e))
    | none =>
      let rows := findPendingAfter s.outbox afterID limit
      if rows.isEmpty then some (s, none)
      else
        match replayRows o rows afterID s with
        | (s, .error e) => some (s, some e)
        | (s, .ok afterID) =>
          if rows.length < limit then some (s, none) else replayFrom limit fuel afterID s

def defaultOutboxReplayPageSize : Nat := 500

def pageSize (configured : Int) : Nat :=
  if 0 < configured then configured.toNat else defaultOutboxReplayPageSize

def replay (configured : Int) (outbox : List (Row β)) (fuel : Nat) :
    Option (Run β × Option String) :=
  replayFrom o (pageSize configured) fuel 0 ⟨outbox, [], ⟨0, 0, 0, 0⟩⟩

end

variable {o : Outside β} {s s' : Run β} {row : Row β} {rows outbox outbox' : List (Row β)}
  {e : String} {cursor limit id : Nat}

/-! ## One row -/

/-- A row behind which the replay goes on: it was decoded, `Process` was called once and said that
it is handled, and then `MarkProcessed` was called once. -/
def Handled (o : Outside β) (row : Row β) (calls : List Call) : Prop :=
  ∃ event marked, executionEventFromOutbox o row = .ok event ∧
    calls = [.process row.id event true, .mark row.id marked]

/-- The replay without pages: one row after the other until one stops it, or until the store does
not answer. -/
inductive Pass (o : Outside β) : List (Row β) → Run β → Run β → Option String → Prop where
  | finished {s : Run β} : Pass o [] s s none
  | unread {s : Run β} {rows : List (Row β)} {cursor : Nat} {e : String}
      (h : o.find s.calls cursor = some e) :
      Pass o rows s s (some ("load pending outbox events: " ++ e))
  | stopped {s s' : Run β} {row : Row β} {rows : List (Row β)} {e : String}
      (h : replayRow o row s = (s', some e)) : Pass o (row :: rows) s s' (some e)
  | next {s s₁ s' : Run β} {row : Row β} {rows : List (Row β)} {err : Option String}
      (h : replayRow o row s = (s₁, none)) (hrest : Pass o rows s₁ s' err) :
      Pass o (row :: rows) s s' err

/-- The table has the same ids, and the same rows behind the cursor. -/
structure KeptBehind (cursor : Nat) (outbox outbox' : List (Row β)) : Prop where
  ids : outbox'.map Row.id = outbox.map Row.id
  rows : ∀ row, cursor < row.id → (row ∈ outbox' ↔ row ∈ outbox)

theorem KeptBehind.refl : KeptBehind cursor outbox outbox := ⟨rfl, fun _ _ => Iff.rfl⟩

theorem KeptBehind.trans {outbox'' : List (Row β)} (h : KeptBehind cursor outbox outbox')
    (h' : KeptBehind cursor outbox' outbox'') : KeptBehind cursor outbox outbox'' :=
  ⟨h'.ids.trans h.ids, fun row hrow => (h'.rows row hrow).trans (h.rows row hrow)⟩

theorem map_id_setProcessed (outbox : List (Row β)) (id : Nat) :
    (setProcessed outbox id).map Row.id = outbox.map Row.id :=
  map_modify Row.id fun _ _ _ => rfl

theorem mem_setProcessed (hne : row.id ≠ id) : row ∈ setProcessed outbox id ↔ row ∈ outbox := by
  rw [setProcessed, mem_modify]
  constructor
  · rintro (⟨r, -, hid, rfl⟩ | ⟨hrow, -⟩)
    · exact absurd hid hne
    · exact hrow
  · exact fun hrow => .inr ⟨hrow, hne⟩

theorem KeptBehind.setProcessed (h : id ≤ cursor) :
    KeptBehind cursor outbox (setProcessed outbox id) :=
  ⟨map_id_setProcessed outbox id, fun _ hrow => mem_setProcessed (by omega)⟩

theorem KeptBehind.after (h : KeptBehind cursor outbox outbox') (hn : (outbox.map Row.id).Nodup) :
    Paging.after Row.id (pendingRows outbox') cursor =
      Paging.after Row.id (pendingRows outbox) cursor := by
  have hn' : (outbox'.map Row.id).Nodup := by rwa [h.ids]
  apply Paging.after_congr (hn'.sublist (List.filter_sublist.map Row.id))
    (hn.sublist (List.filter_sublist.map Row.id))
  intro row hrow
  simp only [List.mem_filter, h.rows row hrow]

/-! ## Pages -/

/-- The row as the settlement has it: its payload is the event that is read from it. -/
def readRow (o : Outside β) (row : Row β) : Option Service.TradeOutboxEvent :=
  match executionEventFromOutbox o row with
  | .ok event => some ⟨row.id, event, row.status⟩
  | .error _ => none

/-- What is read is what was written. -/
structure Reads (o : Outside β) (marshal : ExecutionEvent → Except String β) : Prop where
  trade : ∀ t payload, marshal (.trade t) = .ok payload → o.unmarshalTrade payload = .ok t
  done : ∀ d payload, marshal (.marketOrderDone d) = .ok payload →
    o.unmarshalMarketOrderDone payload = .ok d
  cancelled : ∀ c payload, marshal (.orderCancelled c) = .ok payload →
    o.unmarshalOrderCancelled payload = .ok c

/-- A row that the outbox writer makes is pending with its event. -/
theorem readRow_newTradeOutboxEvent {marshal : ExecutionEvent → Except String β}
    (h : Reads o marshal)
    {pointers : EventPointers} (hrow : newTradeOutboxEvent marshal pointers = .ok row) :
    ∃ event, marshal event = .ok row.payload ∧ readRow o row = some ⟨0, event, .pending⟩ := by
  unfold newTradeOutboxEvent at hrow
  split at hrow
  · split at hrow
    · cases hrow
      exact ⟨_, ‹_›, by simp [readRow, executionEventFromOutbox, h.trade _ _ ‹_›]⟩
    · cases hrow
  · split at hrow
    · cases hrow
      exact ⟨_, ‹_›, by simp [readRow, executionEventFromOutbox, h.done _ _ ‹_›]⟩
    · cases hrow
  · split at hrow
    · cases hrow
      exact ⟨_, ‹_›, by simp [readRow, executionEventFromOutbox, h.cancelled _ _ ‹_›]⟩
    · cases hrow
  · cases hrow

/-- Marking a row marks what is read from it. -/
theorem readRow_setProcessed (o : Outside β) (outbox : List (Row β)) (id : Nat) :
    (setProcessed outbox id).filterMap (readRow o) =
      Rows.modify Service.TradeOutboxEvent.id id Service.setProcessed
        (outbox.filterMap (readRow o)) := by
  have hevent : ∀ row : Row β, readRow o { row with status := .processed } =
      (readRow o row).map Service.setProcessed := by
    intro row
    have hsame : executionEventFromOutbox o { row with status := .processed } =
        executionEventFromOutbox o row := rfl
    unfold readRow
    rw [hsame]
    cases executionEventFromOutbox o row <;> rfl
  have hid : ∀ row event, readRow o row = some event → event.id = row.id := by
    intro row event h
    unfold readRow at h
    split at h <;> cases h
    rfl
  induction outbox with
  | nil => rfl
  | cons row outbox ih =>
    simp only [setProcessed, Rows.modify, List.map_cons, List.filterMap_cons] at ih ⊢
    by_cases hrow : row.id = id
    · rw [if_pos hrow, hevent]
      cases hread : readRow o row with
      | none => exact ih
      | some event => simp [ih, hid row event hread, hrow]
    · rw [if_neg hrow]
      cases hread : readRow o row with
      | none => exact ih
      | some event => simp [ih, hid row event hread, hrow]

end GoExchange.Replay
