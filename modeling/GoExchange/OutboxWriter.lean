import GoExchange.Core
import GoExchange.SettlementBatch

/-!
# The outbox writer

`flushAndForward` stores a batch of execution events and tries again until the
store accepts it. Rows keep the ids a failed attempt has filled in, so a later
attempt inserts them under the same ids. The store may fail before it commits,
and it may commit and lose the answer. The intent to cancel an order is stored
in `cancel_commands` before the engine hears of it, and the writer marks it in
the transaction that commits the engine's event.
-/
namespace GoExchange.Outbox

open Service

inductive CancelCommandStatus where
  | pending | processed | noop
  deriving DecidableEq, Repr

structure CancelCommand where
  id : Nat
  orderID : Nat
  userID : Nat
  coinSymbol : String
  side : OrderSide
  price : Decimal
  status : CancelCommandStatus
  deriving DecidableEq, Repr

/-- `matching.ExecutionEvent` as it is sent: three pointers, any of which may be nil. -/
structure EventPointers where
  trade : Option Trade
  marketOrderDone : Option MarketOrderDone
  orderCancelled : Option OrderCancelled
  deriving DecidableEq, Repr

inductive EventType where
  | trade | marketOrderDone | orderCancelled
  deriving DecidableEq, Repr

/-- A row of `trade_outbox_events` with its payload; the id is 0 until the store has given one. -/
structure Row (β : Type) where
  id : Nat
  eventType : EventType
  coinSymbol : String
  engineEventID : Option EventID
  payload : β
  status : TradeOutboxStatus
  deriving DecidableEq, Repr

/-- The two tables and the sequence that gives ids, which is not rolled back. -/
structure Database (β : Type) where
  outbox : List (Row β)
  commands : List CancelCommand
  sequence : Nat
  deriving DecidableEq, Repr

/-- How the store fails an attempt: it rolls back after it has given out ids for the first `filled`
rows and `gap` more, or it commits and the answer is lost. -/
inductive Fault where
  | failed (filled gap : Nat)
  | lost
  deriving DecidableEq, Repr

variable {β : Type}

/-! ## One batch -/

section

variable (marshal : ExecutionEvent → Except String β)

/-- The first pointer that is not nil decides. -/
def newTradeOutboxEvent (event : EventPointers) : Except String (Row β) :=
  match event.trade, event.marketOrderDone, event.orderCancelled with
  | some t, _, _ =>
    match marshal (.trade t) with
    | .ok payload => .ok ⟨0, .trade, t.coinSymbol, some t.eventID, payload, .pending⟩
    | .error e => .error ("marshal trade outbox payload: " ++ e)
  | none, some d, _ =>
    match marshal (.marketOrderDone d) with
    | .ok payload => .ok ⟨0, .marketOrderDone, d.coinSymbol, none, payload, .pending⟩
    | .error e => .error ("marshal market order done outbox payload: " ++ e)
  | none, none, some c =>
    match marshal (.orderCancelled c) with
    | .ok payload => .ok ⟨0, .orderCancelled, c.coinSymbol, some c.eventID, payload, .pending⟩
    | .error e => .error ("marshal order cancelled outbox payload: " ++ e)
  | none, none, none => .error "execution event has neither trade nor market order done"

/-- The command a stored event carries: only that of a row which is a cancellation. -/
def carried (row : Row β) (event : EventPointers) : List Nat :=
  match row.eventType, event.orderCancelled with
  | .orderCancelled, some c => if c.commandID ≠ 0 then [c.commandID] else []
  | _, _ => []

/-- The rows of a batch, each with its event. One that cannot be encoded is dropped. -/
def encode : List EventPointers → List (Row β × EventPointers)
  | [] => []
  | event :: events =>
    match newTradeOutboxEvent marshal event with
    | .error _ => encode events
    | .ok row => (row, event) :: encode events

def commandIDs (batch : List (Row β × EventPointers)) : List Nat :=
  batch.flatMap fun x => carried x.1 x.2

end

def dedupeNonzero (seen : List Nat) : List Nat → List Nat
  | [] => []
  | value :: values =>
    if value = 0 ∨ value ∈ seen then dedupeNonzero seen values
    else value :: dedupeNonzero (value :: seen) values

/-! ## The transaction -/

/-- Ids for the first `n` rows from the sequence; a row that has one keeps it. -/
def fillIDs : Nat → Nat → List (Row β) → List (Row β) × Nat
  | 0, seq, rows => (rows, seq)
  | _, seq, [] => ([], seq)
  | n + 1, seq, row :: rows =>
    if row.id = 0 then
      let (rows, seq') := fillIDs n (seq + 1) rows
      ({ row with id := seq + 1 } :: rows, seq')
    else
      let (rows, seq') := fillIDs n seq rows
      (row :: rows, seq')

def isMarked (ids : List Nat) (c : CancelCommand) : Bool :=
  decide (c.id ∈ ids) && decide (c.status = .pending)

def markProcessed (ids : List Nat) (commands : List CancelCommand) : List CancelCommand :=
  commands.map fun c => if isMarked ids c then { c with status := .processed } else c

/-- The store after an attempt, the rows with the ids filled in, and the error it returns. -/
structure Attempted (β : Type) where
  database : Database β
  rows : List (Row β)
  error : Option String

/-- The body of the transaction on a store that works. -/
def insertAndMark (db : Database β) (rows : List (Row β)) (ids : List Nat) : Attempted β :=
  let (filled, seq) := fillIDs rows.length db.sequence rows
  if ¬ (filled.map Row.id).Nodup ∨ ∃ row ∈ filled, row.id ∈ db.outbox.map Row.id then
    ⟨{ db with sequence := seq }, rows, some "duplicate key value violates unique constraint"⟩
  else
    let affected := (db.commands.filter (isMarked ids)).length
    if ids ≠ [] ∧ affected ≠ ids.length then
      ⟨{ db with sequence := seq }, filled,
        some s!"mark cancel commands processed affected {affected} rows, expected {ids.length}"⟩
    else ⟨⟨db.outbox ++ filled, markProcessed ids db.commands, seq⟩, filled, none⟩

def insertBatchAndMarkCancelCommands (db : Database β) (rows : List (Row β)) (commandIDs : List Nat)
    (fault : Option Fault) : Attempted β :=
  let ids := dedupeNonzero [] commandIDs
  if rows = [] then
    if ids = [] then ⟨db, rows, none⟩
    else ⟨db, rows,
      some s!"refusing to mark {ids.length} cancel commands processed without outbox events"⟩
  else
    match fault with
    | none => insertAndMark db rows ids
    | some .lost =>
      let done := insertAndMark db rows ids
      { done with error := some (done.error.getD "connection lost") }
    | some (.failed filled gap) =>
      let (rows, seq) := fillIDs filled db.sequence rows
      ⟨{ db with sequence := seq + gap }, rows, some "store failed"⟩

/-! ## The loop -/

/-- A call of `flushAndForward`. -/
structure Writer (β : Type) where
  database : Database β
  rows : List (Row β)
  forwarded : List (Nat × EventPointers)
  returned : Bool

section

variable (marshal : ExecutionEvent → Except String β) (events : List EventPointers)

/-- The call before its first attempt; with no rows it returns at once. -/
def start (db : Database β) : Writer β :=
  let rows := (encode marshal events).map Prod.fst
  ⟨db, rows, [], rows = []⟩

/-- One round of the loop, and what is forwarded after the last. -/
def attempt (w : Writer β) (fault : Option Fault) : Writer β :=
  if w.returned then w
  else
    let done := insertBatchAndMarkCancelCommands w.database w.rows
      (commandIDs (encode marshal events)) fault
    match done.error with
    | some _ => { w with database := done.database, rows := done.rows }
    | none =>
      ⟨done.database, done.rows, (done.rows.map Row.id).zip ((encode marshal events).map Prod.snd),
        true⟩

/-- The call under the faults of its attempts, one for each. -/
def flushAndForward (db : Database β) (faults : List (Option Fault)) : Writer β :=
  faults.foldl (attempt marshal events) (start marshal events db)

end

/-! ## The ids of the rows -/

variable {db : Database β} {rows : List (Row β)} {ids : List Nat} {lo seq n : Nat}

/-- The row without its id. -/
def Row.unnumbered (row : Row β) : Row β := { row with id := 0 }

/-- The ids given so far come from the sequence since `lo`, each once. -/
structure Numbered (lo seq : Nat) (rows : List (Row β)) : Prop where
  range : ∀ row ∈ rows, row.id = 0 ∨ lo < row.id ∧ row.id ≤ seq
  distinct : rows.Pairwise fun r r' => r.id = 0 ∨ r.id ≠ r'.id

theorem le_fillIDs (n seq : Nat) (rows : List (Row β)) : seq ≤ (fillIDs n seq rows).2 := by
  fun_induction fillIDs n seq rows with
  | case1 | case2 => exact Nat.le_refl _
  | case3 n seq row rows hid rows' seq' heq ih =>
    rw [heq] at ih
    exact Nat.le_of_succ_le ih
  | case4 n seq row rows hid rows' seq' heq ih =>
    rw [heq] at ih
    exact ih

theorem unnumbered_fillIDs (n seq : Nat) (rows : List (Row β)) :
    (fillIDs n seq rows).1.map Row.unnumbered = rows.map Row.unnumbered := by
  fun_induction fillIDs n seq rows <;> simp_all [Row.unnumbered]

theorem fillIDs_ne_nil (h : rows ≠ []) : (fillIDs n seq rows).1 ≠ [] := by
  intro he
  have := unnumbered_fillIDs n seq rows
  rw [he] at this
  exact h (List.map_eq_nil_iff.mp this.symm)

theorem fillIDs_of_ne (h : ∀ row ∈ rows, row.id ≠ 0) : fillIDs n seq rows = (rows, seq) := by
  fun_induction fillIDs n seq rows <;> simp_all

theorem fillIDs_ne (seq : Nat) (hn : rows.length ≤ n) :
    ∀ row ∈ (fillIDs n seq rows).1, row.id ≠ 0 := by
  fun_induction fillIDs n seq rows <;> simp_all

/-- An id is the one the row had, or it is new. -/
theorem mem_fillIDs (n seq : Nat) (rows : List (Row β)) : ∀ row ∈ (fillIDs n seq rows).1,
    (∃ r ∈ rows, r.id = row.id) ∨ seq < row.id ∧ row.id ≤ (fillIDs n seq rows).2 := by
  fun_induction fillIDs n seq rows with
  | case1 n rows => exact fun row hrow => .inl ⟨row, hrow, rfl⟩
  | case2 n seq => simp
  | case3 n seq row rows hid rows' seq' heq ih =>
    have hle : seq + 1 ≤ seq' := by
      have := le_fillIDs n (seq + 1) rows
      rwa [heq] at this
    simp only [heq] at ih
    intro r hr
    rcases List.mem_cons.mp hr with rfl | hr
    · exact .inr ⟨Nat.lt_succ_self seq, hle⟩
    · rcases ih r hr with ⟨r', hr', he⟩ | ⟨hlt, hle'⟩
      · exact .inl ⟨r', List.mem_cons_of_mem _ hr', he⟩
      · exact .inr ⟨Nat.lt_of_succ_lt hlt, hle'⟩
  | case4 n seq row rows hid rows' seq' heq ih =>
    simp only [heq] at ih
    intro r hr
    rcases List.mem_cons.mp hr with rfl | hr
    · exact .inl ⟨r, List.mem_cons_self, rfl⟩
    · rcases ih r hr with ⟨r', hr', he⟩ | hnew
      · exact .inl ⟨r', List.mem_cons_of_mem _ hr', he⟩
      · exact .inr hnew

theorem Numbered.later {seq' : Nat} (h : Numbered lo seq rows) (hle : seq ≤ seq') :
    Numbered lo seq' rows where
  range row hrow := (h.range row hrow).imp id fun hr => ⟨hr.1, hr.2.trans hle⟩
  distinct := h.distinct

theorem distinct_fillIDs (n seq : Nat) (rows : List (Row β)) (hle : ∀ row ∈ rows, row.id ≤ seq)
    (hdistinct : rows.Pairwise fun r r' => r.id = 0 ∨ r.id ≠ r'.id) :
    (fillIDs n seq rows).1.Pairwise fun r r' => r.id = 0 ∨ r.id ≠ r'.id := by
  fun_induction fillIDs n seq rows with
  | case1 n rows => exact hdistinct
  | case2 n seq => exact .nil
  | case3 n seq row rows hid rows' seq' heq ih =>
    obtain ⟨-, htail⟩ := List.pairwise_cons.mp hdistinct
    have hrest : ∀ r ∈ rows, r.id ≤ seq := fun r hr => hle r (List.mem_cons_of_mem _ hr)
    have hnew := mem_fillIDs n (seq + 1) rows
    have := ih (fun r hr => (hrest r hr).trans (Nat.le_succ seq)) htail
    simp only [heq] at this hnew
    refine List.pairwise_cons.mpr ⟨fun r hr => .inr ?_, this⟩
    change seq + 1 ≠ r.id
    -- behind the new id stand old ones, which are smaller, and later ones
    rcases hnew r hr with ⟨r', hr', he⟩ | ⟨hlt, -⟩
    · have := hrest r' hr'
      omega
    · omega
  | case4 n seq row rows hid rows' seq' heq ih =>
    obtain ⟨hhead, htail⟩ := List.pairwise_cons.mp hdistinct
    have hnew := mem_fillIDs n seq rows
    have := ih (fun r hr => hle r (List.mem_cons_of_mem _ hr)) htail
    simp only [heq] at this hnew
    refine List.pairwise_cons.mpr ⟨fun r hr => .inr ?_, this⟩
    rcases hnew r hr with ⟨r', hr', he⟩ | ⟨hlt, -⟩
    · exact he ▸ (hhead r' hr').resolve_left hid
    · have := hle row List.mem_cons_self
      omega

theorem Numbered.fillIDs (h : Numbered lo seq rows) (hlo : lo ≤ seq) (n : Nat) :
    Numbered lo (fillIDs n seq rows).2 (fillIDs n seq rows).1 := by
  have hle := le_fillIDs n seq rows
  have hids : ∀ row ∈ rows, row.id ≤ seq := by
    intro row hrow
    rcases h.range row hrow with hz | hr
    · omega
    · exact hr.2
  refine ⟨fun row hrow => ?_, distinct_fillIDs n seq rows hids h.distinct⟩
  rcases mem_fillIDs n seq rows row hrow with ⟨r, hr, he⟩ | ⟨hlt, hle'⟩
  · rw [← he]
    exact (h.later hle).range r hr
  · exact .inr ⟨Nat.lt_of_le_of_lt hlo hlt, hle'⟩

/-! ## The commands of a batch -/

theorem mem_dedupeNonzero {id : Nat} (seen values : List Nat) :
    id ∈ dedupeNonzero seen values ↔ id ∈ values ∧ id ≠ 0 ∧ id ∉ seen := by
  induction values generalizing seen with
  | nil => simp [dedupeNonzero]
  | cons value values ih =>
    rw [dedupeNonzero]
    split <;> rename_i hskip
    · rw [ih, List.mem_cons]
      constructor
      · rintro ⟨hin, hrest⟩
        exact ⟨.inr hin, hrest⟩
      · rintro ⟨rfl | hin, hne, hnot⟩
        · exact (hskip.elim hne hnot).elim
        · exact ⟨hin, hne, hnot⟩
    · rw [not_or] at hskip
      rw [List.mem_cons, ih, List.mem_cons, List.mem_cons]
      constructor
      · rintro (rfl | ⟨hin, hne, hnot⟩)
        · exact ⟨.inl rfl, hskip⟩
        · exact ⟨.inr hin, hne, fun hs => hnot (.inr hs)⟩
      · rintro ⟨rfl | hin, hne, hnot⟩
        · exact .inl rfl
        · by_cases he : id = value
          · exact .inl he
          · exact .inr ⟨hin, hne, by simp [he, hnot]⟩

theorem nodup_dedupeNonzero (seen values : List Nat) : (dedupeNonzero seen values).Nodup := by
  induction values generalizing seen with
  | nil => exact .nil
  | cons value values ih =>
    rw [dedupeNonzero]
    split
    · exact ih seen
    · refine List.nodup_cons.mpr ⟨fun hin => ?_, ih _⟩
      exact ((mem_dedupeNonzero _ _).mp hin).2.2 List.mem_cons_self

theorem commandIDs_ne_zero {batch : List (Row β × EventPointers)} {id : Nat}
    (h : id ∈ commandIDs batch) : id ≠ 0 := by
  obtain ⟨x, -, hx⟩ := List.mem_flatMap.mp h
  unfold carried at hx
  split at hx
  · split at hx
    · rename_i hne
      rw [List.mem_singleton.mp hx]
      exact hne
    · cases hx
  · cases hx

/-- Every carried command waits in the store. -/
def Waiting (ids : List Nat) (commands : List CancelCommand) : Prop :=
  ∀ id ∈ ids, ∃ c ∈ commands, c.id = id ∧ c.status = .pending

instance (ids : List Nat) (commands : List CancelCommand) : Decidable (Waiting ids commands) := by
  unfold Waiting; infer_instance

theorem affected_iff_waiting {commands : List CancelCommand} (hids : ids.Nodup)
    (hcommands : (commands.map CancelCommand.id).Nodup) :
    (commands.filter (isMarked ids)).length = ids.length ↔ Waiting ids commands := by
  have hmem : ∀ id, id ∈ (commands.filter (isMarked ids)).map CancelCommand.id ↔
      id ∈ ids ∧ ∃ c ∈ commands, c.id = id ∧ c.status = .pending := by
    intro id
    simp only [List.mem_map, List.mem_filter, isMarked, Bool.and_eq_true, decide_eq_true_eq]
    constructor
    · rintro ⟨c, ⟨hc, hin, hpending⟩, rfl⟩
      exact ⟨hin, c, hc, rfl, hpending⟩
    · rintro ⟨hin, c, hc, rfl, hpending⟩
      exact ⟨c, ⟨hc, hin, hpending⟩, rfl⟩
  have hnodup : ((commands.filter (isMarked ids)).map CancelCommand.id).Nodup :=
    hcommands.sublist (List.filter_sublist.map _)
  have hsub : ((commands.filter (isMarked ids)).map CancelCommand.id).Subperm ids :=
    List.subperm_of_subset hnodup fun id hin => ((hmem id).mp hin).1
  rw [← List.length_map CancelCommand.id]
  constructor
  · intro hlen id hin
    have hperm := hsub.perm_of_length_le hlen.ge
    exact ((hmem id).mp (hperm.mem_iff.mpr hin)).2
  · intro hw
    have hback := List.subperm_of_subset hids fun id hin => (hmem id).mpr ⟨hin, hw id hin⟩
    exact Nat.le_antisymm hsub.length_le hback.length_le

/-! ## What an attempt does -/

structure Database.Wf (db : Database β) : Prop where
  ids : ∀ row ∈ db.outbox, row.id ≤ db.sequence
  commands : (db.commands.map CancelCommand.id).Nodup

/-- Rows whose ids are theirs are stored, if their commands wait. -/
theorem insertAndMark_stores (h : Numbered lo db.sequence rows) (hlo : lo ≤ db.sequence)
    (hbelow : ∀ row ∈ db.outbox, row.id ≤ lo) (hids : ids.Nodup)
    (hcommands : (db.commands.map CancelCommand.id).Nodup) (hw : Waiting ids db.commands) :
    insertAndMark db rows ids =
      ⟨⟨db.outbox ++ (fillIDs rows.length db.sequence rows).1, markProcessed ids db.commands,
      (fillIDs rows.length db.sequence rows).2⟩,
      (fillIDs rows.length db.sequence rows).1, none⟩ := by
  have hnum := h.fillIDs hlo rows.length
  have hne := fillIDs_ne db.sequence (le_refl rows.length)
  have haffected := (affected_iff_waiting hids hcommands).mpr hw
  unfold insertAndMark
  simp only
  rw [if_neg, if_neg]
  · exact fun hbad => hbad.2 haffected
  · rintro (hdup | ⟨row, hrow, hin⟩)
    · refine hdup (List.pairwise_map.mpr (hnum.distinct.imp_of_mem fun ha _ hab => ?_))
      exact hab.resolve_left (hne _ ha)
    · obtain ⟨old, hold, he⟩ := List.mem_map.mp hin
      have hrange := (hnum.range row hrow).resolve_left (hne row hrow)
      have := hbelow old hold
      omega

/-- A command that does not wait fails the transaction. -/
theorem insertAndMark_refuses (hrows : rows ≠ []) (hids : ids.Nodup)
    (hcommands : (db.commands.map CancelCommand.id).Nodup) (hw : ¬ Waiting ids db.commands) :
    ∃ seq' rows' e,
      insertAndMark db rows ids = ⟨{ db with sequence := seq' }, rows', some e⟩ ∧ rows' ≠ [] := by
  have haffected : ¬ (db.commands.filter (isMarked ids)).length = ids.length :=
    fun he => hw ((affected_iff_waiting hids hcommands).mp he)
  have hne : ids ≠ [] := by
    rintro rfl
    exact hw fun id hid => by cases hid
  unfold insertAndMark
  simp only
  split
  · exact ⟨_, _, _, rfl, hrows⟩
  · rw [if_pos ⟨hne, haffected⟩]
    exact ⟨_, _, _, rfl, fillIDs_ne_nil hrows⟩

/-- A row that is stored already cannot be stored again. -/
theorem insertAndMark_conflicts (ids : List Nat) (hne : ∀ row ∈ rows, row.id ≠ 0) {row : Row β}
    (hrow : row ∈ rows) (hin : row.id ∈ db.outbox.map Row.id) :
    insertAndMark db rows ids =
      ⟨db, rows, some "duplicate key value violates unique constraint"⟩ := by
  unfold insertAndMark
  rw [fillIDs_of_ne hne]
  simp only
  rw [if_pos (.inr ⟨row, hrow, hin⟩)]

/-! ## What the loop does -/

section

variable {marshal : ExecutionEvent → Except String β} {events : List EventPointers} {w : Writer β}
  {commands : List CancelCommand}

/-- Attempts have failed, and none of them has left anything but ids. -/
structure Trying (marshal : ExecutionEvent → Except String β) (events : List EventPointers)
    (db : Database β) (w : Writer β) : Prop where
  running : w.returned = false
  silent : w.forwarded = []
  outbox : w.database.outbox = db.outbox
  commands : w.database.commands = db.commands
  later : db.sequence ≤ w.database.sequence
  rows : w.rows.map Row.unnumbered = (encode marshal events).map Prod.fst
  numbered : Numbered db.sequence w.database.sequence w.rows

/-- An attempt has stored the rows and did not say so. -/
structure Stuck (w : Writer β) : Prop where
  running : w.returned = false
  silent : w.forwarded = []
  nonempty : w.rows ≠ []
  ids : ∀ row ∈ w.rows, row.id ≠ 0
  stored : ∀ row ∈ w.rows, row.id ∈ w.database.outbox.map Row.id

/-- A command of the batch does not wait. -/
structure Refused (ids : List Nat) (w : Writer β) : Prop where
  running : w.returned = false
  silent : w.forwarded = []
  nonempty : w.rows ≠ []
  commands : (w.database.commands.map CancelCommand.id).Nodup
  missing : ¬ Waiting ids w.database.commands

theorem encode_unnumbered : ∀ x ∈ encode marshal events, x.1.id = 0 := by
  induction events with
  | nil => simp [encode]
  | cons event events ih =>
    rw [encode]
    split
    · exact ih
    · rename_i row hrow
      intro x hx
      rcases List.mem_cons.mp hx with rfl | hx
      · unfold newTradeOutboxEvent at hrow
        split at hrow
        all_goals first
          | cases hrow
          | (split at hrow <;> cases hrow; rfl)
      · exact ih x hx

theorem start_trying (db : Database β) (hne : encode marshal events ≠ []) :
    Trying marshal events db (start marshal events db) where
  running := by simp [start, hne]
  silent := rfl
  outbox := rfl
  commands := rfl
  later := le_refl _
  rows := by
    simp only [start, List.map_map]
    refine List.map_congr_left fun x hx => ?_
    have := encode_unnumbered x hx
    simp only [Function.comp_apply, Row.unnumbered, ← this]
  numbered := by
    have hzero : ∀ row ∈ (encode marshal events).map Prod.fst, row.id = 0 := by
      intro row hrow
      obtain ⟨x, hx, rfl⟩ := List.mem_map.mp hrow
      exact encode_unnumbered x hx
    exact ⟨fun row hrow => .inl (hzero row hrow), List.pairwise_iff_forall_sublist.mpr fun hsub =>
      .inl (hzero _ (hsub.subset List.mem_cons_self))⟩

theorem Trying.rows_ne (h : Trying marshal events db w) (hne : encode marshal events ≠ []) :
    w.rows ≠ [] := by
  intro he
  have := h.rows
  rw [he] at this
  exact hne (List.map_eq_nil_iff.mp this.symm)

theorem Trying.failed (h : Trying marshal events db w) (hne : encode marshal events ≠ [])
    (filled gap : Nat) :
    Trying marshal events db (attempt marshal events w (some (.failed filled gap))) := by
  have hle := le_fillIDs filled w.database.sequence w.rows
  simp only [attempt, h.running, Bool.false_eq_true, if_false, insertBatchAndMarkCancelCommands,
    if_neg (h.rows_ne hne)]
  refine ⟨rfl, h.silent, h.outbox, h.commands, ?_, ?_, ?_⟩
  · have := h.later
    simp only
    omega
  · rw [unnumbered_fillIDs, h.rows]
  · exact (h.numbered.fillIDs h.later filled).later (Nat.le_add_right _ _)

/-- The ids of the commands as the store is asked for them. -/
theorem waiting_dedupe :
    Waiting (dedupeNonzero [] (commandIDs (encode marshal events))) commands ↔
      Waiting (commandIDs (encode marshal events)) commands := by
  have hmem : ∀ id, id ∈ dedupeNonzero [] (commandIDs (encode marshal events)) ↔
      id ∈ commandIDs (encode marshal events) := by
    intro id
    rw [mem_dedupeNonzero]
    exact ⟨fun h => h.1, fun h => ⟨h, commandIDs_ne_zero h, List.not_mem_nil⟩⟩
  unfold Waiting
  simp only [hmem]

/-- What the first attempt that reaches a working store leaves there. -/
theorem Trying.insertAndMark_eq (h : Trying marshal events db w) (hdb : db.Wf)
    (hw : Waiting (commandIDs (encode marshal events)) db.commands) :
    insertAndMark w.database w.rows (dedupeNonzero [] (commandIDs (encode marshal events))) =
      let filled := fillIDs w.rows.length w.database.sequence w.rows
      ⟨⟨db.outbox ++ filled.1,
        markProcessed (dedupeNonzero [] (commandIDs (encode marshal events))) db.commands,
        filled.2⟩, filled.1, none⟩ := by
  rw [insertAndMark_stores h.numbered h.later (h.outbox ▸ hdb.ids) (nodup_dedupeNonzero _ _)
    (h.commands ▸ hdb.commands) (h.commands ▸ waiting_dedupe.mpr hw), h.outbox, h.commands]

theorem Trying.lost (h : Trying marshal events db w) (hdb : db.Wf)
    (hne : encode marshal events ≠ [])
    (hw : Waiting (commandIDs (encode marshal events)) db.commands) :
    Stuck (attempt marshal events w (some .lost)) := by
  simp only [attempt, h.running, Bool.false_eq_true, if_false, insertBatchAndMarkCancelCommands,
    if_neg (h.rows_ne hne), h.insertAndMark_eq hdb hw]
  exact ⟨rfl, h.silent, fillIDs_ne_nil (h.rows_ne hne), fillIDs_ne _ (le_refl _),
    fun row hrow => List.mem_map_of_mem (List.mem_append_right _ hrow)⟩

theorem Stuck.attempt (h : Stuck w) (fault : Option Fault) :
    Stuck (attempt marshal events w fault) := by
  obtain ⟨row, hrow⟩ := List.exists_mem_of_ne_nil _ h.nonempty
  have hconflict :=
    insertAndMark_conflicts (dedupeNonzero [] (commandIDs (encode marshal events))) h.ids hrow
    (h.stored row hrow)
  simp only [Outbox.attempt, h.running, Bool.false_eq_true, if_false,
    insertBatchAndMarkCancelCommands, if_neg h.nonempty, hconflict]
  match fault with
  | none | some .lost => exact ⟨rfl, h.silent, h.nonempty, h.ids, h.stored⟩
  | some (.failed filled gap) =>
    simp only [fillIDs_of_ne h.ids]
    exact ⟨rfl, h.silent, h.nonempty, h.ids, h.stored⟩

theorem Refused.attempt (h : Refused (commandIDs (encode marshal events)) w)
    (fault : Option Fault) :
    Refused (commandIDs (encode marshal events)) (attempt marshal events w fault) := by
  obtain ⟨seq', rows', e, hrefused, hrows⟩ := insertAndMark_refuses h.nonempty
    (nodup_dedupeNonzero [] (commandIDs (encode marshal events))) h.commands fun hw =>
      h.missing (waiting_dedupe.mp hw)
  simp only [Outbox.attempt, h.running, Bool.false_eq_true, if_false,
    insertBatchAndMarkCancelCommands, if_neg h.nonempty, hrefused]
  match fault with
  | none | some .lost => exact ⟨rfl, h.silent, hrows, h.commands, h.missing⟩
  | some (.failed filled gap) =>
    exact ⟨rfl, h.silent, fillIDs_ne_nil h.nonempty, h.commands, h.missing⟩

/-- A property every attempt keeps, whatever its fault, is kept by the loop. -/
theorem foldl_attempt {P : Writer β → Prop} (h : P w) (faults : List (Option Fault))
    (hstep : ∀ w fault, P w → P (attempt marshal events w fault)) :
    P (faults.foldl (attempt marshal events) w) := by
  induction faults generalizing w with
  | nil => exact h
  | cons fault faults ih => exact ih (hstep w fault h)

theorem trying_of_failed (db : Database β) (hne : encode marshal events ≠ []) (faults : List Fault)
    (hlost : .lost ∉ faults) :
    Trying marshal events db (flushAndForward marshal events db (faults.map some)) := by
  induction faults using List.reverseRecOn with
  | nil => exact start_trying db hne
  | append_singleton faults fault ih =>
    rw [flushAndForward, List.map_append, List.foldl_append]
    have hbefore := ih fun h => hlost (List.mem_append_left _ h)
    cases fault with
    | lost => exact absurd (List.mem_append_right _ List.mem_cons_self) hlost
    | failed filled gap => exact hbefore.failed hne filled gap

theorem stuck_of_lost (hdb : db.Wf) (hne : encode marshal events ≠ [])
    (hw : Waiting (commandIDs (encode marshal events)) db.commands) (faults : List Fault)
    (hlost : .lost ∈ faults)
    (later : List (Option Fault)) :
    Stuck (flushAndForward marshal events db (faults.map some ++ later)) := by
  obtain ⟨before, after, rfl, hbefore⟩ := List.eq_append_cons_of_mem hlost
  have hstuck := (trying_of_failed db hne before hbefore).lost hdb hne hw
  rw [flushAndForward, List.map_append, List.map_cons, List.append_assoc, List.foldl_append,
    List.cons_append, List.foldl_cons]
  exact foldl_attempt hstuck (after.map some ++ later) fun _ fault h => h.attempt fault

theorem refused_of_missing (hdb : db.Wf) (hne : encode marshal events ≠ [])
    (hw : ¬ Waiting (commandIDs (encode marshal events)) db.commands)
    (faults : List (Option Fault)) :
    Refused (commandIDs (encode marshal events)) (flushAndForward marshal events db faults) := by
  have hstart := start_trying db hne
  exact foldl_attempt ⟨hstart.running, rfl, hstart.rows_ne hne, hdb.commands, hw⟩ faults
    fun _ fault h => h.attempt fault

theorem flushAndForward_of_nil (db : Database β) (hnil : encode marshal events = [])
    (faults : List (Option Fault)) :
    flushAndForward marshal events db faults = ⟨db, [], [], true⟩ := by
  have hstart : start marshal events db = ⟨db, [], [], true⟩ := by simp [start, hnil]
  rw [flushAndForward, hstart]
  exact foldl_attempt (P := (· = ⟨db, [], [], true⟩)) rfl faults fun w fault h => by rw [h]; rfl

/-- The store fails the attempts given and works from then on: nothing is forwarded while it fails;
the next attempt is the last, with one row for each event that can be encoded, every carried command
marked and every event forwarded under the id of its row. -/
structure Recovers (marshal : ExecutionEvent → Except String β) (events : List EventPointers)
    (db : Database β) (faults : List Fault) : Prop where
  silent : ∀ before, before <+: faults →
    (flushAndForward marshal events db (before.map some)).forwarded = []
  returned : (flushAndForward marshal events db (faults.map some ++ [none])).returned = true
  stored : ∃ rows, (flushAndForward marshal events db (faults.map some ++ [none])).database.outbox =
    db.outbox ++ rows ∧
    rows.map Row.unnumbered = (encode marshal events).map Prod.fst ∧ (rows.map Row.id).Nodup ∧
    (∀ row ∈ rows, db.sequence < row.id) ∧
    (flushAndForward marshal events db (faults.map some ++ [none])).forwarded =
      (rows.map Row.id).zip ((encode marshal events).map Prod.snd)
  processed : ∀ id ∈ commandIDs (encode marshal events),
    ∃ c ∈ (flushAndForward marshal events db (faults.map some ++ [none])).database.commands,
      c.id = id ∧ c.status = .processed

theorem processed_of_waiting (hw : Waiting ids commands) :
    ∀ id ∈ ids, ∃ c ∈ markProcessed ids commands, c.id = id ∧ c.status = .processed := by
  intro id hid
  obtain ⟨c, hc, rfl, hpending⟩ := hw id hid
  have hmarked : isMarked ids c = true := by simp [isMarked, hid, hpending]
  exact ⟨{ c with status := .processed }, List.mem_map.mpr ⟨c, hc, by rw [if_pos hmarked]⟩, rfl,
    rfl⟩

theorem recovers_of_failed (hdb : db.Wf) (hne : encode marshal events ≠ []) (faults : List Fault)
    (hlost : .lost ∉ faults) (hw : Waiting (commandIDs (encode marshal events)) db.commands) :
    Recovers marshal events db faults := by
  have h := trying_of_failed db hne faults hlost
  have hlast : flushAndForward marshal events db (faults.map some ++ [none]) =
      attempt marshal events (flushAndForward marshal events db (faults.map some)) none := by
    rw [flushAndForward, List.foldl_append]
    rfl
  have hnum := h.numbered.fillIDs h.later
    (flushAndForward marshal events db (faults.map some)).rows.length
  have hids := fillIDs_ne (flushAndForward marshal events db (faults.map some)).database.sequence
    (le_refl (flushAndForward marshal events db (faults.map some)).rows.length)
  have hdone := h.insertAndMark_eq hdb hw
  generalize flushAndForward marshal events db (faults.map some) = w at h hlast hnum hids hdone
  have hattempt : attempt marshal events w none =
      ⟨⟨db.outbox ++ (fillIDs w.rows.length w.database.sequence w.rows).1,
        markProcessed (dedupeNonzero [] (commandIDs (encode marshal events))) db.commands,
        (fillIDs w.rows.length w.database.sequence w.rows).2⟩,
        (fillIDs w.rows.length w.database.sequence w.rows).1,
        ((fillIDs w.rows.length w.database.sequence w.rows).1.map Row.id).zip
        ((encode marshal events).map Prod.snd), true⟩ := by
    simp only [attempt, h.running, Bool.false_eq_true, if_false, insertBatchAndMarkCancelCommands,
      if_neg (h.rows_ne hne), hdone]
  refine ⟨fun before hbefore => ?_, ?_, ?_, fun id hid => ?_⟩
  · exact (trying_of_failed db hne before fun hin => hlost (hbefore.subset hin)).silent
  · rw [hlast, hattempt]
  · rw [hlast, hattempt]
    refine ⟨_, rfl, (unnumbered_fillIDs _ _ _).trans h.rows, ?_, fun row hrow => ?_, rfl⟩
    · exact List.pairwise_map.mpr
        (hnum.distinct.imp_of_mem fun ha _ hab => hab.resolve_left (hids _ ha))
    · exact ((hnum.range row hrow).resolve_left (hids row hrow)).1
  · rw [hlast, hattempt]
    refine processed_of_waiting (waiting_dedupe.mpr hw) id ?_
    exact (mem_dedupeNonzero _ _).mpr ⟨hid, commandIDs_ne_zero hid, List.not_mem_nil⟩

theorem recovers_of_nil (db : Database β) (hnil : encode marshal events = [])
    (faults : List Fault) : Recovers marshal events db faults := by
  have hflush := flushAndForward_of_nil db hnil
  refine ⟨fun before _ => by rw [hflush], by rw [hflush], ⟨[], ?_⟩, fun id hid => ?_⟩
  · simp [hflush, hnil]
  · rw [hnil] at hid
    cases hid

/-- The loop recovers from every pattern of failures of a batch whose commands wait, except a lost
answer to a commit. -/
theorem flushAndForward_recovers_iff (marshal : ExecutionEvent → Except String β)
    (events : List EventPointers) (db : Database β) (hdb : db.Wf) (faults : List Fault) :
    Recovers marshal events db faults ↔
      encode marshal events = [] ∨ .lost ∉ faults ∧
      Waiting (commandIDs (encode marshal events)) db.commands := by
  constructor
  · intro hrec
    by_contra hcon
    rw [not_or, not_and_or, not_not] at hcon
    obtain ⟨hne, hbad⟩ := hcon
    have hrunning : (flushAndForward marshal events db (faults.map some ++ [none])).returned =
        false := by
      by_cases hw : Waiting (commandIDs (encode marshal events)) db.commands
      · exact (stuck_of_lost hdb hne hw faults (hbad.resolve_right (not_not_intro hw))
          [none]).running
      · exact (refused_of_missing hdb hne hw _).running
    rw [hrec.returned] at hrunning
    cases hrunning
  · intro hgood
    by_cases hne : encode marshal events = []
    · exact recovers_of_nil db hne faults
    · obtain ⟨hlost, hw⟩ := hgood.resolve_left hne
      exact recovers_of_failed hdb hne faults hlost hw

end

/-- One trade, and a cancellation with its command. -/
def tradeThenCancel : List EventPointers :=
  [⟨some ⟨⟨1, 1⟩, "BTC", 10, 1, 1, 2⟩, none, none⟩, ⟨none, none, some ⟨7, 3, "BTC", .sell, ⟨1, 2⟩⟩⟩]

def commandWaits : Database ExecutionEvent := ⟨[], [⟨7, 3, 1, "BTC", .sell, 10, .pending⟩], 0⟩

theorem commandWaits_wf : commandWaits.Wf := ⟨by simp [commandWaits], by simp [commandWaits]⟩

theorem flushAndForward_recovers_tradeThenCancel :
    Recovers .ok tradeThenCancel commandWaits [.failed 0 0, .failed 1 2] :=
  (flushAndForward_recovers_iff .ok tradeThenCancel commandWaits commandWaits_wf _).mpr
    (.inr (by decide +kernel))

/-- The commit succeeds and its answer is lost: no later attempt ends the call, nothing is
forwarded, although the rows are stored. -/
theorem lost_commit_stops_writer : ¬ Recovers .ok tradeThenCancel commandWaits [.lost] ∧
    (flushAndForward .ok tradeThenCancel commandWaits [some .lost]).database.outbox.length = 2 ∧
    ∀ n, (flushAndForward .ok tradeThenCancel commandWaits
      (some .lost :: List.replicate n none)).returned = false ∧
      (flushAndForward .ok tradeThenCancel commandWaits
        (some .lost :: List.replicate n none)).forwarded = [] := by
  have hstuck : ∀ later,
      Stuck (flushAndForward .ok tradeThenCancel commandWaits ([Fault.lost].map some ++ later)) :=
    stuck_of_lost commandWaits_wf (by decide +kernel) (by decide +kernel) [.lost] (by decide)
  refine ⟨fun hrec => ?_, by decide +kernel, fun n => ⟨(hstuck _).running, (hstuck _).silent⟩⟩
  have := (hstuck [none]).running
  rw [hrec.returned] at this
  cases this

end GoExchange.Outbox
