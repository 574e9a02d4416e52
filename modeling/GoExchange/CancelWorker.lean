import GoExchange.Lts
import GoExchange.OutboxWriter

/-!
# The cancel worker

`cancel_command_worker.go`: the worker hands PENDING cancel commands to the
engine and keeps an entry for each one it has in hand. A call of the engine
runs in a goroutine of its own. An answer is not the end of a command: the
outbox writer commits the engine's event, and marks the command, at any time
after. Statements of the store may fail. Attempt counts and metrics are left
out; times are in milliseconds.
-/
namespace GoExchange.CancelWorker

open Service Outbox Rows

inductive CancelCommandPhase where
  | dispatching | awaitingOutbox | backoff
  deriving DecidableEq, Repr

/-- An entry of `inFlight`, with the command it is stored under. -/
structure InFlight where
  id : Nat
  phase : CancelCommandPhase
  nextAttemptAt : Nat
  backoff : Nat
  awaitingSince : Nat
  warningEmitted : Bool
  deriving DecidableEq, Repr

/-- The worker's settings; one that is not positive stands for its default. -/
structure Config where
  initialBackoff : Int
  maxBackoff : Int
  awaitingWarnAfter : Int
  maxDispatch : Int
  scanLimit : Int
  deriving DecidableEq, Repr

def orDefault (configured : Int) (value : Nat) : Nat :=
  if 0 < configured then configured.toNat else value

def initialBackoff (cfg : Config) : Nat := orDefault cfg.initialBackoff 100
def maxBackoff (cfg : Config) : Nat := orDefault cfg.maxBackoff 5000
def awaitingWarnAfter (cfg : Config) : Nat := orDefault cfg.awaitingWarnAfter 5000
def maxDispatch (cfg : Config) : Nat := orDefault cfg.maxDispatch 8
def scanLimit (cfg : Config) : Nat := orDefault cfg.scanLimit 128

inductive EngineError where
  | timedOut | backpressured | unavailable | invalidCommand
  deriving DecidableEq, Repr

/-- `MarkNoop` fails before it changes the row, or the row is changed and an error is returned. -/
inductive MarkNoopFault where
  | failed | lost
  deriving DecidableEq, Repr

/-- A result of the engine. If the order was not found, what the store says when the result is
applied. -/
inductive Answer where
  | removed
  | notFound (order : Except String OrderStatus) (noop : Option MarkNoopFault)
  | failed (e : EngineError)

/-- Where `Run` stands in its loop. -/
inductive Stage where
  | select | releasing | dispatching | draining
  deriving DecidableEq, Repr

/-- The table of commands, the worker's own data, and the calls whose results it has not received.
`removed` has the commands the worker was told are removed; nothing reads it. -/
structure Worker where
  commands : List CancelCommand
  inFlight : List InFlight
  calls : List Nat
  dispatching : Nat
  stage : Stage
  removed : List Nat

def init : Worker := ⟨[], [], [], 0, .select, []⟩

/-! ## Queries -/

/-- A command that is processed already stays so. -/
def markNoop (commands : List CancelCommand) (id : Nat) : List CancelCommand :=
  modify CancelCommand.id id (fun c => if c.status = .pending then { c with status := .noop }
    else c) commands

def findPending (commands : List CancelCommand) (excluded : List Nat) (limit : Nat) :
    List CancelCommand :=
  ((commands.filter fun c => c.status = .pending ∧ c.id ∉ excluded).insertionSort fun c c' => c.id ≤
    c'.id).take limit

def findStatuses (commands : List CancelCommand) (ids : List Nat) : List CancelCommand :=
  commands.filter fun c => c.id ∈ ids

/-! ## Results -/

section

variable (cfg : Config) (now : Nat)

def nextBackoff (current : Nat) : Nat :=
  if current = 0 then initialBackoff cfg
  else if maxBackoff cfg < current * 2 then maxBackoff cfg
  else current * 2

def awaitOutbox (e : InFlight) : InFlight :=
  { e with phase := .awaitingOutbox, awaitingSince := now, warningEmitted := false }

def scheduleRetry (e : InFlight) : InFlight :=
  { e with
    backoff := nextBackoff cfg e.backoff, phase := .backoff,
    nextAttemptAt := now + nextBackoff cfg e.backoff }

def retryLater (w : Worker) (id : Nat) : Worker :=
  { w with inFlight := modify InFlight.id id (scheduleRetry cfg now) w.inFlight }

def delete (entries : List InFlight) (id : Nat) : List InFlight := entries.filter fun e => e.id ≠ id

def applyNotFound (w : Worker) (id : Nat) (order : Except String OrderStatus)
    (noop : Option MarkNoopFault) : Worker :=
  match order with
  | .error _ => retryLater cfg now w id
  | .ok status =>
    if isCancellableOrderStatus status then retryLater cfg now w id
    else
      match noop with
      | some .failed => retryLater cfg now w id
      | some .lost => retryLater cfg now { w with commands := markNoop w.commands id } id
      | none => { w with commands := markNoop w.commands id, inFlight := delete w.inFlight id }

def applyResult (w : Worker) (id : Nat) (answer : Answer) : Worker :=
  match w.inFlight.find? (·.id = id) with
  | none => w
  | some _ =>
    match answer with
    | .removed => { w with inFlight := modify InFlight.id id (awaitOutbox now) w.inFlight }
    | .notFound order noop => applyNotFound cfg now w id order noop
    | .failed _ => retryLater cfg now w id

/-! ## One round -/

/-- Entries that wait for the outbox go once their command is no longer PENDING. -/
def releaseCompleted (w : Worker) (answered : Bool) : Worker :=
  let ids := (w.inFlight.filter fun e => e.phase = .awaitingOutbox).map InFlight.id
  if answered then
    { w with inFlight := w.inFlight.filter fun e =>
        ¬ (findStatuses w.commands ids).any fun c => c.id = e.id ∧ c.status ≠ .pending }
  else w

def warnStaleAwaiting (entries : List InFlight) : List InFlight :=
  entries.map fun e =>
    if e.phase ≠ .awaitingOutbox ∨ e.warningEmitted then e
    else if now - e.awaitingSince < awaitingWarnAfter cfg then e
    else { e with warningEmitted := true }

def blockedIDs (entries : List InFlight) : List Nat :=
  (entries.filter fun e => ¬ (e.phase = .backoff ∧ e.nextAttemptAt ≤ now)).map InFlight.id

def InFlight.dispatched (e : InFlight) : InFlight := { e with phase := .dispatching }

def markDispatching (entries : List InFlight) (id : Nat) : List InFlight :=
  if id ∈ entries.map InFlight.id then modify InFlight.id id InFlight.dispatched entries
  else entries ++ [⟨id, .dispatching, 0, 0, 0, false⟩]

/-- The commands a round starts; none if the scan fails. -/
def ready (w : Worker) (answered : Bool) : List Nat :=
  if answered then
    ((findPending w.commands (blockedIDs now w.inFlight) (scanLimit cfg)).take
      (maxDispatch cfg - w.dispatching)).map CancelCommand.id
  else []

def dispatchReady (w : Worker) (answered : Bool) : Worker :=
  let started := ready cfg now w answered
  { w with
    inFlight := started.foldl markDispatching w.inFlight
    calls := w.calls ++ started
    dispatching := w.dispatching + started.length }

end

/-! ## The system -/

/-- `answered` says whether the store answers the query of the step. -/
inductive Label where
  /-- `CancelOrder` commits a command. -/
  | create (command : CancelCommand)
  /-- The outbox writer commits the events of some commands. -/
  | commit (ids : List Nat)
  /-- `Run` sees a wake or a tick. -/
  | wake
  | result (id : Nat) (answer : Answer) (now : Nat)
  | release (answered : Bool) (now : Nat)
  | dispatch (answered : Bool) (now : Nat)
  | stop
  | drain (id : Nat)

def isPending (commands : List CancelCommand) (id : Nat) : Prop :=
  ∃ c ∈ commands, c.id = id ∧ c.status = .pending

instance (commands : List CancelCommand) (id : Nat) : Decidable (isPending commands id) :=
  inferInstanceAs (Decidable (∃ c ∈ commands, _))

/-- The worker takes a result off its channel. -/
def received (w : Worker) (id : Nat) : Worker :=
  { w with calls := w.calls.erase id, dispatching := w.dispatching - 1 }

def noted (w : Worker) (id : Nat) : Answer → Worker
  | .removed => { w with removed := id :: w.removed }
  | _ => w

def step (cfg : Config) : Label → Worker → Option Worker
  | .create c, w =>
    if c.id ∉ w.commands.map CancelCommand.id ∧ c.status = .pending then
      some { w with commands := w.commands ++ [c] }
    else none
  | .commit ids, w =>
    if ∀ id ∈ ids, isPending w.commands id then
      some { w with commands := markProcessed ids w.commands }
    else none
  | .wake, w => if w.stage = .select then some { w with stage := .releasing } else none
  | .result id answer now, w =>
    if w.stage = .select ∧ id ∈ w.calls then
      some { applyResult cfg now (noted (received w id) id answer) id answer with
        stage := .releasing }
    else none
  | .release answered now, w =>
    if w.stage = .releasing then
      let w := releaseCompleted w answered
      some { w with inFlight := warnStaleAwaiting cfg now w.inFlight, stage := .dispatching }
    else none
  | .dispatch answered now, w =>
    if w.stage = .dispatching then some { dispatchReady cfg now w answered with stage := .select }
    else none
  | .stop, w =>
    if w.stage = .select ∨ w.stage = .releasing then some { w with stage := .draining } else none
  | .drain id, w => if w.stage = .draining ∧ id ∈ w.calls then some (received w id) else none

variable {cfg : Config} {w w' : Worker} {entries : List InFlight}
  {commands commands' : List CancelCommand} {id id' now : Nat} {ph ph' : CancelCommandPhase}
  {ids : List Nat} {g : InFlight → InFlight}

/-! ## Phases of the entries -/

/-- The command has an entry in this phase. -/
def At (entries : List InFlight) (id : Nat) (ph : CancelCommandPhase) : Prop :=
  ∃ e ∈ entries, e.id = id ∧ e.phase = ph

theorem at_modify_ne (hg : ∀ e, (g e).id = e.id) (hne : id' ≠ id) :
    At (modify InFlight.id id g entries) id' ph ↔ At entries id' ph := by
  simp only [At, mem_modify]
  constructor
  · rintro ⟨_, ⟨e, _, hid, rfl⟩ | ⟨he, _⟩, he', hph⟩
    · exact absurd (((hg e).symm.trans he').symm.trans hid) hne
    · exact ⟨_, he, he', hph⟩
  · rintro ⟨e, he, he', hph⟩
    exact ⟨e, .inr ⟨he, fun h => hne (he'.symm.trans h)⟩, he', hph⟩

theorem at_modify_self (hg : ∀ e, (g e).id = e.id) (hph : ∀ e, (g e).phase = ph') :
    At (modify InFlight.id id g entries) id ph ↔ id ∈ entries.map InFlight.id ∧ ph = ph' := by
  simp only [At, mem_modify, List.mem_map]
  constructor
  · rintro ⟨_, ⟨e, he, hid, rfl⟩ | ⟨_, hne⟩, he', rfl⟩
    · exact ⟨⟨e, he, hid⟩, hph e⟩
    · exact absurd he' hne
  · rintro ⟨⟨e, he, hid⟩, rfl⟩
    exact ⟨g e, .inl ⟨e, he, hid, rfl⟩, (hg e).trans hid, hph e⟩

theorem at_delete : At (delete entries id) id' ph ↔ At entries id' ph ∧ id' ≠ id := by
  simp only [At, delete, List.mem_filter, decide_eq_true_eq]
  constructor
  · rintro ⟨e, ⟨he, hne⟩, rfl, hph⟩
    exact ⟨⟨e, he, rfl, hph⟩, hne⟩
  · rintro ⟨⟨e, he, rfl, hph⟩, hne⟩
    exact ⟨e, ⟨he, hne⟩, rfl, hph⟩

/-- A warning changes neither the entries' commands nor their phases. -/
theorem map_warnStaleAwaiting {β : Type} (f : InFlight → β)
    (hf : ∀ e : InFlight, f { e with warningEmitted := true } = f e) :
    (warnStaleAwaiting cfg now entries).map f = entries.map f := by
  rw [warnStaleAwaiting, List.map_map]
  apply List.map_congr_left
  intro e _
  simp only [Function.comp_apply]
  split
  · rfl
  · split
    · rfl
    · exact hf e

theorem at_iff_mem_map : At entries id ph ↔ (id, ph) ∈ entries.map fun e => (e.id, e.phase) := by
  simp [At, List.mem_map]

theorem at_warnStaleAwaiting : At (warnStaleAwaiting cfg now entries) id ph ↔ At entries id ph := by
  rw [at_iff_mem_map, at_iff_mem_map, map_warnStaleAwaiting]
  exact fun _ => rfl

theorem mem_map_iff_at : id ∈ entries.map InFlight.id ↔ ∃ ph, At entries id ph := by
  simp [At, List.mem_map]

theorem map_id_markDispatching (entries : List InFlight) (id : Nat) :
    (markDispatching entries id).map InFlight.id =
      if id ∈ entries.map InFlight.id then entries.map InFlight.id
        else entries.map InFlight.id ++ [id] := by
  unfold markDispatching
  split
  · exact map_modify InFlight.id fun _ _ _ => rfl
  · rw [List.map_append]
    rfl

theorem at_concat {e : InFlight} :
    At (entries ++ [e]) id ph ↔ At entries id ph ∨ e.id = id ∧ e.phase = ph := by
  simp [At, or_and_right, exists_or]

theorem at_markDispatching :
    At (markDispatching entries id) id' ph ↔ id' = id ∧ ph = .dispatching ∨ id' ≠ id ∧
    At entries id' ph := by
  unfold markDispatching
  split <;> rename_i hmem
  · by_cases hne : id' = id
    · subst hne
      rw [at_modify_self (g := InFlight.dispatched) (fun _ => rfl) (fun _ => rfl)]
      simp [hmem]
    · rw [at_modify_ne (g := InFlight.dispatched) (fun _ => rfl) hne]
      simp [hne]
  · have hnew : At entries id' ph → id' ≠ id := fun h he => hmem (he ▸ mem_map_iff_at.mpr ⟨ph, h⟩)
    rw [at_concat]
    grind

theorem at_foldl_markDispatching (started : List Nat) (entries : List InFlight) :
    At (started.foldl markDispatching entries) id ph ↔
      id ∈ started ∧ ph = .dispatching ∨ id ∉ started ∧ At entries id ph := by
  induction started generalizing entries with
  | nil => simp
  | cons id' started ih =>
    rw [List.foldl_cons, ih, at_markDispatching]
    by_cases hmem : id ∈ started
    · simp [hmem]
    · by_cases he : id = id'
      · subst he
        simp [hmem]
      · simp [hmem, he]

theorem nodup_foldl_markDispatching (started : List Nat) (hn : (entries.map InFlight.id).Nodup) :
    ((started.foldl markDispatching entries).map InFlight.id).Nodup := by
  induction started generalizing entries with
  | nil => exact hn
  | cons id started ih =>
    apply ih
    rw [map_id_markDispatching]
    split
    · exact hn
    · rename_i hnew
      exact List.concat_eq_append ▸ hn.concat hnew

/-! ## Commands -/

theorem isPending_append {c : CancelCommand} (h : isPending (commands ++ [c]) id)
    (hne : c.id ≠ id) : isPending commands id := by
  obtain ⟨c', hc', hid, hst⟩ := h
  rcases List.mem_append.mp hc' with hc' | hc'
  · exact ⟨c', hc', hid, hst⟩
  · rw [List.mem_singleton.mp hc'] at hid
    exact absurd hid hne

theorem isPending_markNoop :
    isPending (markNoop commands id') id ↔ isPending commands id ∧ id ≠ id' := by
  simp only [isPending, markNoop, mem_modify]
  constructor
  · rintro ⟨c, ⟨c', hc', hid', rfl⟩ | ⟨hc, hne⟩, rfl, hst⟩
    · split at hst
      · cases hst
      · rename_i hnot
        exact absurd hst hnot
    · exact ⟨⟨c, hc, rfl, hst⟩, hne⟩
  · rintro ⟨⟨c, hc, rfl, hst⟩, hne⟩
    exact ⟨c, .inr ⟨hc, hne⟩, rfl, hst⟩

theorem isPending_markProcessed :
    isPending (markProcessed ids commands) id ↔ isPending commands id ∧ id ∉ ids := by
  simp only [isPending, markProcessed, List.mem_map]
  constructor
  · rintro ⟨_, ⟨c, hc, rfl⟩, hid, hst⟩
    split at hid <;> rename_i hmarked
    · simp [hmarked] at hst
    · simp only [hmarked, Bool.false_eq_true, if_false] at hst
      refine ⟨⟨c, hc, hid, hst⟩, fun hmem => hmarked ?_⟩
      simp [Outbox.isMarked, hid, hmem, hst]
  · rintro ⟨⟨c, hc, rfl, hst⟩, hnot⟩
    have hmarked : Outbox.isMarked ids c = false := by simp [Outbox.isMarked, hnot]
    exact ⟨c, ⟨c, hc, by simp [hmarked]⟩, rfl, hst⟩

theorem map_id_markNoop :
    (markNoop commands id).map CancelCommand.id = commands.map CancelCommand.id := by
  apply map_modify
  intro c _ _
  split <;> rfl

theorem map_id_markProcessed :
    (markProcessed ids commands).map CancelCommand.id = commands.map CancelCommand.id := by
  rw [markProcessed, List.map_map]
  apply List.map_congr_left
  intro c _
  simp only [Function.comp_apply]
  split <;> rfl

/-! ## What a result does -/

/-- The worker will try the command again. -/
def retried : Answer → Bool
  | .removed => false
  | .notFound (.error _) _ => true
  | .notFound (.ok status) noop => isCancellableOrderStatus status || noop.isSome
  | .failed _ => true

/-- `MarkNoop` closed the command and returned an error. -/
def lostNoop : Answer → Bool
  | .notFound (.ok status) (some .lost) => ! isCancellableOrderStatus status
  | _ => false

inductive Applied (cfg : Config) (now : Nat) (w : Worker) (id : Nat) (answer : Answer) :
    Worker → Prop where
  | awaits (h : answer = .removed) :
      Applied cfg now w id answer { w with
        inFlight := modify InFlight.id id (awaitOutbox now) w.inFlight }
  | retries (h : retried answer = true) (hlost : lostNoop answer = false) :
      Applied cfg now w id answer (retryLater cfg now w id)
  | retriesClosed (h : retried answer = true) (hlost : lostNoop answer = true) :
      Applied cfg now w id answer
        (retryLater cfg now { w with commands := markNoop w.commands id } id)
  | closes (h : answer ≠ .removed) :
      Applied cfg now w id answer { w with
        commands := markNoop w.commands id, inFlight := delete w.inFlight id }

theorem applied (cfg : Config) (now : Nat) (hentry : id ∈ w.inFlight.map InFlight.id)
    (answer : Answer) : Applied cfg now w id answer (applyResult cfg now w id answer) := by
  have hfound : ∃ e, w.inFlight.find? (·.id = id) = some e := by
    rw [← Option.isSome_iff_exists, Option.isSome_iff_ne_none]
    exact fun hnone => find?_eq_none.mp hnone hentry
  obtain ⟨e, hfound⟩ := hfound
  simp only [applyResult, hfound]
  cases answer with
  | removed => exact .awaits rfl
  | failed _ => exact .retries rfl rfl
  | notFound order noop =>
    cases order with
    | error _ => exact .retries rfl rfl
    | ok status =>
      cases hopen : isCancellableOrderStatus status with
      | true =>
        simp only [applyNotFound, hopen, if_true]
        refine .retries (by simp [retried, hopen]) ?_
        cases noop with
        | none => rfl
        | some fault => cases fault <;> simp [lostNoop, hopen]
      | false =>
        simp only [applyNotFound, hopen, Bool.false_eq_true, if_false]
        cases noop with
        | none => exact .closes (by simp)
        | some fault =>
          cases fault with
          | failed => exact .retries (by simp [retried]) rfl
          | lost => exact .retriesClosed (by simp [retried]) (by simp [lostNoop, hopen])

/-! ## The invariant -/

structure Inv (cfg : Config) (w : Worker) : Prop where
  commands : (w.commands.map CancelCommand.id).Nodup
  entries : (w.inFlight.map InFlight.id).Nodup
  known : ∀ id ∈ w.inFlight.map InFlight.id, id ∈ w.commands.map CancelCommand.id
  calls : w.calls.Nodup
  count : w.dispatching = w.calls.length
  bounded : w.calls.length ≤ maxDispatch cfg
  calling : ∀ id ∈ w.calls, At w.inFlight id .dispatching
  called : w.stage ≠ .draining → ∀ id, At w.inFlight id .dispatching → id ∈ w.calls
  -- a removed order's command waits for the outbox until it is closed
  removed : ∀ id ∈ w.removed, At w.inFlight id .awaitingOutbox ∨
    id ∈ w.commands.map CancelCommand.id ∧ ¬ isPending w.commands id
  idle : ∀ id ∈ w.removed, id ∉ w.calls

theorem inv_init : Inv cfg init where
  commands := List.nodup_nil
  entries := List.nodup_nil
  known := by simp [init]
  calls := List.nodup_nil
  count := rfl
  bounded := Nat.zero_le _
  calling := by simp [init]
  called := fun _ id ⟨e, he, _⟩ => absurd he (by simp [init])
  removed := by simp [init]
  idle := by simp [init]

/-- The commands changed, with their ids kept and none opened again. -/
theorem Inv.setCommands (h : Inv cfg w)
    (hids : (w.commands.map CancelCommand.id) <+: (commands.map CancelCommand.id))
    (hn : (commands.map CancelCommand.id).Nodup)
    (hmono : ∀ id ∈ w.commands.map CancelCommand.id, isPending commands id →
      isPending w.commands id) :
    Inv cfg { w with commands := commands } :=
  { h with
    commands := hn
    known := fun id hid => hids.subset (h.known id hid)
    removed := fun id hid => (h.removed id hid).imp_right fun ⟨hmem, hclosed⟩ =>
      ⟨hids.subset hmem, fun hp => hclosed (hmono id hmem hp)⟩ }

theorem Inv.setStage (h : Inv cfg w) (stage : Stage)
    (hstage : stage ≠ .draining → w.stage ≠ .draining) : Inv cfg { w with stage := stage } :=
  { h with called := fun hne => h.called (hstage hne) }

/-- Only entries that wait for the outbox go, once their command is closed. -/
theorem Inv.setEntries (h : Inv cfg w)
    (hids : (entries.map InFlight.id).Sublist (w.inFlight.map InFlight.id))
    (hold : ∀ id ph, At entries id ph → At w.inFlight id ph)
    (hkept : ∀ id ph, At w.inFlight id ph → At entries id ph ∨ ph = .awaitingOutbox ∧
      ¬ isPending w.commands id) :
    Inv cfg { w with inFlight := entries } :=
  { h with
    entries := h.entries.sublist hids
    known := fun id hid => h.known id (hids.subset hid)
    calling := fun id hid => (hkept id _ (h.calling id hid)).resolve_right (by simp)
    called := fun hne id hat => h.called hne id (hold id _ hat)
    removed := fun id hid => by
      rcases h.removed id hid with hawait | hclosed
      · exact (hkept id _ hawait).imp_right fun hclosed =>
          ⟨h.known id (mem_map_iff_at.mpr ⟨_, hawait⟩), hclosed.2⟩
      · exact .inr hclosed }

/-- A call has returned: its entry leaves the phase, the others stay as they are. -/
theorem Inv.returned (h : Inv cfg w) {removed : List Nat} (hstage : w.stage ≠ .draining)
    (hcall : id ∈ w.calls) (hids : commands.map CancelCommand.id = w.commands.map CancelCommand.id)
    (hmono : ∀ id, isPending commands id → isPending w.commands id)
    (hn : (entries.map InFlight.id).Nodup) (hleft : ¬ At entries id .dispatching)
    (hsub : ∀ id' ∈ entries.map InFlight.id, id' ∈ w.inFlight.map InFlight.id)
    (hothers : ∀ id' ph, id' ≠ id → (At entries id' ph ↔ At w.inFlight id' ph))
    (hremoved : removed = w.removed ∨ removed = id :: w.removed ∧ At entries id .awaitingOutbox) :
    Inv cfg ⟨commands, entries, w.calls.erase id, w.dispatching - 1, .releasing, removed⟩ where
  commands := by rw [hids]; exact h.commands
  entries := hn
  known := by
    intro id' hid'
    rw [hids]
    exact h.known id' (hsub id' hid')
  calls := h.calls.erase id
  count := by
    have hlength := List.length_erase_of_mem hcall
    have hcount := h.count
    simp only [hlength, hcount]
  bounded := (List.length_erase_le).trans h.bounded
  calling := by
    intro id' hid'
    obtain ⟨hne, hmem⟩ := h.calls.mem_erase_iff.mp hid'
    exact (hothers id' _ hne).mpr (h.calling id' hmem)
  called := by
    intro _ id' hat
    have hne : id' ≠ id := fun he => hleft (he ▸ hat)
    exact (List.mem_erase_of_ne hne).mpr (h.called hstage id' ((hothers id' _ hne).mp hat))
  removed := by
    -- the commands noted before are not the one that was called
    have hold : ∀ id' ∈ w.removed, At entries id' .awaitingOutbox ∨
        id' ∈ commands.map CancelCommand.id ∧ ¬ isPending commands id' := by
      intro id' hid'
      have hne : id' ≠ id := fun he => h.idle id' hid' (he ▸ hcall)
      rcases h.removed id' hid' with hawait | ⟨hmem, hclosed⟩
      · exact .inl ((hothers id' _ hne).mpr hawait)
      · exact .inr ⟨hids ▸ hmem, fun hp => hclosed (hmono id' hp)⟩
    intro id' hid'
    rcases hremoved with rfl | ⟨rfl, hawait⟩
    · exact hold id' hid'
    · rcases List.mem_cons.mp hid' with rfl | hid'
      · exact .inl hawait
      · exact hold id' hid'
  idle := by
    intro id' hid' hmem
    obtain ⟨hne, hmem'⟩ := h.calls.mem_erase_iff.mp hmem
    rcases hremoved with rfl | ⟨rfl, -⟩
    · exact h.idle id' hid' hmem'
    · rcases List.mem_cons.mp hid' with rfl | hid'
      · exact hne rfl
      · exact h.idle id' hid' hmem'

theorem noted_of_ne {answer : Answer} (h : answer ≠ .removed) : noted w id answer = w := by
  cases answer with
  | removed => exact absurd rfl h
  | notFound => rfl
  | failed => rfl

theorem Inv.applied (h : Inv cfg w) (now : Nat) (hcall : id ∈ w.calls) (answer : Answer) :
    Applied cfg now (noted (received w id) id answer) id answer
      (applyResult cfg now (noted (received w id) id answer) id answer) := by
  have hsame : (noted (received w id) id answer).inFlight = w.inFlight := by cases answer <;> rfl
  exact CancelWorker.applied cfg now (hsame ▸ mem_map_iff_at.mpr ⟨_, h.calling id hcall⟩) answer

/-- The entry of the call goes to another phase. -/
theorem Inv.rephased (h : Inv cfg w) {removed : List Nat} (hstage : w.stage ≠ .draining)
    (hcall : id ∈ w.calls) (hids : commands.map CancelCommand.id = w.commands.map CancelCommand.id)
    (hmono : ∀ id, isPending commands id → isPending w.commands id) (hg : ∀ e, (g e).id = e.id)
    (hph : ∀ e, (g e).phase = ph) (hne : ph ≠ .dispatching)
    (hremoved : removed = w.removed ∨ removed = id :: w.removed ∧ ph = .awaitingOutbox) :
    Inv cfg ⟨commands, modify InFlight.id id g w.inFlight, w.calls.erase id, w.dispatching - 1,
      .releasing, removed⟩ := by
  have hkeys : (modify InFlight.id id g w.inFlight).map InFlight.id = w.inFlight.map InFlight.id :=
    map_modify InFlight.id fun e _ _ => hg e
  apply h.returned hstage hcall hids hmono
  · rw [hkeys]
    exact h.entries
  · rw [at_modify_self hg hph]
    exact fun hat => hne hat.2.symm
  · rw [hkeys]
    exact fun _ hid => hid
  · exact fun id' ph hne => at_modify_ne hg hne
  · rcases hremoved with rfl | ⟨rfl, rfl⟩
    · exact .inl rfl
    · exact .inr ⟨rfl, (at_modify_self hg hph).mpr
        ⟨mem_map_iff_at.mpr ⟨_, h.calling id hcall⟩, rfl⟩⟩

theorem Inv.result (h : Inv cfg w) (hstage : w.stage = .select) (hcall : id ∈ w.calls)
    (answer : Answer) :
    Inv cfg { applyResult cfg now (noted (received w id) id answer) id answer with
      stage := .releasing } := by
  have hstage' : w.stage ≠ .draining := by simp [hstage]
  have hnoop : ∀ id', isPending (markNoop w.commands id) id' → isPending w.commands id' :=
    fun id' hp => (isPending_markNoop.mp hp).1
  have happlied := h.applied now hcall answer
  generalize applyResult cfg now (noted (received w id) id answer) id answer = w₁ at happlied
  cases happlied with
  | awaits hanswer =>
    subst hanswer
    exact h.rephased (g := awaitOutbox now) hstage' hcall rfl (fun _ hp => hp) (fun _ => rfl)
      (fun _ => rfl) (by decide) (.inr ⟨rfl, rfl⟩)
  | retries hretried _ =>
    rw [noted_of_ne (by rintro rfl; cases hretried)]
    exact h.rephased (g := scheduleRetry cfg now) hstage' hcall rfl (fun _ hp => hp) (fun _ => rfl)
      (fun _ => rfl) (by decide) (.inl rfl)
  | retriesClosed hretried _ =>
    rw [noted_of_ne (by rintro rfl; cases hretried)]
    exact h.rephased (g := scheduleRetry cfg now) hstage' hcall map_id_markNoop hnoop (fun _ => rfl)
      (fun _ => rfl) (by decide) (.inl rfl)
  | closes hne =>
    rw [noted_of_ne hne]
    apply h.returned hstage' hcall map_id_markNoop hnoop
    · exact h.entries.sublist (List.filter_sublist.map InFlight.id)
    · rw [at_delete]
      simp
    · exact fun id' hid' => (List.filter_sublist.map InFlight.id).subset hid'
    · intro id' ph hne'
      rw [at_delete]
      exact and_iff_left hne'
    · exact .inl rfl

/-- After an answered lookup, entries that wait for the outbox are those of PENDING commands. -/
theorem at_releaseCompleted (h : Inv cfg w) :
    At (releaseCompleted w true).inFlight id ph ↔
      At w.inFlight id ph ∧ (ph = .awaitingOutbox → isPending w.commands id) := by
  have hentry : ∀ e ∈ w.inFlight, ((findStatuses w.commands
      ((w.inFlight.filter fun e => e.phase = .awaitingOutbox).map InFlight.id)).any
        fun c => c.id = e.id ∧ c.status ≠ .pending) = true ↔ e.phase = .awaitingOutbox ∧
        ¬ isPending w.commands e.id := by
    intro e he
    simp only [findStatuses, List.any_eq_true, List.mem_filter, List.mem_map, decide_eq_true_eq]
    constructor
    · rintro ⟨c, ⟨hc, e', ⟨he', hph⟩, hid'⟩, hid, hst⟩
      have hsame : e' = e := List.inj_on_of_nodup_map h.entries he' he (hid'.trans hid)
      refine ⟨hsame ▸ hph, ?_⟩
      rintro ⟨c', hc', hid'', hst'⟩
      rw [List.inj_on_of_nodup_map h.commands hc' hc (hid''.trans hid.symm)] at hst'
      exact hst hst'
    · rintro ⟨hph, hclosed⟩
      obtain ⟨c, hc, hid⟩ := List.mem_map.mp (h.known e.id (List.mem_map_of_mem he))
      exact ⟨c, ⟨hc, e, ⟨he, hph⟩, hid.symm⟩, hid, fun hst => hclosed ⟨c, hc, hid, hst⟩⟩
  simp only [releaseCompleted, if_true, At, List.mem_filter, decide_eq_true_eq]
  constructor
  · rintro ⟨e, ⟨he, hkept⟩, rfl, rfl⟩
    rw [hentry e he] at hkept
    exact ⟨⟨e, he, rfl, rfl⟩, fun hph => not_not.mp fun hclosed => hkept ⟨hph, hclosed⟩⟩
  · rintro ⟨⟨e, he, rfl, rfl⟩, hopen⟩
    refine ⟨e, ⟨he, ?_⟩, rfl, rfl⟩
    rw [hentry e he]
    exact fun hgone => hgone.2 (hopen hgone.1)

theorem Inv.released (h : Inv cfg w) (hstage : w.stage = .releasing) (answered : Bool) :
    Inv cfg { releaseCompleted w answered with
      inFlight := warnStaleAwaiting cfg now (releaseCompleted w answered).inFlight,
      stage := .dispatching } := by
  have hentries : Inv cfg { w with
      inFlight := warnStaleAwaiting cfg now (releaseCompleted w answered).inFlight } := by
    apply h.setEntries
    · rw [map_warnStaleAwaiting InFlight.id fun _ => rfl]
      cases answered with
      | false => exact .refl _
      | true => exact List.filter_sublist.map _
    · intro id ph hat
      rw [at_warnStaleAwaiting] at hat
      cases answered with
      | false => exact hat
      | true => exact ((at_releaseCompleted h).mp hat).1
    · intro id ph hat
      rw [at_warnStaleAwaiting]
      cases answered with
      | false => exact .inl hat
      | true =>
        rw [at_releaseCompleted h]
        grind
  cases answered <;> exact hentries.setStage .dispatching fun _ => by simp [hstage]

/-! ## A round starts calls -/

/-- A command that is started is PENDING, and its entry, if it has one, is in backoff. -/
theorem mem_ready {answered : Bool} (hid : id ∈ ready cfg now w answered) :
    isPending w.commands id ∧ ∀ ph, At w.inFlight id ph → ph = .backoff := by
  cases answered with
  | false => simp [ready] at hid
  | true =>
    simp only [ready, if_true, List.mem_map] at hid
    obtain ⟨c, hc, rfl⟩ := hid
    have hc := List.mem_of_mem_take hc
    rw [findPending] at hc
    have hc := List.mem_of_mem_take hc
    rw [List.mem_insertionSort, List.mem_filter, decide_eq_true_eq] at hc
    obtain ⟨hmem, hst, hfree⟩ := hc
    refine ⟨⟨c, hmem, rfl, hst⟩, ?_⟩
    rintro ph ⟨e, he, hid, rfl⟩
    by_contra hne
    apply hfree
    rw [blockedIDs, List.mem_map]
    exact ⟨e, List.mem_filter.mpr ⟨he, by simp [hne]⟩, hid⟩

theorem ready_nodup (h : Inv cfg w) (answered : Bool) : (ready cfg now w answered).Nodup := by
  cases answered with
  | false => exact List.nodup_nil
  | true =>
    have hpending :
        ((findPending w.commands (blockedIDs now w.inFlight) (scanLimit cfg)).map
          CancelCommand.id).Nodup := by
      refine List.Nodup.sublist ((List.take_sublist _ _).map CancelCommand.id) ?_
      rw [((List.perm_insertionSort _ _).map CancelCommand.id).nodup_iff]
      exact h.commands.sublist (List.filter_sublist.map CancelCommand.id)
    exact hpending.sublist ((List.take_sublist _ _).map CancelCommand.id)

theorem length_ready_le (cfg : Config) (now : Nat) (w : Worker) (answered : Bool) :
    (ready cfg now w answered).length ≤ maxDispatch cfg - w.dispatching := by
  cases answered with
  | false => exact Nat.zero_le _
  | true =>
    simp only [ready, if_true, List.length_map]
    exact List.length_take_le _ _

theorem Inv.dispatched (h : Inv cfg w) (hstage : w.stage = .dispatching) (answered : Bool) :
    Inv cfg { dispatchReady cfg now w answered with stage := .select } where
  commands := h.commands
  entries := nodup_foldl_markDispatching _ h.entries
  known := by
    intro id hid
    obtain ⟨ph, hat⟩ := mem_map_iff_at.mp hid
    rcases (at_foldl_markDispatching _ _).mp hat with ⟨hstart, -⟩ | ⟨-, hold⟩
    · obtain ⟨c, hc, hid, -⟩ := (mem_ready hstart).1
      exact List.mem_map.mpr ⟨c, hc, hid⟩
    · exact h.known id (mem_map_iff_at.mpr ⟨ph, hold⟩)
  calls := by
    refine List.nodup_append.mpr ⟨h.calls, ready_nodup h answered, ?_⟩
    rintro id hid _ hstart rfl
    cases (mem_ready hstart).2 _ (h.calling id hid)
  count := by
    simp only [dispatchReady, List.length_append, h.count]
  bounded := by
    have hlength := length_ready_le cfg now w answered
    have hcount := h.count
    have hbound := h.bounded
    simp only [dispatchReady, List.length_append]
    omega
  calling := by
    intro id hid
    refine (at_foldl_markDispatching _ _).mpr ?_
    by_cases hstart : id ∈ ready cfg now w answered
    · exact .inl ⟨hstart, rfl⟩
    · rcases List.mem_append.mp hid with hid | hid
      · exact .inr ⟨hstart, h.calling id hid⟩
      · exact absurd hid hstart
  called := by
    intro _ id hat
    rcases (at_foldl_markDispatching _ _).mp hat with ⟨hstart, -⟩ | ⟨-, hold⟩
    · exact List.mem_append_right _ hstart
    · exact List.mem_append_left _ (h.called (by simp [hstage]) id hold)
  removed := by
    intro id hid
    rcases h.removed id hid with hawait | hclosed
    · left
      refine (at_foldl_markDispatching _ _).mpr (.inr ⟨fun hstart => ?_, hawait⟩)
      cases (mem_ready hstart).2 _ hawait
    · exact .inr hclosed
  idle := by
    intro id hid hmem
    rcases List.mem_append.mp hmem with hmem | hstart
    · exact h.idle id hid hmem
    · obtain ⟨hopen, hphase⟩ := mem_ready hstart
      rcases h.removed id hid with hawait | ⟨-, hclosed⟩
      · cases hphase _ hawait
      · exact hclosed hopen

/-- While it stops, the worker only takes results off the channel. -/
theorem Inv.drained (h : Inv cfg w) (hstage : w.stage = .draining) (hcall : id ∈ w.calls) :
    Inv cfg (received w id) :=
  { h with
    calls := h.calls.erase id
    count := by
      have hlength := List.length_erase_of_mem hcall
      simp only [received, hlength, h.count]
    bounded := List.length_erase_le.trans h.bounded
    calling := fun id' hid' => h.calling id' (List.mem_of_mem_erase hid')
    called := fun hne => absurd hstage hne
    idle := fun id' hid' hmem => h.idle id' hid' (List.mem_of_mem_erase hmem) }

/-! ## Whole runs -/

theorem Inv.step {l : Label} (h : Inv cfg w) (hstep : step cfg l w = some w') : Inv cfg w' := by
  cases l with
  | create c =>
    obtain ⟨⟨hnew, _⟩, rfl⟩ := Lts.of_enabled hstep
    have hids : (w.commands ++ [c]).map CancelCommand.id = w.commands.map CancelCommand.id ++
        [c.id] := List.map_append
    apply h.setCommands
    · rw [hids]
      exact List.prefix_append _ _
    · exact nodup_concat h.commands hnew
    · intro id hid hp
      exact isPending_append hp fun he => hnew (he ▸ hid)
  | commit ids =>
    obtain ⟨_, rfl⟩ := Lts.of_enabled hstep
    apply h.setCommands
    · rw [map_id_markProcessed]
    · rw [map_id_markProcessed]
      exact h.commands
    · intro id _ hp
      exact (isPending_markProcessed.mp hp).1
  | wake =>
    obtain ⟨hstage, rfl⟩ := Lts.of_enabled hstep
    exact h.setStage _ fun _ => by simp [hstage]
  | result id answer now =>
    obtain ⟨⟨hstage, hcall⟩, rfl⟩ := Lts.of_enabled hstep
    exact h.result hstage hcall answer
  | release answered now =>
    obtain ⟨hstage, rfl⟩ := Lts.of_enabled hstep
    exact h.released hstage answered
  | dispatch answered now =>
    obtain ⟨hstage, rfl⟩ := Lts.of_enabled hstep
    exact h.dispatched hstage answered
  | stop =>
    obtain ⟨_, rfl⟩ := Lts.of_enabled hstep
    exact h.setStage _ fun hne => absurd rfl hne
  | drain id =>
    obtain ⟨⟨hstage, hcall⟩, rfl⟩ := Lts.of_enabled hstep
    exact h.drained hstage hcall

theorem reach_inv {ok : Worker → Label → Prop} (h : Lts.Reach (step cfg) ok init w) : Inv cfg w :=
  h.invariant (Inv cfg) inv_init fun _ _ _ _ hi _ hs => hi.step hs

/-- What the worker notices: a command is not completed while its entry is in backoff, the worker
does not put one in backoff that is completed, and the lookup of a round is answered. -/
def Noticed (w : Worker) : Label → Prop
  | .commit ids => ∀ id ∈ ids, ¬ At w.inFlight id .backoff
  | .result id answer _ => retried answer = true → isPending w.commands id ∧ lostNoop answer = false
  | .release answered _ => answered = true
  | _ => True

/-- Entries in backoff are those of PENDING commands. -/
def Waiting (w : Worker) : Prop := ∀ id, At w.inFlight id .backoff → isPending w.commands id

theorem Waiting.result (h : Waiting w) (hi : Inv cfg w) (hcall : id ∈ w.calls) (answer : Answer)
    (hnoticed : retried answer = true → isPending w.commands id ∧ lostNoop answer = false) :
    Waiting { applyResult cfg now (noted (received w id) id answer) id answer with
      stage := .releasing } := by
  have happlied := hi.applied now hcall answer
  generalize applyResult cfg now (noted (received w id) id answer) id answer = w₁ at happlied
  intro id' hat
  cases happlied with
  | awaits hanswer =>
    subst hanswer
    by_cases he : id' = id
    · subst he
      cases ((at_modify_self (g := awaitOutbox now) (fun _ => rfl) (fun _ => rfl)).mp hat).2
    · exact h id' ((at_modify_ne (g := awaitOutbox now) (fun _ => rfl) he).mp hat)
  | retries hretried _ =>
    rw [noted_of_ne (by rintro rfl; cases hretried)] at hat ⊢
    by_cases he : id' = id
    · subst he
      exact (hnoticed hretried).1
    · exact h id' ((at_modify_ne (g := scheduleRetry cfg now) (fun _ => rfl) he).mp hat)
  | retriesClosed hretried hlost =>
    rw [(hnoticed hretried).2] at hlost
    cases hlost
  | closes hne =>
    rw [noted_of_ne hne] at hat ⊢
    obtain ⟨hat, he⟩ := at_delete.mp hat
    exact isPending_markNoop.mpr ⟨h id' hat, he⟩

theorem Waiting.step {l : Label} (h : Waiting w) (hi : Inv cfg w) (hok : Noticed w l)
    (hstep : CancelWorker.step cfg l w = some w') : Waiting w' := by
  cases l with
  | create c =>
    obtain ⟨_, rfl⟩ := Lts.of_enabled hstep
    intro id hat
    obtain ⟨c', hc', hid, hst⟩ := h id hat
    exact ⟨c', List.mem_append_left _ hc', hid, hst⟩
  | commit ids =>
    obtain ⟨_, rfl⟩ := Lts.of_enabled hstep
    exact fun id hat => isPending_markProcessed.mpr ⟨h id hat, fun hid => hok id hid hat⟩
  | wake =>
    obtain ⟨_, rfl⟩ := Lts.of_enabled hstep
    exact h
  | result id answer now =>
    obtain ⟨⟨_, hcall⟩, rfl⟩ := Lts.of_enabled hstep
    exact h.result hi hcall answer hok
  | release answered now =>
    obtain ⟨_, rfl⟩ := Lts.of_enabled hstep
    cases hok
    intro id hat
    rw [at_warnStaleAwaiting, at_releaseCompleted hi] at hat
    exact h id hat.1
  | dispatch answered now =>
    obtain ⟨_, rfl⟩ := Lts.of_enabled hstep
    intro id hat
    rcases (at_foldl_markDispatching _ _).mp hat with ⟨_, hph⟩ | ⟨_, hold⟩
    · cases hph
    · exact h id hold
  | stop =>
    obtain ⟨_, rfl⟩ := Lts.of_enabled hstep
    exact h
  | drain id =>
    obtain ⟨_, rfl⟩ := Lts.of_enabled hstep
    exact h

theorem reach_waiting (h : Lts.Reach (step cfg) Noticed init w) : Waiting w := by
  apply h.invariant Waiting
  · intro id ⟨e, he, _⟩
    exact absurd he (by simp [init])
  · exact fun t l u ht hw hok hs => hw.step (reach_inv ht) hok hs

/-- In every run there is at most one call for a command, and none for a command the worker was told
is removed. In runs in which the worker notices what happens to the commands, each entry left by
`releaseCompleted` is that of a PENDING command or has a call that has not returned, so there are
only so many. -/
theorem worker_keeps_up (cfg : Config) :
    (∀ w, Lts.Reach (step cfg) Lts.free init w → w.calls.Nodup ∧ ∀ id ∈ w.removed, id ∉ w.calls) ∧
    ∀ w w' answered now, Lts.Reach (step cfg) Noticed init w → Noticed w (.release answered now) →
      step cfg (.release answered now) w = some w' →
        (∀ e ∈ w'.inFlight, isPending w'.commands e.id ∨ e.id ∈ w'.calls) ∧
        w'.inFlight.length ≤ (w'.commands.filter fun c => c.status = .pending).length +
          maxDispatch cfg := by
  constructor
  · intro w h
    have hi := reach_inv h
    exact ⟨hi.calls, hi.idle⟩
  · intro w w' answered now h hok hstep
    have hi := reach_inv h
    have hi' := hi.step hstep
    have hwaiting := (reach_waiting h).step hi hok hstep
    obtain ⟨hstage, hw⟩ := Option.ite_none_right_eq_some.mp hstep
    have hentries : ∀ e ∈ w'.inFlight, isPending w'.commands e.id ∨ e.id ∈ w'.calls := by
      intro e he
      have hat : At w'.inFlight e.id e.phase := ⟨e, he, rfl, rfl⟩
      cases hph : e.phase with
      | dispatching => exact .inr (hi'.called (by cases hw; simp) e.id (hph ▸ hat))
      | backoff => exact .inl (hwaiting e.id (hph ▸ hat))
      | awaitingOutbox =>
        left
        cases hok
        cases hw
        rw [at_warnStaleAwaiting, at_releaseCompleted hi] at hat
        exact hat.2 hph
    refine ⟨hentries, ?_⟩
    -- the entries have distinct commands, each PENDING or called
    have hsub : w'.inFlight.map InFlight.id ⊆
        (w'.commands.filter fun c => c.status = .pending).map CancelCommand.id ++ w'.calls := by
      intro id hid
      obtain ⟨e, he, rfl⟩ := List.mem_map.mp hid
      rcases hentries e he with ⟨c, hc, hid, hst⟩ | hcall
      · exact List.mem_append_left _
          (List.mem_map.mpr ⟨c, List.mem_filter.mpr ⟨hc, by simp [hst]⟩, hid⟩)
      · exact List.mem_append_right _ hcall
    calc w'.inFlight.length = (w'.inFlight.map InFlight.id).length := (List.length_map _).symm
      _ ≤ ((w'.commands.filter fun c => c.status = .pending).map CancelCommand.id ++
        w'.calls).length :=
        (List.subperm_of_subset hi'.entries hsub).length_le
      _ = (w'.commands.filter fun c => c.status = .pending).length + w'.calls.length := by
        rw [List.length_append, List.length_map]
      _ ≤ _ := Nat.add_le_add_left hi'.bounded _

instance (entries : List InFlight) (id : Nat) (ph : CancelCommandPhase) :
    Decidable (At entries id ph) :=
  inferInstanceAs (Decidable (∃ e ∈ entries, _))

instance (w : Worker) : ∀ l, Decidable (Noticed w l)
  | .commit ids => inferInstanceAs (Decidable (∀ id ∈ ids, ¬ At w.inFlight id .backoff))
  | .result id answer _ =>
    inferInstanceAs (Decidable (retried answer = true → isPending w.commands id ∧
      lostNoop answer = false))
  | .release answered _ => inferInstanceAs (Decidable (answered = true))
  | .create _ | .wake | .dispatch _ _ | .stop | .drain _ => inferInstanceAs (Decidable True)

def defaults : Config := ⟨0, 0, 0, 0, 0⟩

/-- Of two commands one is called again after a timeout, and the other one is removed and marked by
the outbox writer. -/
def retriedAndMarked : List Label :=
  [.create ⟨1, 7, 3, "BTC", .buy, 100, .pending⟩, .create ⟨2, 8, 4, "BTC", .sell, 110, .pending⟩,
    .wake,
    .release true 0, .dispatch true 0, .result 1 (.failed .timedOut) 2000, .release true 2000,
    .dispatch true 2000, .result 2 .removed 2010, .commit [2]]

theorem worker_keeps_up_marked : ∃ w w',
    Lts.exec (Lts.guarded (step defaults) Noticed) retriedAndMarked init = some w ∧
    step defaults (.release true 2050) w = some w' ∧ w.inFlight.map InFlight.id = [1, 2] ∧
    w'.inFlight.map InFlight.id = [1] ∧
    (∀ e ∈ w'.inFlight, isPending w'.commands e.id ∨ e.id ∈ w'.calls) ∧
    w'.inFlight.length ≤ (w'.commands.filter fun c => c.status = .pending).length +
      maxDispatch defaults := by
  have hrun : ((Lts.exec (Lts.guarded (step defaults) Noticed) retriedAndMarked init).bind fun w =>
      (step defaults (.release true 2050) w).map fun w' =>
        (w.inFlight.map InFlight.id, w'.inFlight.map InFlight.id)) = some ([1, 2], [1]) := by
          decide +kernel
  obtain ⟨w, hw, h⟩ := Option.bind_eq_some_iff.mp hrun
  obtain ⟨w', hstep, hends⟩ := Option.map_eq_some_iff.mp h
  obtain ⟨hbefore, hafter⟩ := Prod.mk.inj hends
  exact ⟨w, w', hw, hstep, hbefore, hafter,
    (worker_keeps_up defaults).2 w w' true 2050 (Lts.reach_of_exec_guarded _ hw) rfl hstep⟩

/-- One command, called once. -/
def called : List Label :=
  [.create ⟨1, 7, 3, "BTC", .buy, 100, .pending⟩, .wake, .release true 0, .dispatch true 0]

/-- The call times out, the engine cancels the order all the same, and the outbox writer marks the
command. Its entry is in backoff, where nothing looks for the end of a command. -/
theorem entry_left_behind : ∃ w w', Lts.Reach (step defaults) Lts.free init w ∧
    step defaults (.release true 2050) w = some w' ∧
    ∃ e ∈ w'.inFlight, ¬ isPending w'.commands e.id ∧ e.id ∉ w'.calls := by
  have hrun :
      ((Lts.exec (step defaults) (called ++ [.result 1 (.failed .timedOut) 2000, .commit [1]])
        init).bind
      (step defaults (.release true 2050))).map (fun w => (w.inFlight, w.commands, w.calls)) =
      some ([⟨1, .backoff, 2100, 100, 0, false⟩], [⟨1, 7, 3, "BTC", .buy, 100, .processed⟩],
        []) := by decide +kernel
  obtain ⟨w', h, hfields⟩ := Option.map_eq_some_iff.mp hrun
  obtain ⟨w, hw, hstep⟩ := Option.bind_eq_some_iff.mp h
  simp only [Prod.mk.injEq] at hfields
  refine ⟨w, w', Lts.reach_of_exec _ hw, hstep, ?_⟩
  rw [hfields.1, hfields.2.1, hfields.2.2]
  exact ⟨_, List.mem_singleton_self _, by decide, by simp⟩

end GoExchange.CancelWorker
