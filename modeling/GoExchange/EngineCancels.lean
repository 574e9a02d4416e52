import GoExchange.EnginePace
import GoExchange.EngineSerial

/-!
# Answers to cancels

A command leaves `CancelCh` for the latch or straight for its answer, and the
latch is emptied first. So commands are answered in the order they were sent,
each once, and a latched one within two turns: the first of them may have used
up its quota, the second starts with a new one.
-/
namespace GoExchange.Engine

open Matching Core

/-- The engine with the cancels sent to it. -/
structure Served where
  engine : State
  sent : List CancelOrderCommand

def Served.init (engineID : Nat) : Served := ⟨Engine.init engineID, []⟩

def Label.cancels : Label → List CancelOrderCommand
  | .sendCancel cmd => [cmd]
  | _ => []

section

variable (cfg : EngineConfig)

def servedStep (l : Label) (p : Served) : Option Served :=
  (step cfg l p.engine).map fun s => ⟨s, p.sent ++ l.cancels⟩

/-- A bound on the engine's own steps until a latched cancel is answered. -/
def stepsToAnswer (s : State) : Nat :=
  match s.pc with
  | .start =>
    if quotaLeft cfg s then 3 else cfg.maxMatchesPerTurn.toNat + s.dirtySymbols.length + 14
  | .cancelHead _ _ =>
    if quotaLeft cfg s then 2 else cfg.maxMatchesPerTurn.toNat + s.dirtySymbols.length + 13
  | .cancelTake _ _ _ => 1
  | .stopCheck true => 5
  | .parkCheck => 4
  | _ => stepsAhead cfg s + 5

end

def cancelled? : ExecutionEvent → Option OrderCancelled
  | .orderCancelled c => some c
  | _ => none

/-- The `OrderCancelled` events sent. -/
def cancelEvents (s : State) : List OrderCancelled := (events s).filterMap cancelled?

variable {cfg : EngineConfig} {s s' t : State} {l : Label} {engineID : Nat} {p p' : Served}
  {cmd : CancelOrderCommand} {ok : State → Label → Prop}

/-! ## The latches -/

/-- Positions at which nothing is latched: the engine has no work, or it is on its way out. -/
def Pc.Clear : Pc → Bool
  | .select _ | .drain | .lastFlush | .returned => true
  | _ => false

structure LatchInv (s : State) : Prop where
  parked : s.pc = .parkSelect → s.pendingCancel = none
  clear : s.pc.Clear = true → s.pendingCancel = none ∧ s.pendingOrder = none
  /-- A turn begins with a budget for the latched cancel, which it takes first. -/
  budget : ∀ hadActive budget,
    (s.pc = .cancelHead hadActive budget ∨ s.pc = .cancelTake hadActive budget true) →
    s.pendingCancel.isSome = true → budget ≠ 0

/-- Positions of which the latches ask something. -/
def Pc.Latched : Pc → Bool
  | .parkSelect | .select _ | .drain | .lastFlush | .returned | .cancelHead _ _
  | .cancelTake _ _ true => true
  | _ => false

theorem LatchInv.of_pc (h : s.pc.Latched = false) : LatchInv s where
  parked he := by
    rw [he] at h
    cases h
  clear he := by
    cases hpc : s.pc <;> rw [hpc] at h he <;> cases he <;> cases h
  budget a b he := by
    rcases he with he | he <;> rw [he] at h <;> cases h

theorem init_latches (engineID : Nat) : LatchInv (init engineID) := .of_pc rfl

theorem LatchInv.turn (h : LatchInv s) (ht : Turn cfg s s') : LatchInv s' := by
  have hhead : ∀ {t : State} {a b}, (t.pendingCancel.isSome = true → b ≠ 0) →
      (t.pc = .cancelHead a b ∨ t.pc = .cancelTake a b true) → LatchInv t := by
    intro t a b hbudget hpc
    constructor
    · intro he
      rcases hpc with hpc | hpc <;> rw [hpc] at he <;> cases he
    · intro he
      rcases hpc with hpc | hpc <;> rw [hpc] at he <;> cases he
    · intro _ _ hb
      rcases hpc with hpc | hpc <;> rw [hpc] at hb <;> rcases hb with hb | hb <;> cases hb <;>
        exact hbudget
  have hclear : ∀ {t : State}, t.pendingCancel = none ∧ t.pendingOrder = none → t.pc.Clear = true →
      LatchInv t := by
    intro t hnone hpc
    refine ⟨fun _ => hnone.1, fun _ => hnone, fun a b hb => ?_⟩
    rcases hb with hb | hb <;> rw [hb] at hpc <;> cases hpc
  cases ht with
  | start hpc =>
    refine hhead (fun hs => ?_) (.inl rfl)
    have hs : s.pendingCancel.isSome = true := hs
    obtain ⟨cmd, hcmd⟩ := Option.isSome_iff_exists.mp hs
    simp [waiting, hcmd]
  | reject hpc hreject hbudget => exact hhead (fun _ => hbudget) (.inr rfl)
  | rejected | refused | removed => exact hhead (fun h => by cases h) (.inl rfl)
  | park hpc hblocked hcancel =>
    refine ⟨fun _ => hcancel, (fun h => by cases h), fun _ _ hb => ?_⟩
    rcases hb with hb | hb <;> cases hb
  | leave _ _ hcancel horder | rest _ _ hcancel horder => exact hclear ⟨hcancel, horder⟩ rfl
  | drained hpc | close hpc => exact hclear (h.clear (by rw [hpc]; rfl)) rfl
  | _ => exact .of_pc rfl

theorem LatchInv.step (h : LatchInv s) (hs : Stepped cfg s l s') : LatchInv s' := by
  cases hs with
  | turn ht => exact h.turn ht
  | recvCancel | recvOrder | recvTick | recvStop | recvCapacity => exact .of_pc rfl
  | flush | submitOrder | sendCancel | consume | consumeSnapshot | tick | stop | wake =>
    exact { h with }

theorem LatchInv.waits (h : LatchInv s) (hw : s.pc.Waits) : s.pendingCancel = none := by
  unfold Pc.Waits at hw
  split at hw
  · rename_i hpc
    exact (h.clear (by rw [hpc]; rfl)).1
  · rename_i hpc
    exact h.parked hpc
  · exact hw.elim

theorem reach_latches (h : Lts.Reach (step cfg) ok (init engineID) s) : LatchInv s :=
  h.invariant LatchInv (init_latches engineID) fun _ _ _ hr hi _ hs =>
    hi.step (stepped_of_step (reach_reserve hr) hs)

/-! ## Nothing sent is lost -/

/-- Orders and cancels sent are admitted and answered in the order sent, and what is left of them
waits. -/
structure QueueInv (p : Served) : Prop where
  orders : p.engine.submitted = p.engine.admitted ++ intake p.engine
  cancels : p.sent = p.engine.answers.map Prod.fst ++ waiting p.engine

/-- A step that leaves the queues alone. -/
theorem QueueInv.keep (h : QueueInv p)
    (horders : s'.submitted = p.engine.submitted ∧ s'.admitted = p.engine.admitted)
    (hintake : intake s' = intake p.engine) (hanswers : s'.answers = p.engine.answers)
    (hwaiting : waiting s' = waiting p.engine) : QueueInv ⟨s', p.sent⟩ where
  orders := by rw [horders.1, horders.2, hintake, h.orders]
  cancels := by rw [hanswers, hwaiting, h.cancels]

theorem QueueInv.turn (h : QueueInv p) (hl : LatchInv p.engine) (ht : Turn cfg p.engine s') :
    QueueInv ⟨s', p.sent⟩ := by
  cases ht with
  | rejected _ hwait | refused _ hwait | removed _ hwait =>
    refine ⟨h.orders, h.cancels.trans ?_⟩
    rw [hwait]
    simp [removal, markDirty, answered, answer, waiting]
  | admitted _ hnext | skipped _ hnext =>
    refine ⟨h.orders.trans ?_, h.cancels⟩
    rw [hnext]
    simp [intake]
  | drainCancel hpc hch =>
    have hnone := (hl.clear (by rw [hpc]; rfl)).1
    exact h.keep ⟨rfl, rfl⟩ rfl rfl (by simp [waiting, hnone, hch])
  | drainOrder hpc _ hch =>
    have hnone := (hl.clear (by rw [hpc]; rfl)).2
    exact h.keep ⟨rfl, rfl⟩ (by simp [intake, hnone, hch]) rfl rfl
  | _ => exact h.keep ⟨rfl, rfl⟩ rfl rfl rfl

theorem QueueInv.step (h : QueueInv p) (hl : LatchInv p.engine) (hs : Stepped cfg p.engine l s') :
    QueueInv ⟨s', p.sent ++ l.cancels⟩ := by
  cases hs with
  | sendCancel cmd =>
    refine ⟨h.orders, ?_⟩
    change p.sent ++ [cmd] = _ ++ (p.engine.pendingCancel.toList ++ (p.engine.cancelCh ++ [cmd]))
    rw [h.cancels, waiting]
    simp
  | submitOrder o =>
    refine ⟨?_, (List.append_nil _).trans h.cancels⟩
    change p.engine.submitted ++ [o] =
      p.engine.admitted ++ (p.engine.pendingOrder.toList ++ (p.engine.orderCh ++ [o]))
    rw [h.orders, intake]
    simp
  | turn ht =>
    simp only [Label.cancels, List.append_nil]
    exact h.turn hl ht
  | recvCancel hpc hch =>
    simp only [Label.cancels, List.append_nil]
    exact h.keep ⟨rfl, rfl⟩ rfl rfl (by simp [waiting, hl.waits hpc, hch])
  | recvOrder hpc hch =>
    simp only [Label.cancels, List.append_nil]
    have hnone := (hl.clear (by rw [hpc]; rfl)).2
    exact h.keep ⟨rfl, rfl⟩ (by simp [intake, hnone, hch]) rfl rfl
  | _ =>
    simp only [Label.cancels, List.append_nil]
    exact h.keep ⟨rfl, rfl⟩ rfl rfl rfl

theorem reach_engine_of_served (h : Lts.Reach (servedStep cfg) Lts.free (Served.init engineID) p) :
    Lts.Reach (step cfg) Lts.free (init engineID) p.engine :=
  h.project Served.engine fun _ _ _ _ _ hs => by
    obtain ⟨s', hstep, rfl⟩ := Option.map_eq_some_iff.mp hs
    exact Lts.Reach.refl.next trivial hstep

theorem reach_queues (h : Lts.Reach (servedStep cfg) Lts.free (Served.init engineID) p) :
    QueueInv p := by
  refine h.invariant QueueInv ⟨rfl, rfl⟩ fun p l p' hr hi _ hs => ?_
  obtain ⟨s', hstep, rfl⟩ := Option.map_eq_some_iff.mp hs
  have hre := reach_engine_of_served hr
  exact hi.step (reach_latches hre) (stepped_of_step (reach_reserve hre) hstep)

/-! ## A latched cancel is answered -/

/-- Where the engine stands with a cancel in its latch: before the cancel is taken, on its way to a
progress point, or past it with a new quota. -/
def Answering (cfg : EngineConfig) (s : State) : Prop :=
  match s.pc with
  | .start | .cancelHead _ _ | .cancelTake _ _ _ => True
  | .stopCheck true | .parkCheck => quotaLeft cfg s
  | _ => Due cfg s

/-- The positions before the progress point at which nothing else is asked. -/
theorem answering_of_due (h : Due cfg s) :
    Answering cfg s ∧ stepsToAnswer cfg s = stepsAhead cfg s + 5 := by
  cases hpc : s.pc with
  | start | cancelHead | cancelTake | parkCheck => simp [Due, hpc] at h
  | stopCheck hadActive =>
    cases hadActive with
    | true => simp [Due, hpc] at h
    | false => exact ⟨by simp [Answering, Due, hpc], by simp [stepsToAnswer, hpc]⟩
  | _ => exact ⟨by simpa only [Answering, hpc] using h, by simp [stepsToAnswer, hpc]⟩

theorem Answering.keep (h : Answering cfg s) (hpc : s'.pc = s.pc)
    (hcount : s'.cancelsSinceProgress = s.cancelsSinceProgress) (hdue : Due cfg s → Due cfg s') :
    Answering cfg s' := by
  cases hp : s.pc with
  | start | cancelHead | cancelTake => simp only [Answering, hpc, hp]
  | parkCheck =>
    simp only [Answering, hp] at h
    simpa only [Answering, hpc, hp, quotaLeft, hcount] using h
  | stopCheck hadActive =>
    cases hadActive with
    | true =>
      simp only [Answering, hp] at h
      simpa only [Answering, hpc, hp, quotaLeft, hcount] using h
    | false =>
      simp only [Answering, hp] at h
      simpa only [Answering, hpc, hp] using hdue h
  | _ =>
    simp only [Answering, hp] at h
    simpa only [Answering, hpc, hp] using hdue h

/-- What a step leaves of a latched cancel: its answer, or a shorter way to it. -/
def Closer (cfg : EngineConfig) (s s' : State) (l : Label) (cmd : CancelOrderCommand) : Prop :=
  (s'.pendingCancel = none ∧ ∃ r, s'.answers = s.answers ++ [(cmd, r)]) ∨
    (s'.pendingCancel = some cmd ∧ s'.answers = s.answers ∧ Answering cfg s') ∧
      stepsToAnswer cfg s' + l.own.toNat ≤ stepsToAnswer cfg s

theorem closer_of_due (hcmd : s'.pendingCancel = some cmd)
    (hans : s'.answers = s.answers) (hdue : Due cfg s) (hp : Paces cfg s s' l none) :
    Closer cfg s s' l cmd := by
  cases hp with
  | quiet _ _ hquiet =>
    obtain ⟨hdue', hrank⟩ := hquiet hdue
    refine .inr ⟨⟨hcmd, hans, (answering_of_due hdue').1⟩, ?_⟩
    rw [(answering_of_due hdue).2, (answering_of_due hdue').2]
    omega

theorem closer_of_turn (hi : ReserveInv cfg s) (hb : BookInv s) (hpos : PosInv cfg s)
    (hl : LatchInv s) (hcmd : s.pendingCancel = some cmd) (ha : Answering cfg s)
    (ht : Turn cfg s s') : Closer cfg s s' .advance cmd := by
  have hsome : s.pendingCancel.isSome = true := by simp [hcmd]
  have hp := paces_of_turn hi hb hpos ht
  have hzero : ((0 : Nat) : Int) < cfg.maxConsecutiveCancels := by
    have := cfg.one_le.2
    omega
  cases ht with
  | start hpc =>
    refine .inr ⟨⟨hcmd, rfl, trivial⟩, ?_⟩
    simp only [stepsToAnswer, hpc, quotaLeft, Label.own, Bool.toNat_true]
    by_cases hquota : (s.cancelsSinceProgress : Int) < cfg.maxConsecutiveCancels <;> simp [hquota]
  | accept hpc hquota =>
    refine .inr ⟨⟨hcmd, rfl, trivial⟩, ?_⟩
    simp [stepsToAnswer, hpc, hquota, Label.own]
  | reject hpc =>
    refine .inr ⟨⟨hcmd, rfl, trivial⟩, ?_⟩
    simp only [stepsToAnswer, hpc, Label.own, Bool.toNat_true]
    split <;> omega
  | spent hpc => exact absurd rfl (hl.budget _ 0 (.inl hpc) hsome)
  | held hpc hquota hfree hblocked =>
    rw [show mark cfg s .advance = some .held by simp [mark, hpc, hquota, hfree, hblocked]] at hp
    cases hp with
    | held _ _ _ hdue' =>
      refine .inr ⟨⟨hcmd, rfl, (answering_of_due hdue').1⟩, ?_⟩
      rw [(answering_of_due hdue').2]
      simp only [stepsToAnswer, stepsAhead, hpc, hquota, Label.own, Bool.toNat_true, if_false]
      omega
  | noCancel _ hnone => simp [waiting, hcmd] at hnone
  | rejected _ hwait | refused _ hwait | removed _ hwait =>
    simp only [waiting, hcmd, Option.toList_some, List.cons_append, List.cons.injEq] at hwait
    obtain ⟨rfl, -⟩ := hwait
    exact .inl ⟨rfl, _, rfl⟩
  | publish hpc | noPublish hpc | published hpc | beginSlice hpc | noSlice hpc | trade hpc
  | matched hpc | panicked hpc
  | stopAdmits hpc =>
    rw [show mark cfg s .advance = none by simp [mark, hpc]] at hp
    exact closer_of_due hcmd rfl (by simpa only [Answering, hpc] using ha) hp
  | yielded hpc | marketDone hpc | rested hpc | filled hpc =>
    cases hadActive_of_sliced hi hb hpc
    refine .inr ⟨⟨hcmd, rfl, hzero⟩, ?_⟩
    simp [stepsToAnswer, stepsAhead, hpc, sliceClosed, Label.own]
  | stopParks hpc =>
    have hquota : quotaLeft cfg s := by simpa only [Answering, hpc] using ha
    refine .inr ⟨⟨hcmd, rfl, hquota⟩, ?_⟩
    simp [stepsToAnswer, hpc, Label.own]
  | admitted hpc | skipped hpc | noOrder hpc =>
    refine .inr ⟨⟨hcmd, rfl, hzero⟩, ?_⟩
    simp [stepsToAnswer, stepsAhead, hpc, Label.own]
  | park _ _ hcancel | leave _ _ hcancel | rest _ _ hcancel => simp [hcancel] at hcmd
  | again hpc =>
    have hquota : quotaLeft cfg s := by simpa only [Answering, hpc] using ha
    refine .inr ⟨⟨hcmd, rfl, trivial⟩, ?_⟩
    have hquota' : quotaLeft cfg { s with pc := .start } := hquota
    simp only [stepsToAnswer, hpc, hquota', if_true, Label.own, Bool.toNat_true]
    omega
  | drainCancel hpc | drainOrder hpc | drained hpc | close hpc =>
    simp [(hl.clear (by rw [hpc]; rfl)).1] at hcmd

theorem closer_of_step (hi : ReserveInv cfg s) (hb : BookInv s) (hpos : PosInv cfg s)
    (hl : LatchInv s) (hcmd : s.pendingCancel = some cmd) (ha : Answering cfg s)
    (hs : Stepped cfg s l s') : Closer cfg s s' l cmd := by
  have hp := paces_of_step hi hb hpos hs
  cases hs with
  | turn ht => exact closer_of_turn hi hb hpos hl hcmd ha ht
  | flush symbol hpc hdirty =>
    rcases hpc with ⟨hadActive, hpc⟩ | hpc
    · exact closer_of_due hcmd rfl (by simpa only [Answering, hpc] using ha) hp
    · simp [(hl.clear (by rw [hpc]; rfl)).1] at hcmd
  | recvCancel hpc | recvTick hpc | recvStop hpc => simp [hl.waits hpc] at hcmd
  | recvOrder hpc | recvCapacity hpc => simp [hl.waits (by rw [hpc]; trivial)] at hcmd
  | submitOrder | sendCancel | consumeSnapshot | tick | stop | wake =>
    exact .inr ⟨⟨hcmd, rfl, ha⟩, le_rfl⟩
  | consume hch =>
    refine .inr ⟨⟨hcmd, rfl, ha.keep rfl rfl fun hd => ?_⟩, le_rfl⟩
    cases hp with
    | quiet _ _ hquiet => exact (hquiet hd).1

/-- The latch is filled at the start of a turn only. -/
theorem latched_of_step (hs : Stepped cfg s l s') (hnone : s.pendingCancel = none) :
    s'.pendingCancel = none ∨ s'.pc = .start := by
  cases hs with
  | turn ht =>
    cases ht with
    | rejected | refused | removed => exact .inl rfl
    | drainCancel => exact .inr rfl
    | _ => exact .inl hnone
  | recvCancel => exact .inr rfl
  | _ => exact .inl hnone

theorem reach_positions (h : Lts.Reach (step cfg) ok (init engineID) s) : PosInv cfg s :=
  h.invariant (PosInv cfg) (init_positions engineID) fun _ _ _ hr hi _ hs =>
    hi.step (stepped_of_step (reach_reserve hr) hs)

theorem reach_answering (h : Lts.Reach (step cfg) ok (init engineID) s) :
    ∀ cmd, s.pendingCancel = some cmd → Answering cfg s := by
  refine h.invariant (fun s => ∀ cmd, s.pendingCancel = some cmd → Answering cfg s)
    (fun _ he => by cases he) fun t l u hr hi _ hs cmd hcmd => ?_
  have hres := reach_reserve hr
  have hst := stepped_of_step hres hs
  cases hp : t.pendingCancel with
  | none =>
    rcases latched_of_step hst hp with hnone | hstart
    · simp [hnone] at hcmd
    · simp only [Answering, hstart]
  | some c =>
    rcases closer_of_step hres (reach_books hr) (reach_positions hr) (reach_latches hr) hp
      (hi c hp) hst with
      ⟨hnone, -⟩ | ⟨⟨-, -, ha⟩, -⟩
    · simp [hnone] at hcmd
    · exact ha

/-! ## The step that answers -/

/-- `cmd` is latched, and no cancel was answered since `answers`. -/
def Latched (cfg : EngineConfig) (engineID : Nat) (cmd : CancelOrderCommand)
    (answers : List (CancelOrderCommand × CancelOrderResult)) (q : Served) : Prop :=
  Lts.Reach (servedStep cfg) Lts.free (Served.init engineID) q ∧ q.engine.pendingCancel = some cmd ∧
    q.engine.answers = answers

/-- The step answers `cmd`. -/
def Answers (cfg : EngineConfig) (cmd : CancelOrderCommand) (q : Served) (l : Label) : Prop :=
  ∀ q', servedStep cfg l q = some q' → ∃ r, q'.engine.answers = q.engine.answers ++ [(cmd, r)]

theorem Latched.step {answers : List (CancelOrderCommand × CancelOrderResult)}
    (h : Latched cfg engineID cmd answers p) (hs : servedStep cfg l p = some p') :
    p.engine.answers = answers ∧ Answers cfg cmd p l ∨
      Latched cfg engineID cmd answers p' ∧
        stepsToAnswer cfg p'.engine + l.own.toNat ≤ stepsToAnswer cfg p.engine := by
  obtain ⟨hr, hcmd, hans⟩ := h
  have hr' := hr.next (a := l) trivial hs
  obtain ⟨s', hs', hp'⟩ := Option.map_eq_some_iff.mp hs
  have hre := reach_engine_of_served hr
  rcases closer_of_step (reach_reserve hre) (reach_books hre) (reach_positions hre)
    (reach_latches hre) hcmd
    (reach_answering hre cmd hcmd) (stepped_of_step (reach_reserve hre) hs') with
    ⟨-, r, hanswer⟩ | ⟨⟨hcmd', hans', -⟩, hrank⟩
  · refine .inl ⟨hans, fun q hq => ⟨r, ?_⟩⟩
    cases hs.symm.trans hq
    exact hp' ▸ hanswer
  · subst hp'
    exact .inr ⟨⟨hr', hcmd', hans'.trans hans⟩, hrank⟩

/-- The command an event answers, by the fields they share. -/
def eventKey (c : OrderCancelled) : Nat × Nat × String × OrderSide :=
  (c.commandID, c.orderID, c.coinSymbol, c.side)

def commandKey (c : CancelOrderCommand) : Nat × Nat × String × OrderSide :=
  (c.commandID, c.orderID, c.coinSymbol, c.side)

/-- The events of cancels are those of the commands answered as removed, in the order of the
answers. -/
def Matched (s : State) : Prop := (cancelEvents s).map eventKey = (removedCancels s).map commandKey

theorem Matched.keep (h : Matched s) (hem : events s' = events s)
    (hans : removedCancels s' = removedCancels s) : Matched s' := by
  unfold Matched cancelEvents at *
  rw [hem, hans, h]

theorem Matched.move (h : Matched s) (hm : Move s l s') : Matched s' := by
  have hevents : s'.emitted = s.emitted → events s' = events s :=
    fun he => by rw [events, he, events]
  have hanswers : s'.answers = s.answers → removedCancels s' = removedCancels s := fun ha => by
    rw [removedCancels, ha, removedCancels]
  have hevent : ∀ es : List ExecutionEvent, events s' = events s ++ es →
      es.filterMap cancelled? = [] → removedCancels s' = removedCancels s → Matched s' := by
    intro es hem hnone hans
    unfold Matched cancelEvents at *
    rw [hem, List.filterMap_append, hnone, List.append_nil, hans, h]
  cases hm with
  | submit | register => exact h
  | refused same hne _ hans =>
    refine h.keep (hevents same.emitted) ?_
    rw [removedCancels, hans, List.filterMap_append]
    simp [hne, removedCancels]
  | removed same hcancel hcore hans hem hev =>
    unfold Matched cancelEvents at *
    rw [events, hem, List.map_append, List.filterMap_append, List.map_append, removedCancels, hans,
      List.filterMap_append, List.map_append]
    rw [events] at h
    rw [h]
    simp [hev, cancelled?, removedCancels, eventKey, commandKey]
  | @traded _ _ _ _ _ _ _ em same _ _ _ _ _ _ hem hev =>
    exact hevent [em.event] (by simp [events, hem]) (by simp [hev, cancelled?])
      (hanswers same.answers)
  | finished same _ _ _ _ hem =>
    refine hevent _ hem ?_ (hanswers same.answers)
    unfold finishEvents
    split <;> rfl
  | idle same | halted same | yielded same | admitted same | skipped same =>
    exact h.keep (hevents same.emitted) (hanswers same.answers)

theorem reach_matched (h : Lts.Reach (step cfg) ok (init engineID) s) : Matched s :=
  h.invariant Matched (show Matched (init engineID) from rfl) fun _ _ _ hr hi _ hs =>
    hi.move (move_of_step (reach_reserve hr) hs)

end GoExchange.Engine
