import GoExchange.EngineBooks
import GoExchange.Windows

/-!
# The pace of cancels

Cancels are served before orders, but only so many between two progress points:
a slice of the active sweep, or one pass of the admission. A turn has at most
one such point, and a turn that holds back cancels for their quota alone comes
to it.
-/
namespace GoExchange.Engine

open Matching Windows

/-- What a step means for the pace: a turn begins, a cancel is processed, the progress point is
reached, or `cancelPhase` stops with its quota used up, a slot free and the active slice not
blocked. -/
inductive Mark where
  | turn | cancel | progress | held
  deriving DecidableEq, Repr

section

variable (cfg : EngineConfig)

instance (s : State) : Decidable (quotaLeft cfg s) := inferInstanceAs (Decidable (_ < _))

def mark (s : State) : Label → Option Mark
  | .advance =>
    match s.pc with
    | .start => some .turn
    | .cancelHead _ _ =>
      if ¬ quotaLeft cfg s ∧ 1 ≤ free cfg s ∧ sliceBlockedNow cfg s = false then
        some .held
      else none
    | .cancelTake _ _ false => if waiting s = [] then none else some .cancel
    | .sliced _ _ _ | .admission => some .progress
    | _ => none
  | _ => none

/-- The engine with the marks its run has left. -/
structure Paced where
  engine : State
  marks : List Mark

def Paced.init (engineID : Nat) : Paced := ⟨Engine.init engineID, []⟩

def pacedStep (l : Label) (p : Paced) : Option Paced :=
  (step cfg l p.engine).map fun s => ⟨s, p.marks ++ (mark cfg p.engine l).toList⟩

/-- The engine is in a turn and has not come to its progress point. -/
def Pc.Ahead : Pc → Bool
  | .cancelHead _ _ | .cancelTake _ _ _ | .ticker _ | .flush _ | .slice _ | .matching _ _
  | .sliced _ _ _
  | .admission => true
  | .stopCheck hadActive => !hadActive
  | _ => false

/-- Positions up to the slice of a turn that began with a sweep. -/
def Pc.Carries : Pc → Bool
  | .cancelHead hadActive _ | .cancelTake hadActive _ _ | .ticker hadActive | .flush hadActive
  | .slice hadActive => hadActive
  | _ => false

/-- The engine is on its way to a progress point and nothing can turn it away. -/
def Due (s : State) : Prop :=
  match s.pc with
  | .ticker hadActive | .flush hadActive | .slice hadActive =>
    hadActive = true → hasSliceCapacity cfg s = true
  | .matching _ _ | .sliced _ _ _ | .admission | .crashed _ => True
  | .stopCheck hadActive => hadActive = false
  | _ => False

/-- A bound on the engine's own steps up to the progress point. -/
def stepsAhead (s : State) : Nat :=
  let slice := cfg.maxMatchesPerTurn.toNat
  match s.pc with
  | .ticker _ => slice + s.dirtySymbols.length + 7
  | .flush _ => slice + s.dirtySymbols.length + 6
  | .slice _ => slice + 5
  | .matching _ trades => slice - trades + 3
  | .stopCheck _ => 2
  | _ => 1

/-- The steps of the engine's goroutine outside its selects. -/
def Label.own : Label → Bool
  | .advance | .flush _ => true
  | _ => false

end

variable {cfg : EngineConfig} {s s' : State} {l : Label} {engineID : Nat} {p p' : Paced}

/-! ## Positions -/

structure PosInv (cfg : EngineConfig) (s : State) : Prop where
  quota : (s.cancelsSinceProgress : Int) ≤ cfg.maxConsecutiveCancels
  accepted : ∀ hadActive budget, s.pc = .cancelTake hadActive budget false → quotaLeft cfg s
  active : s.pc.Carries = true → s.activeSweep.isSome = true

theorem init_positions (engineID : Nat) : PosInv cfg (init engineID) where
  quota := by
    have := cfg.one_le.2
    simp only [init]
    omega
  accepted _ _ hpc := by cases hpc
  active hc := by cases hc

/-- More room than before does not block a slice. -/
theorem hasSliceCapacity_mono (hi : ReserveInv cfg s)
    (hle : s'.executionCh.length ≤ s.executionCh.length)
    (h : hasSliceCapacity cfg s = true) : hasSliceCapacity cfg s' = true := by
  have hroom := hi.room
  have hcap :=
    (cfg.hasSliceCapacity_iff (by simp only [free]; omega) (by simp only [free]; omega)).mp h
  refine (cfg.hasSliceCapacity_iff (by simp only [free]; omega) (by simp only [free]; omega)).mpr ?_
  simp only [free] at hcap ⊢
  omega

/-- Outside the cancel phase, the slice and the admission the counter and the sweep stay. -/
theorem PosInv.keep (h : PosInv cfg s) (hcount : s'.cancelsSinceProgress = s.cancelsSinceProgress)
    (hpc : ∀ hadActive budget, s'.pc ≠ .cancelTake hadActive budget false)
    (hactive : s'.pc.Carries = true → s'.activeSweep.isSome = true) : PosInv cfg s' where
  quota := hcount ▸ h.quota
  accepted hadActive budget he := absurd he (hpc hadActive budget)
  active := hactive

theorem PosInv.turn (h : PosInv cfg s) (ht : Turn cfg s s') : PosInv cfg s' := by
  have hzero : ((0 : Nat) : Int) ≤ cfg.maxConsecutiveCancels := by
    have := cfg.one_le.2
    omega
  have hcarry : ∀ {pc pc' : Pc}, s.pc = pc → pc'.Carries = pc.Carries → pc'.Carries = true →
      s.activeSweep.isSome = true := by
    intro pc pc' hpc hsame hc
    exact h.active (by rw [hpc, ← hsame, hc])
  cases ht with
  | start => exact h.keep rfl nofun fun hc => hc
  | accept hpc hquota => exact ⟨h.quota, fun _ _ _ => hquota, hcarry hpc rfl⟩
  | reject hpc | spent hpc | held hpc | noCancel hpc | rejected hpc | publish hpc | noPublish hpc
  | published hpc =>
    exact h.keep rfl nofun (hcarry hpc rfl)
  | refused hpc | removed hpc =>
    have hquota : _ < _ := h.accepted _ _ hpc
    refine ⟨?_, nofun, hcarry hpc rfl⟩
    change ((s.cancelsSinceProgress + 1 : Nat) : Int) ≤ _
    omega
  | yielded | marketDone | rested | filled | admitted | skipped | noOrder =>
    exact ⟨hzero, nofun, nofun⟩
  | _ => exact h.keep rfl nofun nofun

theorem PosInv.step (h : PosInv cfg s) (hs : Stepped cfg s l s') : PosInv cfg s' := by
  cases hs with
  | turn ht => exact h.turn ht
  | flush symbol hpc =>
    rcases hpc with ⟨hadActive, hpc⟩ | hpc <;>
      exact h.keep rfl (fun a b he => by cases hpc.symm.trans he) h.active
  | recvCancel | recvOrder | recvTick | recvStop | recvCapacity => exact h.keep rfl nofun nofun
  | submitOrder | sendCancel | consume | consumeSnapshot | tick | stop | wake =>
    exact { h with }

/-! ## The marks of a step -/

/-- What a step does to the counter and the position, by the mark it leaves. -/
inductive Paces (cfg : EngineConfig) (s s' : State) (l : Label) : Option Mark → Prop
  | turn (hcount : s'.cancelsSinceProgress = s.cancelsSinceProgress) (hdue : ¬ Due cfg s) :
      Paces cfg s s' l (some .turn)
  | cancel (hcount : s'.cancelsSinceProgress = s.cancelsSinceProgress + 1)
      (hahead : s.pc.Ahead = true) (hdue : ¬ Due cfg s) : Paces cfg s s' l (some .cancel)
  | held (hcount : s'.cancelsSinceProgress = s.cancelsSinceProgress) (hahead : s.pc.Ahead = true)
      (hdue : ¬ Due cfg s) (hdue' : Due cfg s') : Paces cfg s s' l (some .held)
  | progress (hcount : s'.cancelsSinceProgress = 0) (hahead : s.pc.Ahead = true)
      (hpast : s'.pc.Ahead = false) : Paces cfg s s' l (some .progress)
  | quiet (hcount : s'.cancelsSinceProgress = s.cancelsSinceProgress)
      (hahead : s'.pc.Ahead = true → s.pc.Ahead = true)
      (hdue : Due cfg s → Due cfg s' ∧ stepsAhead cfg s' + l.own.toNat ≤ stepsAhead cfg s) :
      Paces cfg s s' l none

/-- A step that leaves no mark while nothing is due. -/
theorem paces_idle (hcount : s'.cancelsSinceProgress = s.cancelsSinceProgress)
    (hahead : s'.pc.Ahead = true → s.pc.Ahead = true) (hdue : ¬ Due cfg s) :
    Paces cfg s s' l none :=
  .quiet hcount hahead fun h => absurd h hdue

theorem mark_of_mustReject {hadActive : Bool} {budget : Nat}
    (hpc : s.pc = .cancelHead hadActive budget)
    (h : mustReject cfg s) : mark cfg s .advance = none := by
  simp only [mark, hpc]
  rw [if_neg]
  rintro ⟨-, hfree, hblocked⟩
  rcases h with hfull | ⟨hb, -⟩
  · omega
  · rw [hblocked] at hb
    cases hb

/-- A slice is run in turns that began with a sweep only. -/
theorem hadActive_of_sliced {hadActive done : Bool} {trades : Nat} (hi : ReserveInv cfg s)
    (hb : BookInv s) (hpc : s.pc = .sliced hadActive trades done) : hadActive = true := by
  have hsome := (hi.of_sliced hpc).1
  cases hadActive with
  | true => rfl
  | false => simp [hb.slot (by rw [hpc]; rfl)] at hsome

theorem paces_of_turn (hi : ReserveInv cfg s) (hb : BookInv s) (hpos : PosInv cfg s)
    (ht : Turn cfg s s') : Paces cfg s s' .advance (mark cfg s .advance) := by
  have hm := cfg.one_le.1
  cases ht with
  | start hpc =>
    rw [show mark cfg s .advance = some .turn by simp [mark, hpc]]
    exact .turn rfl (by simp [Due, hpc])
  | accept hpc hquota =>
    rw [show mark cfg s .advance = none by simp [mark, hpc, hquota]]
    exact paces_idle rfl (fun _ => by rw [hpc]; rfl) (by simp [Due, hpc])
  | reject hpc hreject | spent hpc hreject =>
    rw [mark_of_mustReject hpc hreject]
    exact paces_idle rfl (fun _ => by rw [hpc]; rfl) (by simp [Due, hpc])
  | held hpc hquota hfree hblocked =>
    rw [show mark cfg s .advance = some .held by simp [mark, hpc, hquota, hfree, hblocked]]
    refine .held rfl (by rw [hpc]; rfl) (by simp [Due, hpc]) ?_
    intro hhad
    have hsome := hpos.active (by rw [hpc]; exact hhad)
    have hcap : hasSliceCapacity cfg s = true := by simpa [sliceBlockedNow, hsome] using hblocked
    exact hcap
  | @noCancel _ _ reject hpc hnone =>
    rw [show mark cfg s .advance = none by cases reject <;> simp [mark, hpc, hnone]]
    exact paces_idle rfl (fun _ => by rw [hpc]; rfl) (by simp [Due, hpc])
  | rejected hpc =>
    rw [show mark cfg s .advance = none by simp [mark, hpc]]
    exact paces_idle rfl (fun _ => by rw [hpc]; rfl) (by simp [Due, hpc])
  | refused hpc hwait | removed hpc hwait =>
    rw [show mark cfg s .advance = some .cancel by simp [mark, hpc, hwait]]
    exact .cancel rfl (by rw [hpc]; rfl) (by simp [Due, hpc])
  | publish hpc | noPublish hpc | published hpc =>
    rw [show mark cfg s .advance = none by simp [mark, hpc]]
    refine .quiet rfl (fun _ => by rw [hpc]; rfl) fun hdue => ?_
    simp only [Due, hpc] at hdue
    exact ⟨hdue, by simp only [stepsAhead, hpc, Label.own, Bool.toNat_true]; omega⟩
  | beginSlice hpc | trade hpc _ _ _ hbudget | matched hpc | panicked hpc =>
    rw [show mark cfg s .advance = none by simp [mark, hpc]]
    refine .quiet rfl (fun _ => by rw [hpc]; rfl) fun _ => ⟨trivial, ?_⟩
    simp only [stepsAhead, hpc, traded, Label.own, Bool.toNat_true]
    omega
  | @noSlice hadActive hpc hno =>
    rw [show mark cfg s .advance = none by simp [mark, hpc]]
    refine .quiet rfl (fun _ => by rw [hpc]; rfl) fun hdue => ?_
    simp only [Due, hpc] at hdue
    refine ⟨?_, by simp only [stepsAhead, hpc, Label.own, Bool.toNat_true]; omega⟩
    cases hadActive with
    | false => rfl
    | true =>
      have hsome := hpos.active (by rw [hpc]; rfl)
      rcases hno with hnone | hcap
      · simp [hnone] at hsome
      · rw [hdue rfl] at hcap
        cases hcap
  | yielded hpc | marketDone hpc | rested hpc | filled hpc =>
    rw [show mark cfg s .advance = some .progress by simp [mark, hpc]]
    cases hadActive_of_sliced hi hb hpc
    exact .progress rfl (by rw [hpc]; rfl) rfl
  | stopAdmits hpc =>
    rw [show mark cfg s .advance = none by simp [mark, hpc]]
    exact .quiet rfl (fun _ => by rw [hpc]; rfl) fun _ =>
      ⟨trivial, by simp [stepsAhead, hpc, Label.own]⟩
  | admitted hpc | skipped hpc | noOrder hpc =>
    rw [show mark cfg s .advance = some .progress by simp [mark, hpc]]
    exact .progress rfl (by rw [hpc]; rfl) rfl
  | stopParks hpc | park hpc | again hpc | leave hpc | rest hpc | drainCancel hpc | drainOrder hpc
  | drained hpc | close hpc =>
    rw [show mark cfg s .advance = none by simp [mark, hpc]]
    exact paces_idle rfl (fun h => by cases h) (by simp [Due, hpc])

theorem length_flushSymbol {symbol : String} (h : symbol ∈ s.dirtySymbols) :
    (flushSymbol s symbol).dirtySymbols.length < s.dirtySymbols.length := by
  have hlt := List.length_filter_lt_length_iff_exists (p := fun d => d != symbol)
    (l := s.dirtySymbols)
  exact hlt.mpr ⟨symbol, h, by simp⟩

theorem paces_of_step (hi : ReserveInv cfg s) (hb : BookInv s) (hpos : PosInv cfg s)
    (h : Stepped cfg s l s') : Paces cfg s s' l (mark cfg s l) := by
  cases h with
  | turn ht => exact paces_of_turn hi hb hpos ht
  | flush symbol hpc hdirty =>
    have hlen := length_flushSymbol hdirty
    refine .quiet rfl id fun hdue => ⟨hdue, ?_⟩
    rcases hpc with ⟨hadActive, hpc⟩ | hpc
    · have hpc' : (flushSymbol s symbol).pc = .flush hadActive := hpc
      simp only [stepsAhead, hpc, hpc', Label.own, Bool.toNat_true]
      omega
    · simp [Due, hpc] at hdue
  | recvCancel hpc | recvTick hpc | recvStop hpc =>
    have hdue : ¬ Due cfg s := by
      unfold Pc.Waits at hpc
      split at hpc
      · rename_i he
        simp [Due, he]
      · rename_i he
        simp [Due, he]
      · exact hpc.elim
    exact paces_idle rfl nofun hdue
  | recvOrder hpc | recvCapacity hpc => exact paces_idle rfl nofun (by simp [Due, hpc])
  | submitOrder | sendCancel | consumeSnapshot | tick | stop | wake =>
    exact .quiet rfl id fun hdue => ⟨hdue, le_rfl⟩
  | @consume e rest hch =>
    refine .quiet rfl id fun hdue => ⟨?_, le_rfl⟩
    have hcap : hasSliceCapacity cfg s = true →
        hasSliceCapacity cfg { s with executionCh := rest } = true :=
      hasSliceCapacity_mono hi (by simp [hch])
    revert hdue
    unfold Due
    cases s.pc <;> simp only [imp_self] <;> exact fun h had => hcap (h had)

/-! ## The pace along a run -/

structure PaceInv (cfg : EngineConfig) (p : Paced) : Prop where
  pos : PosInv cfg p.engine
  since : Since .progress .cancel p.engine.cancelsSinceProgress p.marks
  reset : [.progress] <:+ p.marks → p.engine.cancelsSinceProgress = 0
  window : Within .progress .cancel cfg.maxConsecutiveCancels.toNat p.marks
  turn : Since .turn .progress (if p.engine.pc.Ahead then 0 else 1) p.marks
  turns : Within .turn .progress 1 p.marks
  due : Open .held .progress .turn p.marks → Due cfg p.engine
  met : Met .held .progress .turn p.marks

theorem init_pace (engineID : Nat) : PaceInv cfg (Paced.init engineID) where
  pos := init_positions engineID
  since := since_nil
  reset _ := rfl
  window := within_nil
  turn := since_nil
  turns := within_nil
  due h := absurd h not_open_nil
  met := met_nil

/-- A mark other than a cancel or a progress point leaves the counts and the counter as they were.
-/
theorem PaceInv.snoc (h : PaceInv cfg p) (hpos : PosInv cfg s') {m : Mark}
    (hm : m ≠ .cancel ∧ m ≠ .progress)
    (hcount : s'.cancelsSinceProgress = p.engine.cancelsSinceProgress)
    (hturn : Since .turn .progress (if s'.pc.Ahead then 0 else 1) (p.marks ++ [m]))
    (hdue : Open .held .progress .turn (p.marks ++ [m]) → Due cfg s')
    (hmet : m = .turn → ¬ Open .held .progress .turn p.marks) :
    PaceInv cfg ⟨s', p.marks ++ [m]⟩ := by
  have hsince : Since .progress .cancel s'.cancelsSinceProgress (p.marks ++ [m]) := by
    have := h.since.snoc m
    rwa [if_neg hm.1, Nat.add_zero, ← hcount] at this
  refine ⟨hpos, hsince, fun hend => ?_, h.window.snoc (hsince.mono ?_), hturn,
    h.turns.snoc (hturn.mono ?_), hdue, h.met.snoc hmet⟩
  · exact absurd (eq_of_suffix_snoc hend).symm hm.2
  · have := hpos.quota
    omega
  · split <;> omega

theorem PaceInv.step (h : PaceInv cfg p)
    (hr : Lts.Reach (Engine.step cfg) Lts.free (init engineID) p.engine)
    (hs : pacedStep cfg l p = some p') : PaceInv cfg p' := by
  obtain ⟨s', hstep, hp'⟩ := Option.map_eq_some_iff.mp hs
  subst hp'
  have hi := reach_reserve hr
  have hstepped := stepped_of_step hi hstep
  have hpos := h.pos.step hstepped
  have hquota := hpos.quota
  have hp := paces_of_step hi (reach_books hr) h.pos hstepped
  generalize mark cfg p.engine l = m at hp ⊢
  cases hp with
  | turn hcount hdue =>
    exact h.snoc hpos (by decide) hcount since_stop (fun ho => by
      rcases ho.of_snoc with he | ⟨-, hne, -⟩
      · cases he
      · exact absurd rfl hne) fun _ ho => hdue (h.due ho)
  | held hcount hahead hdue hdue' =>
    refine h.snoc hpos (by decide) hcount ?_ (fun _ => hdue') (fun he => by cases he)
    have := h.turn.snoc .held
    rw [if_pos hahead] at this
    exact this.mono (by simp)
  | cancel hcount hahead hdue =>
    have hsince := h.since.snoc .cancel
    rw [if_pos rfl, ← hcount] at hsince
    have hturn := h.turn.snoc .cancel
    rw [if_pos hahead] at hturn
    refine ⟨hpos, hsince, fun hend => ?_, h.window.snoc (hsince.mono (by omega)),
      hturn.mono (by simp),
      h.turns.snoc (hturn.mono (by simp)), fun ho => ?_, h.met.snoc (fun he => by cases he)⟩
    · cases eq_of_suffix_snoc hend
    · rcases ho.of_snoc with he | ⟨ho, -, -⟩
      · cases he
      · exact absurd (h.due ho) hdue
  | progress hcount hahead hpast =>
    have hsince : Since .progress .cancel s'.cancelsSinceProgress (p.marks ++ [.progress]) :=
      since_stop
    have hturn := h.turn.snoc .progress
    rw [if_pos hahead, if_pos rfl] at hturn
    refine ⟨hpos, hsince, fun _ => hcount, h.window.snoc (hsince.mono (by omega)), ?_,
      h.turns.snoc hturn, fun ho => ?_, h.met.snoc (fun he => by cases he)⟩
    · simp only [hpast]
      exact hturn
    · rcases ho.of_snoc with he | ⟨-, -, hne⟩
      · cases he
      · exact absurd rfl hne
  | quiet hcount hahead hdue =>
    simp only [Option.toList_none, List.append_nil]
    refine ⟨hpos, hcount ▸ h.since, fun hend => hcount.trans (h.reset hend), h.window,
      h.turn.mono ?_, h.turns, fun ho => (hdue (h.due ho)).1, h.met⟩
    by_cases ha : s'.pc.Ahead = true
    · simp [ha, hahead ha]
    · simp only [ha, if_false, Bool.false_eq_true]
      split <;> omega

theorem reach_engine_of_paced (h : Lts.Reach (pacedStep cfg) Lts.free (Paced.init engineID) p) :
    Lts.Reach (step cfg) Lts.free (init engineID) p.engine :=
  h.project Paced.engine fun _ _ _ _ _ hs => by
    obtain ⟨s', hstep, rfl⟩ := Option.map_eq_some_iff.mp hs
    exact Lts.Reach.refl.next trivial hstep

theorem reach_pace (h : Lts.Reach (pacedStep cfg) Lts.free (Paced.init engineID) p) :
    PaceInv cfg p :=
  h.invariant (PaceInv cfg) (init_pace engineID) fun _ _ _ hr hi _ hs =>
    hi.step (reach_engine_of_paced hr) hs

theorem exec_marks (as : List Label) (h : Lts.exec (pacedStep cfg) as p = some p') :
    p.marks <+: p'.marks := by
  induction as generalizing p with
  | nil =>
    cases h
    exact List.prefix_rfl
  | cons l as ih =>
    obtain ⟨q, hq, h⟩ := Option.bind_eq_some_iff.mp h
    obtain ⟨s, -, rfl⟩ := Option.map_eq_some_iff.mp hq
    exact (List.prefix_append _ _).trans (ih h)

/-- Enough steps of the engine bring it to the progress point it owes. -/
theorem progress_of_due (hr : Lts.Reach (pacedStep cfg) Lts.free (Paced.init engineID) p)
    (hdue : Due cfg p.engine) (as : List Label) (h : Lts.exec (pacedStep cfg) as p = some p')
    (hlen : stepsAhead cfg p.engine ≤ as.countP Label.own) :
    ∃ marks, p'.marks = p.marks ++ marks ∧ .progress ∈ marks := by
  have hstep : ∀ q l q', (Lts.Reach (pacedStep cfg) Lts.free (Paced.init engineID) q ∧
      Due cfg q.engine) → pacedStep cfg l q = some q' → mark cfg q.engine l = some .progress ∨
        (Lts.Reach (pacedStep cfg) Lts.free (Paced.init engineID) q' ∧ Due cfg q'.engine) ∧
          stepsAhead cfg q'.engine + l.own.toNat ≤ stepsAhead cfg q.engine := by
    intro q l q' ⟨hrq, hdq⟩ hs
    have hrq' := hrq.next (a := l) trivial hs
    obtain ⟨s', hs', rfl⟩ := Option.map_eq_some_iff.mp hs
    have hre := reach_engine_of_paced hrq
    have hp := paces_of_step (reach_reserve hre) (reach_books hre) (reach_pace hrq).pos
      (stepped_of_step (reach_reserve hre) hs')
    generalize mark cfg q.engine l = m at hp hrq' ⊢
    cases hp with
    | turn _ hno | cancel _ _ hno | held _ _ hno => exact absurd hdq hno
    | progress => exact .inl rfl
    | quiet _ _ hquiet => exact .inr ⟨⟨hrq', (hquiet hdq).1⟩, (hquiet hdq).2⟩
  have hpos : ∀ q : Paced, (Lts.Reach (pacedStep cfg) Lts.free (Paced.init engineID) q ∧
      Due cfg q.engine) → 0 < stepsAhead cfg q.engine := by
    intro q _
    simp only [stepsAhead]
    split <;> omega
  obtain ⟨before, l, after, q, q', rfl, hq, hpays, hq', hafter⟩ := Lts.exec_pays Label.own
    (fun q => stepsAhead cfg q.engine) _ (fun q l => mark cfg q.engine l = some .progress) hpos
    hstep as h ⟨hr, hdue⟩ hlen
  obtain ⟨s', -, rfl⟩ := Option.map_eq_some_iff.mp hq'
  obtain ⟨earlier, hearlier⟩ := exec_marks before hq
  obtain ⟨later, hlater⟩ := exec_marks after hafter
  refine ⟨earlier ++ .progress :: later, ?_, by simp⟩
  rw [← hlater, ← hearlier, hpays]
  simp

/-- The engine can take a step of its own on its way to the progress point, unless it has panicked.
-/
theorem own_step_of_due (hi : ReserveInv cfg s) (hdue : Due cfg s)
    (hpanic : ∀ panic, s.pc ≠ .crashed panic) :
    ∃ l : Label, l.own = true ∧ (step cfg l s).isSome = true := by
  cases hpc : s.pc with
  | ticker | slice | stopCheck | admission => exact ⟨.advance, rfl, by simp [step, advance, hpc]⟩
  | flush hadActive =>
    cases hdirty : s.dirtySymbols with
    | nil => exact ⟨.advance, rfl, by simp [step, advance, hpc, hdirty]⟩
    | cons symbol rest => exact ⟨.flush symbol, rfl, by simp [step, hpc, hdirty]⟩
  | matching hadActive trades =>
    obtain ⟨t, ht, -⟩ := turn_matchingStep hi hpc
    exact ⟨.advance, rfl, by simp [step, advance, hpc, ht]⟩
  | sliced hadActive trades done =>
    obtain ⟨t, ht, -⟩ := turn_slicedStep hi hpc
    exact ⟨.advance, rfl, by simp [step, advance, hpc, ht]⟩
  | crashed panic => exact absurd hpc (hpanic panic)
  | _ => simp [Due, hpc] at hdue

/-- Only a round of the active sweep panics. -/
theorem crashed_of_step {panic : Panic} (h : Stepped cfg s l s') (hpc : s'.pc = .crashed panic) :
    s.pc = .crashed panic ∨ ∃ sweep k, s.activeSweep = some sweep ∧ kindOf sweep.order = some k ∧
      k.round (s.core.book sweep.book) sweep.order = .panic := by
  cases h with
  | turn ht =>
    cases ht with
    | panicked _ hsweep hkind hround => exact .inr ⟨_, _, hsweep, hkind, hround⟩
    | _ => cases hpc
  | recvCancel | recvOrder | recvTick | recvStop | recvCapacity => cases hpc
  | flush | submitOrder | sendCancel | consume | consumeSnapshot | tick | stop | wake =>
    exact .inl hpc

theorem not_crashed {ok : State → Label → Prop} (h : Lts.Reach (step cfg) ok (init engineID) s) :
    Priced s → ∀ panic, s.pc ≠ .crashed panic := by
  refine h.invariant (fun s => Priced s → ∀ panic, s.pc ≠ .crashed panic)
    (fun _ _ he => by cases he) fun t l u hr hi _ hs hp panic hpc => ?_
  have hres := reach_reserve hr
  have hpt := (move_of_step hres hs).priced hp
  rcases crashed_of_step (stepped_of_step hres hs) hpc with hpc | ⟨sweep, k, hsweep, hkind, hround⟩
  · exact hi hpt panic hpc
  · exact (reach_prices hr).round_ne_panic (reach_books hr) hpt hsweep hkind hround

/-- In every run of the scheduler at most `C` cancels are processed between two progress points, a
turn has at most one of them, and each resets the quota. A turn that holds cancels back for their
quota, with a slot free and its slice not blocked, has a progress point before the next turn begins.
It does come to it: with prices on the limit orders sent the engine has a step to take, and after
`stepsAhead` of its own steps, whatever happens in between, it has been there. -/
theorem cancels_keep_pace (cfg : EngineConfig) (engineID : Nat) {p : Paced}
    (h : Lts.Reach (pacedStep cfg) Lts.free (Paced.init engineID) p) :
    (∀ between, between <:+: p.marks → .progress ∉ between →
      (between.count .cancel : Int) ≤ cfg.maxConsecutiveCancels) ∧
    (∀ turn, turn <:+: p.marks → .turn ∉ turn → turn.count .progress ≤ 1) ∧
    ([.progress] <:+ p.marks → p.engine.cancelsSinceProgress = 0) ∧
    (∀ rest, .held :: (rest ++ [.turn]) <:+: p.marks → .turn ∉ rest → .progress ∈ rest) ∧
    (∀ rest, .held :: rest <:+ p.marks → .turn ∉ rest → .progress ∉ rest →
      (Priced p.engine → ∃ l : Label, l.own = true ∧ (step cfg l p.engine).isSome = true) ∧
      ∀ as p', Lts.exec (pacedStep cfg) as p = some p' →
      stepsAhead cfg p.engine ≤ as.countP Label.own →
        ∃ before after, p'.marks = p.marks ++ before ++ .progress :: after ∧ .turn ∉ before) := by
  have hinv := reach_pace h
  have hre := reach_engine_of_paced h
  refine ⟨fun between hb hp => ?_, hinv.turns, hinv.reset, hinv.met, fun rest hend hturn hprog =>
    ⟨fun hpriced => ?_, ?_⟩⟩
  · have := hinv.window between hb hp
    have := cfg.one_le.2
    omega
  · exact own_step_of_due (reach_reserve hre) (hinv.due ⟨rest, hend, hturn, hprog⟩)
      (not_crashed hre hpriced)
  · intro as p' hexec hlen
    obtain ⟨marks, hmarks, hin⟩ :=
      progress_of_due h (hinv.due ⟨rest, hend, hturn, hprog⟩) as hexec hlen
    obtain ⟨before, after, rfl, hfirst⟩ := List.eq_append_cons_of_mem hin
    refine ⟨before, after, by rw [hmarks, List.append_assoc], fun hturn' => ?_⟩
    -- a turn that began before the progress point would have come to its own
    obtain ⟨stretch, tail, rfl, hstretch⟩ := List.eq_append_cons_of_mem hturn'
    have hmet := (reach_pace (h.trans (Lts.reach_of_exec as hexec))).met (rest ++ stretch)
    obtain ⟨early, hearly⟩ := hend
    have hin : .progress ∈ rest ++ stretch := by
      refine hmet ⟨early, tail ++ .progress :: after, ?_⟩ (by simp [hturn, hstretch])
      rw [hmarks, ← hearly]
      simp
    rw [List.mem_append] at hin
    rcases hin with hin | hin
    · exact hprog hin
    · exact hfirst (List.mem_append_left _ hin)

/-- Two cancels of orders the engine does not have, with a quota of one: the second is held back
until the admission has had its turn. -/
def heldCancel : List Label :=
  [.sendCancel ⟨1, "BTC", 1, .buy, 10⟩, .sendCancel ⟨2, "BTC", 2, .buy, 10⟩] ++
    List.replicate 9 .advance ++ [.recvCancel, .advance]

theorem cancels_keep_pace_heldCancel :
    ∃ p, Lts.exec (pacedStep smallestConfig) heldCancel (Paced.init 1) = some p ∧
      p.marks = [.turn, .cancel, .held, .progress, .turn] ∧
      ∀ rest, .held :: (rest ++ [.turn]) <:+: p.marks → .turn ∉ rest → .progress ∈ rest := by
  have hrun : (Lts.exec (pacedStep smallestConfig) heldCancel (Paced.init 1)).map Paced.marks =
      some [.turn, .cancel, .held, .progress, .turn] := by
    decide +kernel
  obtain ⟨p, hp, hmarks⟩ := Option.map_eq_some_iff.mp hrun
  exact ⟨p, hp, hmarks, (cancels_keep_pace smallestConfig 1 (Lts.reach_of_exec _ hp)).2.2.2.1⟩

end GoExchange.Engine
