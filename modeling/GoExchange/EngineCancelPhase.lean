import GoExchange.EngineCancels

/-!
# The length of the cancel phase

`cancelPhase` takes commands while producers send more and consumers make room,
and decides anew in every round whether it processes or rejects. A command
processed uses up the quota of cancels, a command rejected the budget that was
counted when the phase began, so both together bound the phase.
-/
namespace GoExchange.Engine

open Matching

def Pc.InCancelPhase : Pc → Bool
  | .cancelHead _ _ | .cancelTake _ _ _ => true
  | _ => false

def Pc.rejectBudget : Pc → Nat
  | .cancelHead _ budget | .cancelTake _ budget _ => budget
  | _ => 0

/-- The quota of cancels that is left. -/
def quota (cfg : EngineConfig) (s : State) : Nat :=
  (cfg.maxConsecutiveCancels - s.cancelsSinceProgress).toNat

/-- The commands the phase may still take. -/
def commandsLeft (cfg : EngineConfig) (s : State) : Nat := quota cfg s + s.pc.rejectBudget

/-- A bound on the moves the engine makes before it leaves the phase. -/
def phaseRank (cfg : EngineConfig) (s : State) : Nat :=
  match s.pc with
  | .cancelHead _ _ => 2 * commandsLeft cfg s + 2
  | .cancelTake _ _ _ => 2 * commandsLeft cfg s + 1
  | _ => 0

/-- The steps of the engine and its surroundings while the phase lasts. -/
def phaseStep (cfg : EngineConfig) : Label → State → Option State :=
  Lts.guarded (step cfg) fun s _ => s.pc.InCancelPhase = true

/-- What a stretch of the phase does. The commands taken are answered in the order they wait. -/
structure PhaseTakes (cfg : EngineConfig) (s s' : State) (sent taken : List CancelOrderCommand)
    (moves : Nat) : Prop where
  answered : s'.answers.map Prod.fst = s.answers.map Prod.fst ++ taken
  queue : waiting s ++ sent = taken ++ waiting s'
  left : taken.length + commandsLeft cfg s' ≤ commandsLeft cfg s
  rank : moves + phaseRank cfg s' ≤ phaseRank cfg s
  within : s'.pc.InCancelPhase = true ∨ ∃ hadActive, s'.pc = .ticker hadActive
  rejects : ∀ hadActive budget, s'.pc = .cancelTake hadActive budget true → budget ≠ 0

variable {cfg : EngineConfig} {s s' t : State} {l : Label} {engineID budget : Nat}
  {sent sent' taken taken' : List CancelOrderCommand} {moves moves' : Nat} {hadActive reject : Bool}

theorem PhaseTakes.trans (h : PhaseTakes cfg s s' sent taken moves)
    (h' : PhaseTakes cfg s' t sent' taken' moves') :
    PhaseTakes cfg s t (sent ++ sent') (taken ++ taken') (moves + moves') where
  answered := by rw [h'.answered, h.answered, List.append_assoc]
  queue := by rw [← List.append_assoc, h.queue, List.append_assoc, h'.queue, List.append_assoc]
  left := by
    have := h.left
    have := h'.left
    rw [List.length_append]
    omega
  rank := by
    have := h.rank
    have := h'.rank
    omega
  within := h'.within
  rejects := h'.rejects

/-! ## One step -/

theorem phaseRank_head (hpc : s.pc = .cancelHead hadActive budget) :
    phaseRank cfg s = 2 * (quota cfg s + budget) + 2 := by
  simp [phaseRank, commandsLeft, Pc.rejectBudget, hpc]

theorem phaseRank_take (hpc : s.pc = .cancelTake hadActive budget reject) :
    phaseRank cfg s = 2 * (quota cfg s + budget) + 1 := by
  simp [phaseRank, commandsLeft, Pc.rejectBudget, hpc]

theorem commandsLeft_head (hpc : s.pc = .cancelHead hadActive budget) :
    commandsLeft cfg s = quota cfg s + budget := by
  simp [commandsLeft, Pc.rejectBudget, hpc]

theorem commandsLeft_take (hpc : s.pc = .cancelTake hadActive budget reject) :
    commandsLeft cfg s = quota cfg s + budget := by
  simp [commandsLeft, Pc.rejectBudget, hpc]

/-- The phase is left. -/
theorem phaseTakes_leave (hin : s.pc.InCancelPhase = true) (hadActive : Bool) :
    PhaseTakes cfg s { s with pc := .ticker hadActive } [] [] 1 where
  answered := (List.append_nil _).symm
  queue := List.append_nil _
  left := by simp [commandsLeft, Pc.rejectBudget, quota]
  rank := by
    cases hpc : s.pc <;> rw [hpc] at hin <;> cases hin
    · rw [phaseRank_head hpc]
      simp [phaseRank]
    · rw [phaseRank_take hpc]
      simp [phaseRank]
  within := .inr ⟨hadActive, rfl⟩
  rejects := nofun

/-- The decision to take a command. -/
theorem phaseTakes_decide (hpc : s.pc = .cancelHead hadActive budget) (reject : Bool)
    (hbudget : reject = true → budget ≠ 0) :
    PhaseTakes cfg s { s with pc := .cancelTake hadActive budget reject } [] [] 1 where
  answered := (List.append_nil _).symm
  queue := List.append_nil _
  left := by
    rw [commandsLeft_head hpc]
    simp [commandsLeft, Pc.rejectBudget, quota]
  rank := by
    rw [phaseRank_head hpc, phaseRank_take rfl]
    simp only [quota]
    omega
  within := .inl rfl
  rejects a b h := by
    cases h
    exact hbudget rfl

/-- A command is taken and answered: it uses up the quota or the reject budget. -/
theorem phaseTakes_answer {budget' : Nat} {cmd : CancelOrderCommand}
    {result : CancelOrderResult} (hpc : s.pc = .cancelTake hadActive budget reject)
    (hwait : waiting s = cmd :: waiting s')
    (hanswers : s'.answers = s.answers ++ [(cmd, result)])
    (hpc' : s'.pc = .cancelHead hadActive budget')
    (hleft : quota cfg s' + budget' + 1 ≤ quota cfg s + budget) :
    PhaseTakes cfg s s' [] [cmd] 1 where
  answered := by simp [hanswers]
  queue := by simp [hwait]
  left := by
    rw [commandsLeft_take hpc, commandsLeft_head hpc', List.length_singleton]
    omega
  rank := by
    rw [phaseRank_take hpc, phaseRank_head hpc']
    omega
  within := .inl (by rw [hpc']; rfl)
  rejects a b h := by
    rw [hpc'] at h
    cases h

/-- A move of the engine in the phase takes at most one command, and leaves less to do. -/
theorem phaseTakes_of_turn (hpos : PosInv cfg s) (hin : s.pc.InCancelPhase = true)
    (hrejects : ∀ hadActive budget, s.pc = .cancelTake hadActive budget true → budget ≠ 0)
    (ht : Turn cfg s s') : ∃ taken, PhaseTakes cfg s s' [] taken 1 := by
  cases ht with
  | accept hpc => exact ⟨[], phaseTakes_decide hpc false nofun⟩
  | reject hpc _ hbudget => exact ⟨[], phaseTakes_decide hpc true fun _ => hbudget⟩
  | spent | held | noCancel => exact ⟨[], phaseTakes_leave hin _⟩
  | rejected hpc hwait =>
    have hbudget := hrejects _ _ hpc
    refine ⟨_, phaseTakes_answer hpc hwait rfl rfl ?_⟩
    simp only [quota, answered, answer]
    omega
  | refused hpc hwait | removed hpc hwait =>
    refine ⟨_, phaseTakes_answer hpc hwait rfl rfl ?_⟩
    have hquota : quotaLeft cfg s := hpos.accepted _ _ hpc
    unfold quotaLeft at hquota
    simp only [quota, removal]
    omega
  | start hpc | admitted hpc | skipped hpc | noOrder hpc | park hpc | again hpc | leave hpc
  | rest hpc | drainCancel hpc
  | drainOrder hpc | drained hpc | close hpc | publish hpc | noPublish hpc | published hpc
  | beginSlice hpc | noSlice hpc
  | stopParks hpc | stopAdmits hpc | trade hpc | matched hpc | panicked hpc | yielded hpc
  | marketDone hpc | rested hpc
  | filled hpc =>
    rw [hpc] at hin
    cases hin

/-- What happens around the engine takes no command. -/
theorem phaseTakes_around (hin : s.pc.InCancelPhase = true)
    (hrejects : ∀ hadActive budget, s.pc = .cancelTake hadActive budget true → budget ≠ 0)
    (hpc : s'.pc = s.pc) (hcount : s'.cancelsSinceProgress = s.cancelsSinceProgress)
    (hanswers : s'.answers = s.answers) (hwait : waiting s' = waiting s ++ sent) :
    PhaseTakes cfg s s' sent [] 0 where
  answered := by simp [hanswers]
  queue := by simp [hwait]
  left := by simp [commandsLeft, quota, hpc, hcount]
  rank := by simp [phaseRank, commandsLeft, quota, hpc, hcount]
  within := .inl (by rw [hpc]; exact hin)
  rejects := by
    rw [hpc]
    exact hrejects

theorem phaseTakes_of_step (hpos : PosInv cfg s) (hin : s.pc.InCancelPhase = true)
    (hrejects : ∀ hadActive budget, s.pc = .cancelTake hadActive budget true → budget ≠ 0)
    (hs : Stepped cfg s l s') :
    ∃ taken, PhaseTakes cfg s s' l.cancels taken (if l = .advance then 1 else 0) := by
  have hwaits : ¬ s.pc.Waits := by
    intro h
    cases hpc : s.pc <;> simp [hpc, Pc.Waits, Pc.InCancelPhase] at h hin
  cases hs with
  | turn ht => exact phaseTakes_of_turn hpos hin hrejects ht
  | flush symbol hpc =>
    rcases hpc with ⟨_, hpc⟩ | hpc <;> rw [hpc] at hin <;> cases hin
  | recvOrder hpc | recvCapacity hpc =>
    rw [hpc] at hin
    cases hin
  | recvCancel hpc | recvTick hpc | recvStop hpc => exact absurd hpc hwaits
  | sendCancel cmd =>
    exact ⟨[], phaseTakes_around hin hrejects rfl rfl rfl (by simp [waiting, Label.cancels])⟩
  | submitOrder | consume | consumeSnapshot | tick | stop | wake =>
    exact ⟨[], phaseTakes_around hin hrejects rfl rfl rfl (by simp [waiting, Label.cancels])⟩

/-! ## The whole phase -/

theorem phaseTakes_of_exec (hr : Lts.Reach (step cfg) Lts.free (init engineID) s)
    (hin : s.pc.InCancelPhase = true ∨ ∃ hadActive, s.pc = .ticker hadActive)
    (hrejects : ∀ hadActive budget, s.pc = .cancelTake hadActive budget true → budget ≠ 0)
    (as : List Label) (h : Lts.exec (phaseStep cfg) as s = some t) :
    ∃ taken, PhaseTakes cfg s t (as.flatMap Label.cancels) taken (as.count .advance) := by
  induction as generalizing s with
  | nil =>
    cases h
    exact ⟨[], by simp, by simp, by simp, by simp, hin, hrejects⟩
  | cons l as ih =>
    obtain ⟨s', hs, h⟩ := Option.bind_eq_some_iff.mp h
    obtain ⟨hphase, hs⟩ := Option.ite_none_right_eq_some.mp hs
    obtain ⟨taken, hfirst⟩ := phaseTakes_of_step (reach_positions hr) hphase hrejects
      (stepped_of_step (reach_reserve hr) hs)
    obtain ⟨taken', hrest⟩ := ih (hr.next trivial hs) hfirst.within hfirst.rejects h
    refine ⟨taken ++ taken', ?_⟩
    have hboth := hfirst.trans hrest
    rw [List.flatMap_cons, List.count_cons, add_comm]
    simpa using hboth

/-- The engine never waits in the phase. -/
theorem advance_of_inCancelPhase (hi : ReserveInv cfg s) (hin : s.pc.InCancelPhase = true) :
    ∃ s', step cfg .advance s = some s' := by
  cases hpc : s.pc <;> rw [hpc] at hin <;> cases hin
  · rename_i hadActive budget
    exact ⟨cancelHead cfg s hadActive budget, by simp only [step, advance, hpc]⟩
  · obtain ⟨s', hs', -⟩ := turn_cancelTake hi hpc
    exact ⟨s', by simp only [step, advance, hpc, hs']⟩

/-- One execution of `cancelPhase`, from the start of a turn, whatever is sent and consumed
meanwhile. The commands it takes are at most what is left of the quota and those that were waiting.
It is over after a bounded number of the engine's own moves: the engine can always make the next
one, and the phase ends before the ticker is looked at. -/
theorem cancelPhase_bounded (cfg : EngineConfig) (engineID : Nat) {s s₁ t : State}
    (hr : Lts.Reach (step cfg) Lts.free (init engineID) s) (hpc : s.pc = .start)
    (hbegin : step cfg .advance s = some s₁) (as : List Label)
    (h : Lts.exec (phaseStep cfg) as s₁ = some t) :
    (∃ taken, t.answers.map Prod.fst = s.answers.map Prod.fst ++ taken ∧
      waiting s ++ as.flatMap Label.cancels = taken ++ waiting t ∧
      (taken.length : Int) ≤ cfg.maxConsecutiveCancels - s.cancelsSinceProgress +
        (waiting s).length) ∧
    (as.count .advance : Int) ≤
      2 * (cfg.maxConsecutiveCancels - s.cancelsSinceProgress + (waiting s).length) + 2 ∧
    (t.pc.InCancelPhase = true → ∃ u, step cfg .advance t = some u) ∧
    (t.pc.InCancelPhase = false → ∃ hadActive, t.pc = .ticker hadActive) := by
  have hquota := (reach_positions hr).quota
  have hr₁ := hr.next (a := .advance) trivial hbegin
  -- the phase begins with a budget of rejections for what waits
  have hs₁ : s₁ = { s with pc := .cancelHead s.activeSweep.isSome (waiting s).length } := by
    cases turn_of_advance (reach_reserve hr) hbegin with
    | start => rfl
    | _ => simp_all
  have hhead : s₁.pc = .cancelHead s.activeSweep.isSome (waiting s).length := by rw [hs₁]
  obtain ⟨taken, htakes⟩ :=
    phaseTakes_of_exec hr₁ (.inl (by rw [hhead]; rfl)) (by rw [hhead]; nofun) as h
  have hcommands : commandsLeft cfg s₁ = quota cfg s + (waiting s).length := by
    rw [commandsLeft_head hhead, hs₁]
    rfl
  have hnat : ((quota cfg s : Nat) : Int) = cfg.maxConsecutiveCancels - s.cancelsSinceProgress := by
    unfold quota
    omega
  refine ⟨⟨taken, ?_, ?_, ?_⟩, ?_, fun hin => ?_, fun hout => ?_⟩
  · rw [htakes.answered, hs₁]
  · rw [← htakes.queue, hs₁]
    rfl
  · have := htakes.left
    omega
  · have := htakes.rank
    rw [phaseRank_head hhead, ← commandsLeft_head hhead] at this
    omega
  · have hfree : Lts.Reach (step cfg) Lts.free s₁ t :=
      (Lts.reach_of_exec_guarded as h).mono fun _ _ _ => trivial
    exact advance_of_inCancelPhase (reach_reserve (hr₁.trans hfree)) hin
  · rcases htakes.within with hin | hticker
    · rw [hin] at hout
      cases hout
    · exact hticker

/-- Two cancels wait and the quota is one. One is taken, a third one is sent, and the phase ends. -/
theorem cancelPhase_bounded_two :
    ∃ s s₁ t, Lts.exec (step smallestConfig) [.sendCancel ⟨1, "BTC", 1, .buy, 10⟩,
      .sendCancel ⟨2, "BTC", 2, .buy, 10⟩]
        (init 1) = some s ∧ step smallestConfig .advance s = some s₁ ∧
      Lts.exec (phaseStep smallestConfig) [.advance, .advance, .sendCancel ⟨3, "BTC", 3, .buy, 10⟩,
        .advance] s₁ = some t ∧
      (∃ taken, t.answers.map Prod.fst = s.answers.map Prod.fst ++ taken ∧
        (taken.length : Int) ≤ 3) ∧
      t.pc = .ticker false := by
  have hrun : (do
      let s ← Lts.exec (step smallestConfig)
        [.sendCancel ⟨1, "BTC", 1, .buy, 10⟩, .sendCancel ⟨2, "BTC", 2, .buy, 10⟩] (init 1)
      let s₁ ← step smallestConfig .advance s
      let t ← Lts.exec (phaseStep smallestConfig)
        [.advance, .advance, .sendCancel ⟨3, "BTC", 3, .buy, 10⟩, .advance] s₁
      return (s.pc, s.cancelsSinceProgress, (waiting s).length, t.pc)) =
        some (.start, 0, 2, .ticker false) := by
    decide +kernel
  obtain ⟨s, hs, hrun⟩ := Option.bind_eq_some_iff.mp hrun
  obtain ⟨s₁, hs₁, hrun⟩ := Option.bind_eq_some_iff.mp hrun
  obtain ⟨t, ht, hrun⟩ := Option.bind_eq_some_iff.mp hrun
  simp only [Option.pure_def, Option.some.injEq, Prod.mk.injEq] at hrun
  obtain ⟨hpc, hcount, hwait, hticker⟩ := hrun
  obtain ⟨⟨taken, htaken, -, hle⟩, -⟩ :=
    cancelPhase_bounded smallestConfig 1 (Lts.reach_of_exec _ hs) hpc hs₁ _ ht
  rw [hcount, hwait] at hle
  exact ⟨s, s₁, t, hs, hs₁, ht, ⟨taken, htaken, hle⟩, hticker⟩

end GoExchange.Engine
