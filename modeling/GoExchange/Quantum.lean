import Mathlib.Tactic.Linarith
import GoExchange.Model

/-!
# The limits of the scheduler

`quantum_config.go`: how many executions one slice may make, how many cancels
may pass before the next progress, and the channel capacity both need. Go
integers are 64 bit wide and wrap around.
-/
namespace GoExchange.Matching

/-- The value a 64-bit signed computation returns for `x`. -/
def wrap64 (x : Int) : Int := Int.bmod x (2 ^ 64)

/-- The values of the Go type `int`. -/
def IsInt64 (x : Int) : Prop := -2 ^ 63 ≤ x ∧ x < 2 ^ 63

instance (x : Int) : Decidable (IsInt64 x) := inferInstanceAs (Decidable (_ ∧ _))

theorem wrap64_of_isInt64 {x : Int} (h : IsInt64 x) : wrap64 x = x := by
  obtain ⟨hlo, hhi⟩ := h
  exact Int.bmod_eq_of_le (by omega) (by omega)

structure QuantumConfig where
  maxMatchesPerTurn : Int
  maxConsecutiveCancels : Int
  deriving DecidableEq, Repr

def QuantumConfig.validate (c : QuantumConfig) : Except DomainError Unit :=
  let perTurn := c.maxMatchesPerTurn
  let cancels := c.maxConsecutiveCancels
  if perTurn < 1 then .error ⟨.other, s!"maxMatchesPerTurn must be >= 1, got {perTurn}"⟩
  else if cancels < 1 then .error ⟨.other, s!"maxConsecutiveCancels must be >= 1, got {cancels}"⟩
  else .ok ()

def validateExecutionCapacity (capacity : Int) (c : QuantumConfig) : Except DomainError Unit :=
  let perTurn := c.maxMatchesPerTurn
  let cancels := c.maxConsecutiveCancels
  let room := wrap64 (wrap64 (capacity - 1) - cancels)
  if capacity < 2 then
    .error ⟨.other,
      s!"execution capacity must be >= 2 (need room for 1 cancel and 1 slice), got {capacity}"⟩
  else if wrap64 (capacity - 2) < cancels then
    .error ⟨.other,
      s!"maxConsecutiveCancels ({cancels}) leaves no room for a slice within " ++
        s!"execution capacity {capacity}"⟩
  else if room < perTurn then
    .error ⟨.other,
      s!"maxMatchesPerTurn ({perTurn}) exceeds available execution capacity {room} " ++
        s!"(executionCapacity={capacity}, maxConsecutiveCancels={cancels})"⟩
  else .ok ()

/-- The start condition of a slice. -/
def QuantumConfig.hasSliceCapacity (c : QuantumConfig) (free : Int) : Bool :=
  decide (c.maxMatchesPerTurn ≤ wrap64 (wrap64 (free - 1) - c.maxConsecutiveCancels))

theorem validate_iff (c : QuantumConfig) :
    c.validate = .ok () ↔ 1 ≤ c.maxMatchesPerTurn ∧ 1 ≤ c.maxConsecutiveCancels := by
  simp only [QuantumConfig.validate]
  split
  · simp
    omega
  · split
    · simp
      omega
    · simp
      omega

section

variable {capacity free : Int} {c : QuantumConfig}

/-- The check by subtractions is the exact one: none of them leaves the range before it is compared.
-/
theorem validateExecutionCapacity_iff (hcap : IsInt64 capacity) (hm : 1 ≤ c.maxMatchesPerTurn)
    (hc : 1 ≤ c.maxConsecutiveCancels) :
    validateExecutionCapacity capacity c = .ok () ↔
    c.maxMatchesPerTurn + 1 + c.maxConsecutiveCancels ≤ capacity := by
  obtain ⟨-, hhi⟩ := hcap
  simp only [validateExecutionCapacity]
  split
  · simp
    omega
  rename_i htwo
  have hlow : wrap64 (capacity - 2) = capacity - 2 := wrap64_of_isInt64 ⟨by omega, by omega⟩
  rw [hlow]
  split
  · simp
    omega
  rename_i hroom
  have hone : wrap64 (capacity - 1) = capacity - 1 := wrap64_of_isInt64 ⟨by omega, by omega⟩
  have hrest : wrap64 (capacity - 1 - c.maxConsecutiveCancels) =
      capacity - 1 - c.maxConsecutiveCancels :=
    wrap64_of_isInt64 ⟨by omega, by omega⟩
  rw [hone, hrest]
  split
  · simp
    omega
  · simp
    omega

/-- The start condition cannot overflow: at worst it computes `-1 - maxConsecutiveCancels`. -/
theorem hasSliceCapacity_iff (hfree : IsInt64 free) (h₀ : 0 ≤ free)
    (hcancels : IsInt64 c.maxConsecutiveCancels) (hc : 1 ≤ c.maxConsecutiveCancels) :
    c.hasSliceCapacity free = true ↔ c.maxMatchesPerTurn + 1 + c.maxConsecutiveCancels ≤ free := by
  obtain ⟨-, hhi⟩ := hfree
  obtain ⟨-, hlt⟩ := hcancels
  have hone : wrap64 (free - 1) = free - 1 := wrap64_of_isInt64 ⟨by omega, by omega⟩
  have hrest : wrap64 (free - 1 - c.maxConsecutiveCancels) = free - 1 - c.maxConsecutiveCancels :=
    wrap64_of_isInt64 ⟨by omega, by omega⟩
  rw [QuantumConfig.hasSliceCapacity, hone, hrest, decide_eq_true_eq]
  omega

end

/-- Checked at the start and again at run time, over every value of the Go type: the capacity is
accepted if it has room for a slice with its last event and for the quota of cancels, and a channel
of accepted capacity starts a slice exactly when its free slots have. -/
theorem capacity_checks_agree (capacity perTurn cancels : Int) (hcapacity : IsInt64 capacity)
    (hcancels : IsInt64 cancels) (h₀ : 0 ≤ capacity) (hm : 1 ≤ perTurn) (hc : 1 ≤ cancels) :
    (validateExecutionCapacity capacity ⟨perTurn, cancels⟩ = .ok () ↔
      perTurn + 1 + cancels ≤ capacity) ∧
    (validateExecutionCapacity capacity ⟨perTurn, cancels⟩ = .ok () →
      (∀ filled : Nat, filled ≤ capacity →
        (QuantumConfig.hasSliceCapacity ⟨perTurn, cancels⟩ (wrap64 (capacity - filled)) = true ↔
          perTurn + 1 + cancels ≤ capacity - filled)) ∧
      QuantumConfig.hasSliceCapacity ⟨perTurn, cancels⟩ (wrap64 (capacity - 0)) = true) := by
  have hvalid := validateExecutionCapacity_iff (c := ⟨perTurn, cancels⟩) hcapacity hm hc
  have hslots : ∀ filled : Nat, filled ≤ capacity →
      (QuantumConfig.hasSliceCapacity ⟨perTurn, cancels⟩ (wrap64 (capacity - filled)) = true ↔
        perTurn + 1 + cancels ≤ capacity - filled) := by
    intro filled hfilled
    have hfree : IsInt64 (capacity - filled) := ⟨by omega, by have := hcapacity.2; omega⟩
    rw [wrap64_of_isInt64 hfree]
    exact hasSliceCapacity_iff (c := ⟨perTurn, cancels⟩) hfree (by omega) hcancels hc
  refine ⟨hvalid, fun haccepted => ⟨hslots, ?_⟩⟩
  apply (hslots 0 h₀).mpr
  have hroom := hvalid.mp haccepted
  simpa using hroom

theorem capacity_checks_agree_extreme :
    (validateExecutionCapacity (2 ^ 63 - 1) ⟨2 ^ 62, 2 ^ 62 - 2⟩ = .ok () ↔
      (2 ^ 62 + 1 + (2 ^ 62 - 2) : Int) ≤ 2 ^ 63 - 1) ∧
    QuantumConfig.hasSliceCapacity ⟨2 ^ 62, 2 ^ 62 - 2⟩ (wrap64 (2 ^ 63 - 1 - 0)) = true := by
  obtain ⟨hvalid, hslots⟩ :=
    capacity_checks_agree (2 ^ 63 - 1) (2 ^ 62) (2 ^ 62 - 2) (by decide) (by decide)
    (by decide) (by decide) (by decide)
  exact ⟨hvalid, (hslots (hvalid.mpr (by decide))).2⟩

/-- The limits of an engine that was built and started: both checks have passed. -/
structure EngineConfig extends QuantumConfig where
  executionCapacity : Nat
  capacity_isInt64 : IsInt64 executionCapacity
  matches_isInt64 : IsInt64 maxMatchesPerTurn
  cancels_isInt64 : IsInt64 maxConsecutiveCancels
  valid : toQuantumConfig.validate = .ok ()
  fits : validateExecutionCapacity executionCapacity toQuantumConfig = .ok ()

namespace EngineConfig

variable (cfg : EngineConfig)

theorem one_le : 1 ≤ cfg.maxMatchesPerTurn ∧ 1 ≤ cfg.maxConsecutiveCancels :=
  (validate_iff _).mp cfg.valid

/-- A slice with its last event and the quota of cancels fit into the channel. -/
theorem reserve_le :
    cfg.maxMatchesPerTurn + 1 + cfg.maxConsecutiveCancels ≤ cfg.executionCapacity :=
  (validateExecutionCapacity_iff cfg.capacity_isInt64 cfg.one_le.1 cfg.one_le.2).mp cfg.fits

/-- No computation of the start condition overflows. -/
theorem hasSliceCapacity_iff {free : Int} (h₀ : 0 ≤ free) (h₁ : free ≤ cfg.executionCapacity) :
    cfg.hasSliceCapacity free = true ↔
    cfg.maxMatchesPerTurn + 1 + cfg.maxConsecutiveCancels ≤ free := by
  have hcap := cfg.capacity_isInt64.2
  exact Matching.hasSliceCapacity_iff ⟨by omega, by omega⟩ h₀ cfg.cancels_isInt64 cfg.one_le.2

end EngineConfig

end GoExchange.Matching
