import Mathlib.Data.List.Count

/-!
# Labelled transition systems

A step function is executable: a label carries every choice the environment
makes, so a labelled step has at most one successor. A run may be restricted
by a guard on the state a step is taken from and on its label.
-/
namespace Lts

variable {σ ℓ : Type} {step : ℓ → σ → Option σ} {ok : σ → ℓ → Prop} {s t u : σ}

/-- The state after the labelled steps, if every one of them is enabled. -/
def exec (step : ℓ → σ → Option σ) : List ℓ → σ → Option σ
  | [], s => some s
  | a :: as, s => (step a s).bind (exec step as)

/-- A step that a condition enables. -/
theorem of_enabled {c : Prop} [Decidable c] (h : (if c then some s else none) = some t) :
    c ∧ s = t := by
  obtain ⟨hc, h⟩ := Option.ite_none_right_eq_some.mp h
  exact ⟨hc, Option.some.inj h⟩

/-- The guard that lets every step pass. -/
def free (_ : σ) (_ : ℓ) : Prop := True

/-- States reached from `s` by steps that all meet the guard `ok`. -/
inductive Reach (step : ℓ → σ → Option σ) (ok : σ → ℓ → Prop) (s : σ) : σ → Prop
  | refl : Reach step ok s s
  | next {t u : σ} {a : ℓ} :
      Reach step ok s t → ok t a → step a t = some u → Reach step ok s u

theorem Reach.trans (h : Reach step ok s t) (h' : Reach step ok t u) : Reach step ok s u := by
  induction h' with
  | refl => exact h
  | next _ hok hstep ih => exact ih.next hok hstep

/-- A guard may be forgotten. -/
theorem Reach.mono {ok' : σ → ℓ → Prop} (hle : ∀ t a, ok t a → ok' t a)
    (h : Reach step ok s t) : Reach step ok' s t := by
  induction h with
  | refl => exact .refl
  | next _ hok hstep ih => exact ih.next (hle _ _ hok) hstep

/-- The invariant rule: what the first state has and every step keeps holds in
every state reached. -/
theorem Reach.invariant (I : σ → Prop) (h₀ : I s)
    (hstep : ∀ t a u, Reach step ok s t → I t → ok t a → step a t = some u → I u)
    (h : Reach step ok s t) : I t := by
  induction h with
  | refl => exact h₀
  | next hr hok hs ih => exact hstep _ _ _ hr ih hok hs

/-- The simulation rule: if every step of one system is matched by steps of another, every run is.
-/
theorem Reach.simulate {τ κ : Type} {step' : κ → τ → Option τ} {ok' : τ → κ → Prop} {s' : τ}
    (R : σ → τ → Prop) (h₀ : R s s')
    (hstep : ∀ t a u t', Reach step ok s t → Reach step' ok' s' t' → R t t' → ok t a →
      step a t = some u → ∃ u', Reach step' ok' t' u' ∧ R u u')
    (h : Reach step ok s t) : ∃ t', Reach step' ok' s' t' ∧ R t t' := by
  induction h with
  | refl => exact ⟨s', .refl, h₀⟩
  | next hr hok hs ih =>
    obtain ⟨t', hr', hR⟩ := ih
    obtain ⟨u', hu', hR'⟩ := hstep _ _ _ _ hr hr' hR hok hs
    exact ⟨u', hr'.trans hu', hR'⟩

/-- A refinement mapping: every step becomes a run of the other system, which may be empty. -/
theorem Reach.project {τ κ : Type} {step' : κ → τ → Option τ} {ok' : τ → κ → Prop} (f : σ → τ)
    (hstep : ∀ t a u, Reach step ok s t → ok t a → step a t = some u → Reach step' ok' (f t) (f u))
    (h : Reach step ok s t) : Reach step' ok' (f s) (f t) := by
  induction h with
  | refl => exact .refl
  | next hr hok hs ih => exact ih.trans (hstep _ _ _ hr hok hs)

theorem exec_append (as bs : List ℓ) (s : σ) :
    exec step (as ++ bs) s = (exec step as s).bind (exec step bs) := by
  induction as generalizing s with
  | nil => rfl
  | cons a as ih =>
    simp only [List.cons_append, exec, Option.bind_assoc]
    congr 1
    funext t
    exact ih t

theorem reach_of_exec_all (as : List ℓ) (hok : ∀ a ∈ as, ∀ s, ok s a)
    (h : exec step as s = some t) : Reach step ok s t := by
  induction as generalizing s with
  | nil =>
    simp only [exec, Option.some.injEq] at h
    exact h ▸ .refl
  | cons a as ih =>
    obtain ⟨ha, hok⟩ := List.forall_mem_cons.mp hok
    obtain ⟨r, hr, h⟩ := Option.bind_eq_some_iff.mp h
    exact (Reach.refl.next (ha s) hr).trans (ih hok h)

theorem reach_of_exec (as : List ℓ) (h : exec step as s = some t) : Reach step free s t :=
  reach_of_exec_all as (fun _ _ _ => trivial) h

/-- The steps that meet a decidable guard. -/
def guarded (step : ℓ → σ → Option σ) (ok : σ → ℓ → Prop) [∀ s a, Decidable (ok s a)]
    (a : ℓ) (s : σ) : Option σ :=
  if ok s a then step a s else none

theorem reach_of_exec_guarded [∀ s a, Decidable (ok s a)] (as : List ℓ)
    (h : exec (guarded step ok) as s = some t) : Reach step ok s t := by
  refine (reach_of_exec as h).invariant (Reach step ok s) .refl fun t a u _ hr _ hs => ?_
  obtain ⟨hok, hs⟩ := Option.ite_none_right_eq_some.mp hs
  exact hr.next hok hs

/-- The rank rule: a step from a state that owes something pays it, or it keeps owing it, and then a
step of `own` lowers the rank. So a run that takes as many of them as the rank says has paid. -/
theorem exec_pays (own : ℓ → Bool) (rank : σ → Nat) (due : σ → Prop) (pays : σ → ℓ → Prop)
    (hpos : ∀ s, due s → 0 < rank s)
    (hstep : ∀ s a t, due s → step a s = some t → pays s a ∨ due t ∧
      rank t + (own a).toNat ≤ rank s)
    (as : List ℓ) (h : exec step as s = some t) (hdue : due s) (hlen : rank s ≤ as.countP own) :
    ∃ before a after u v, as = before ++ a :: after ∧ exec step before s = some u ∧ pays u a ∧
    step a u = some v ∧
      exec step after v = some t := by
  induction as generalizing s with
  | nil =>
    have := hpos s hdue
    simp only [List.countP_nil] at hlen
    omega
  | cons a as ih =>
    obtain ⟨r, hr, h⟩ := Option.bind_eq_some_iff.mp h
    rcases hstep s a r hdue hr with hpays | ⟨hdue', hrank⟩
    · exact ⟨[], a, as, s, r, rfl, rfl, hpays, hr, h⟩
    · have hlen' : rank r ≤ as.countP own := by
        rw [List.countP_cons] at hlen
        cases hown : own a <;> simp only [hown, Bool.toNat_true, Bool.toNat_false,
          if_true, if_false, Bool.false_eq_true] at hlen hrank <;> omega
      obtain ⟨before, b, after, u, v, rfl, hu, hpays⟩ := ih h hdue' hlen'
      exact ⟨a :: before, b, after, u, v, rfl, by rw [exec, hr]; exact hu, hpays⟩

end Lts
