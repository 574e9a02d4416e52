import Mathlib.Data.List.Forall2

/-!
# Computations that may fail

When a sequence of fallible steps succeeds, each of its steps has.
-/
namespace Fallible

variable {ε α β : Type} {xs : List α} {f : α → Except ε β} {x : Except ε α} {ys : List β}

theorem bind_eq_ok {b : β} :
    (x >>= f) = .ok b ↔ ∃ a, x = .ok a ∧ f a = .ok b := by
  cases x with
  | error e => simp [bind, Except.bind]
  | ok a => simp [bind, Except.bind]

theorem map_bind_error {γ : Type} {e : ε} (f : α → Except ε β) (g : β → γ) (h : x = .error e) :
    (x >>= f).map g = .error e := by
  rw [h]
  rfl

theorem guard_eq_ok {c : Prop} [Decidable c] {e : ε} {a : α} :
    (if c then .error e else x) = .ok a ↔ ¬c ∧ x = .ok a := by
  by_cases h : c <;> simp [h]

theorem mapM_eq_ok :
    xs.mapM f = .ok ys ↔ List.Forall₂ (fun x y => f x = .ok y) xs ys := by
  induction xs generalizing ys with
  | nil =>
    rw [List.mapM_nil, List.forall₂_nil_left_iff]
    exact ⟨fun h => by cases h; rfl, fun h => by rw [h]; rfl⟩
  | cons x xs ih =>
    rw [List.mapM_cons, List.forall₂_cons_left_iff, bind_eq_ok]
    constructor
    · rintro ⟨y, hy, h⟩
      obtain ⟨zs, hzs, h⟩ := bind_eq_ok.mp h
      cases h
      exact ⟨y, zs, hy, ih.mp hzs, rfl⟩
    · rintro ⟨y, zs, hy, hzs, rfl⟩
      exact ⟨y, hy, bind_eq_ok.mpr ⟨zs, ih.mpr hzs, rfl⟩⟩

theorem forall₂_exists_left {R : α → β → Prop} (h : List.Forall₂ R xs ys) {y : β}
    (hy : y ∈ ys) : ∃ x ∈ xs, R x y := by
  induction h with
  | nil => cases hy
  | cons hxy _ ih =>
    rcases List.mem_cons.mp hy with rfl | hy
    · exact ⟨_, List.mem_cons_self, hxy⟩
    · obtain ⟨x, hx, hr⟩ := ih hy
      exact ⟨x, List.mem_cons_of_mem _ hx, hr⟩

theorem forall₂_exists_right {R : α → β → Prop} (h : List.Forall₂ R xs ys) {x : α}
    (hx : x ∈ xs) : ∃ y ∈ ys, R x y :=
  forall₂_exists_left h.flip hx

theorem forM_eq_ok {f : α → Except ε Unit} : xs.forM f = .ok () ↔ ∀ x ∈ xs, f x = .ok () := by
  induction xs with
  | nil => simp [pure, Except.pure]
  | cons x xs ih =>
    have hcons : (x :: xs).forM f = (f x >>= fun _ => xs.forM f) := rfl
    rw [hcons, bind_eq_ok, List.forall_mem_cons, ← ih]
    exact ⟨fun ⟨_, hx, h⟩ => ⟨hx, h⟩, fun ⟨hx, h⟩ => ⟨_, hx, h⟩⟩

theorem forM_eq_error {f : α → Except ε Unit} {e : ε} (h : xs.forM f = .error e) :
    ∃ x ∈ xs, f x = .error e := by
  induction xs with
  | nil => cases h
  | cons x xs ih =>
    have hcons : (x :: xs).forM f = (f x >>= fun _ => xs.forM f) := rfl
    rw [hcons] at h
    cases hx : f x with
    | error e' =>
      rw [hx] at h
      cases h
      exact ⟨x, List.mem_cons_self, hx⟩
    | ok _ =>
      rw [hx] at h
      obtain ⟨y, hy, he⟩ := ih h
      exact ⟨y, List.mem_cons_of_mem _ hy, he⟩

/-- The state after a transaction, which is rolled back if it fails. -/
def transact {σ : Type} (s : σ) (put : α → σ) : Except ε α → σ
  | .ok a => put a
  | .error _ => s

theorem transact_of {σ : Type} {P : σ → Prop} {s : σ} {put : α → σ} {r : Except ε α} (hs : P s)
    (hr : ∀ a, r = .ok a → P (put a)) : P (transact s put r) := by
  cases r with
  | ok a => exact hr a rfl
  | error e => exact hs

/-- What every step of a fold keeps holds at its end. -/
theorem foldlM_invariant {σ : Type} (I : σ → Prop) {f : σ → α → Except ε σ} {s t : σ}
    (hstep : ∀ s x t, x ∈ xs → I s → f s x = .ok t → I t) (hs : I s) (h : xs.foldlM f s = .ok t) :
    I t := by
  induction xs generalizing s with
  | nil =>
    cases h
    exact hs
  | cons x xs ih =>
    rw [List.foldlM_cons] at h
    obtain ⟨u, hu, h⟩ := bind_eq_ok.mp h
    exact ih (fun s y t hy => hstep s y t (List.mem_cons_of_mem _ hy))
      (hstep s x u List.mem_cons_self hs hu) h

/-- A fold succeeds if every step does from the states the invariant allows. -/
theorem foldlM_ok {σ : Type} (I : σ → Prop) {f : σ → α → Except ε σ} {s : σ}
    (hstep : ∀ s x, x ∈ xs → I s → ∃ t, f s x = .ok t ∧ I t) (hs : I s) :
    ∃ t, xs.foldlM f s = .ok t ∧ I t := by
  induction xs generalizing s with
  | nil => exact ⟨s, rfl, hs⟩
  | cons x xs ih =>
    obtain ⟨u, hu, hI⟩ := hstep s x List.mem_cons_self hs
    obtain ⟨t, ht, hI⟩ := ih (fun s y hy => hstep s y (List.mem_cons_of_mem _ hy)) hI
    exact ⟨t, by rw [List.foldlM_cons, hu]; exact ht, hI⟩

theorem mapM_ok (h : ∀ x ∈ xs, ∃ y, f x = .ok y) : ∃ ys, xs.mapM f = .ok ys := by
  induction xs with
  | nil => exact ⟨[], rfl⟩
  | cons x xs ih =>
    obtain ⟨y, hy⟩ := h x List.mem_cons_self
    obtain ⟨ys, hys⟩ := ih fun z hz => h z (List.mem_cons_of_mem _ hz)
    exact ⟨y :: ys, mapM_eq_ok.mpr (.cons hy (mapM_eq_ok.mp hys))⟩

/-- Two passes over a list, the second with the results of the first. -/
theorem mapM_zip_eq_ok {γ : Type} {g : α × β → Except ε γ} {zs : List γ} :
    (∃ ys, xs.mapM f = .ok ys ∧ (xs.zip ys).mapM g = .ok zs) ↔
      List.Forall₂ (fun x z => ∃ y, f x = .ok y ∧ g (x, y) = .ok z) xs zs := by
  simp only [mapM_eq_ok]
  induction xs generalizing zs with
  | nil =>
    constructor
    · rintro ⟨ys, hys, hzs⟩
      cases hys
      cases hzs
      exact .nil
    · intro h
      cases h
      exact ⟨[], .nil, .nil⟩
  | cons x xs ih =>
    constructor
    · rintro ⟨ys, hys, hzs⟩
      obtain ⟨y, ys', hy, hys', rfl⟩ := List.forall₂_cons_left_iff.mp hys
      obtain ⟨z, zs', hz, hzs', rfl⟩ := List.forall₂_cons_left_iff.mp hzs
      exact .cons ⟨y, hy, hz⟩ (ih.mp ⟨ys', hys', hzs'⟩)
    · intro h
      obtain ⟨z, zs', ⟨y, hy, hz⟩, hrest, rfl⟩ := List.forall₂_cons_left_iff.mp h
      obtain ⟨ys, hys, hzs⟩ := ih.mpr hrest
      exact ⟨y :: ys, .cons hy hys, .cons hz hzs⟩

/-! ## Computations that succeed together -/

section Agrees

variable {ε' γ δ : Type} {R : α → β → Prop} {S : γ → δ → Prop} {x : Except ε α} {y : Except ε' β}

/-- Each succeeds if the other does, and the results are related. -/
def Agrees (R : α → β → Prop) (x : Except ε α) (y : Except ε' β) : Prop :=
  (∀ a, x = .ok a → ∃ b, y = .ok b ∧ R a b) ∧ ∀ b, y = .ok b → ∃ a, x = .ok a ∧ R a b

theorem Agrees.ok {a : α} {b : β} (h : R a b) :
    Agrees R (.ok a : Except ε α) (.ok b : Except ε' β) :=
  ⟨fun a' ha => by cases ha; exact ⟨b, rfl, h⟩, fun b' hb => by cases hb; exact ⟨a, rfl, h⟩⟩

theorem Agrees.bind {f : α → Except ε γ} {g : β → Except ε' δ} (h : Agrees R x y)
    (hf : ∀ a b, x = .ok a → y = .ok b → R a b → Agrees S (f a) (g b)) :
    Agrees S (x >>= f) (y >>= g) := by
  constructor
  · intro c hc
    obtain ⟨a, ha, hc⟩ := bind_eq_ok.mp hc
    obtain ⟨b, hb, hab⟩ := h.1 a ha
    obtain ⟨d, hd, hcd⟩ := (hf a b ha hb hab).1 c hc
    exact ⟨d, bind_eq_ok.mpr ⟨b, hb, hd⟩, hcd⟩
  · intro d hd
    obtain ⟨b, hb, hd⟩ := bind_eq_ok.mp hd
    obtain ⟨a, ha, hab⟩ := h.2 b hb
    obtain ⟨c, hc, hcd⟩ := (hf a b ha hb hab).2 d hd
    exact ⟨c, bind_eq_ok.mpr ⟨a, ha, hc⟩, hcd⟩

/-- The same check. -/
theorem Agrees.guard {c : Prop} [Decidable c] {e : ε} {e' : ε'}
    (h : ¬ c → Agrees R x y) :
    Agrees R (if c then .error e else x) (if c then .error e' else y) := by
  by_cases hc : c
  · rw [if_pos hc, if_pos hc]
    exact ⟨nofun, nofun⟩
  · rw [if_neg hc, if_neg hc]
    exact h hc

/-- The same first step. -/
theorem Agrees.bind_same {f : α → Except ε γ} {g : α → Except ε δ}
    (hf : ∀ a, x = .ok a → Agrees S (f a) (g a)) : Agrees S (x >>= f) (x >>= g) := by
  have hx : Agrees (fun a b : α => a = b) x x :=
    ⟨fun a ha => ⟨a, ha, rfl⟩, fun a ha => ⟨a, ha, rfl⟩⟩
  exact hx.bind fun a b ha _ hab => hab ▸ hf a ha

theorem Agrees.symm (h : Agrees R x y) : Agrees (fun b a => R a b) y x :=
  ⟨h.2, h.1⟩

/-- One more step on one side. -/
theorem Agrees.map_right {T : α → γ → Prop} {g : β → γ} (h : Agrees R x y)
    (hg : ∀ a b, R a b → T a (g b)) : Agrees T x (y >>= fun b => .ok (g b)) := by
  constructor
  · intro a ha
    obtain ⟨b, hb, hab⟩ := h.1 a ha
    exact ⟨g b, bind_eq_ok.mpr ⟨b, hb, rfl⟩, hg a b hab⟩
  · intro c hc
    obtain ⟨b, hb, hc⟩ := bind_eq_ok.mp hc
    obtain ⟨a, ha, hab⟩ := h.2 b hb
    cases hc
    exact ⟨a, ha, hg a b hab⟩

theorem Agrees.map_left {T : γ → β → Prop} {g : α → γ} (h : Agrees R x y)
    (hg : ∀ a b, R a b → T (g a) b) : Agrees T (x >>= fun a => .ok (g a)) y :=
  (h.symm.map_right (T := fun b c => T c b) fun b a hab => hg a b hab).symm

end Agrees

end Fallible
