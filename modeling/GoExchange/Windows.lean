import Mathlib.Data.List.Infix
import Mathlib.Data.List.Count

/-!
# Windows of a history

A history is a list that grows at its end. How often something happens in any
stretch free of some other mark, and whether every request in it is met before
the next mark, follow from the end of the list at each step.
-/
namespace Windows

variable {α : Type} {stop what ask reply a : α} {n m : Nat} {l : List α}

theorem eq_of_suffix_snoc {b : α} (h : [b] <:+ l ++ [a]) : b = a := by
  rcases List.suffix_concat_iff.mp h with hnil | ⟨t, ht, -⟩
  · cases hnil
  · simpa using congrArg List.getLast? ht

/-! ## Counts between two marks -/

section Counts

variable [DecidableEq α]

/-- No stretch free of `stop` has more than `n` of `what`. -/
def Within (stop what : α) (n : Nat) (l : List α) : Prop :=
  ∀ w, w <:+: l → stop ∉ w → w.count what ≤ n

/-- No stretch free of `stop` that lasts to the end has more than `n` of `what`. -/
def Since (stop what : α) (n : Nat) (l : List α) : Prop :=
  ∀ w, w <:+ l → stop ∉ w → w.count what ≤ n

theorem within_nil : Within stop what n [] := by
  intro w hw _
  simp [List.infix_nil.mp hw]

theorem since_nil : Since stop what n [] := by
  intro w hw _
  simp [List.suffix_nil.mp hw]

theorem Since.mono (h : Since stop what n l) (hle : n ≤ m) : Since stop what m l :=
  fun w hw hstop => (h w hw hstop).trans hle

theorem Within.snoc (h : Within stop what n l) (hend : Since stop what n (l ++ [a])) :
    Within stop what n (l ++ [a]) := by
  intro w hw hstop
  rcases List.infix_concat_iff.mp hw with hw | hw
  · exact hend w hw hstop
  · exact h w hw hstop

theorem since_stop : Since stop what n (l ++ [stop]) := by
  intro w hw hstop
  rcases List.suffix_concat_iff.mp hw with rfl | ⟨w', rfl, -⟩
  · simp
  · simp at hstop

theorem Since.snoc (h : Since stop what n l) (a : α) :
    Since stop what (n + if a = what then 1 else 0) (l ++ [a]) := by
  intro w hw hstop
  rcases List.suffix_concat_iff.mp hw with rfl | ⟨w', rfl, hw'⟩
  · simp
  · have hle := h w' hw' fun hin => hstop (List.mem_append_left _ hin)
    rw [List.count_append, List.count_singleton]
    by_cases ha : a = what
    · simp only [ha, beq_self_eq_true, if_true]
      omega
    · simp only [ha, if_false, beq_iff_eq]
      omega

end Counts

/-! ## Requests met in time -/

/-- A request stands open: it was made, and neither met nor overtaken by `stop`. -/
def Open (ask reply stop : α) (l : List α) : Prop := ∃ w, ask :: w <:+ l ∧ stop ∉ w ∧ reply ∉ w

/-- Every request is met before the next `stop`. -/
def Met (ask reply stop : α) (l : List α) : Prop :=
  ∀ w, ask :: (w ++ [stop]) <:+: l → stop ∉ w → reply ∈ w

theorem not_open_nil : ¬ Open ask reply stop [] := by
  rintro ⟨w, hw, -⟩
  exact absurd (List.suffix_nil.mp hw) (by simp)

theorem met_nil : Met ask reply stop [] := by
  intro w hw
  exact absurd (List.infix_nil.mp hw) (by simp)

theorem Open.of_snoc (h : Open ask reply stop (l ++ [a])) :
    a = ask ∨ Open ask reply stop l ∧ a ≠ stop ∧ a ≠ reply := by
  obtain ⟨w, hw, hstop, hreply⟩ := h
  rcases List.suffix_concat_iff.mp hw with hnil | ⟨t, ht, hsuf⟩
  · cases hnil
  · cases t with
    | nil =>
      cases ht
      exact .inl rfl
    | cons b t =>
      simp only [List.cons_append, List.cons.injEq] at ht
      obtain ⟨rfl, rfl⟩ := ht
      rw [List.mem_append, not_or] at hstop hreply
      refine .inr ⟨⟨t, hsuf, hstop.1, hreply.1⟩, ?_, ?_⟩
      · rintro rfl
        exact hstop.2 (by simp)
      · rintro rfl
        exact hreply.2 (by simp)

theorem Met.snoc (h : Met ask reply stop l) (hclosed : a = stop → ¬ Open ask reply stop l) :
    Met ask reply stop (l ++ [a]) := by
  intro w hw hstop
  rcases List.infix_concat_iff.mp hw with hw | hw
  · rcases List.suffix_concat_iff.mp hw with hnil | ⟨t, ht, hsuf⟩
    · cases hnil
    · rw [← List.cons_append] at ht
      obtain ⟨rfl, ha⟩ := List.append_inj' ht rfl
      by_contra hreply
      exact hclosed (List.cons.inj ha).1.symm ⟨w, hsuf, hstop, hreply⟩
  · exact h w hw hstop

end Windows
