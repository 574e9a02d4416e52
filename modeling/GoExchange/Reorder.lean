import GoExchange.Rows
import Mathlib.Data.List.Range

/-!
# Reorder buffers

Values carry the numbers 1, 2, … and arrive in any order. The buffer holds a
value until every smaller number has left, so the values leave in the order of
their numbers, whatever the order of arrival.
-/
namespace Reorder

variable {α : Type} {arrived : List (Nat × α)} {k : Nat} {a : α}

/-- The values that wait for their turn, the number whose turn it is, and what has left. -/
structure Buffer (α : Type) where
  pending : List (Nat × α)
  next : Nat
  out : List α

namespace Buffer

def empty : Buffer α := ⟨[], 1, []⟩

/-- A value arrives. -/
def put (b : Buffer α) (k : Nat) (a : α) : Buffer α :=
  { b with pending := (k, a) :: b.pending.filter (fun p => p.1 != k) }

/-- The value whose turn it is leaves. -/
def send (b : Buffer α) (a : α) : Buffer α :=
  ⟨b.pending.filter (fun p => p.1 != b.next), b.next + 1, b.out ++ [a]⟩

/-- Values leave up to the first gap. -/
def flush : Nat → Buffer α → Buffer α
  | 0, b => b
  | fuel + 1, b =>
    match b.pending.lookup b.next with
    | none => b
    | some a => flush fuel (b.send a)

/-- The values that left, with their numbers. -/
def sent (b : Buffer α) : List (Nat × α) := (List.range' 1 b.out.length).zip b.out

/-- The buffer waits for a number that has not arrived. -/
def Settled (b : Buffer α) : Prop := b.pending.lookup b.next = none

end Buffer

variable {b : Buffer α}

/-- Every arrival has left in its turn or is pending. -/
structure Ordered (arrived : List (Nat × α)) (b : Buffer α) : Prop where
  nodup : (arrived.map Prod.fst).Nodup
  split : arrived.Perm (b.sent ++ b.pending)
  next_eq : b.next = b.out.length + 1

theorem ordered_empty : Ordered ([] : List (Nat × α)) .empty where
  nodup := List.nodup_nil
  split := .nil
  next_eq := rfl

theorem sent_send (b : Buffer α) (a : α) : (b.send a).sent = b.sent ++ [(b.out.length + 1, a)] := by
  have hr : List.range' 1 (b.out.length + 1) =
      List.range' 1 b.out.length ++ [b.out.length + 1] := by
    rw [List.range'_concat]
    simp [Nat.add_comm]
  simp only [Buffer.sent, Buffer.send, List.length_append, List.length_singleton, hr]
  rw [List.zip_append (by simp)]
  rfl

theorem mem_sent_iff {p : Nat × α} :
    p ∈ b.sent ↔ ∃ i, b.out[i]? = some p.2 ∧ p.1 = i + 1 := by
  simp only [Buffer.sent, List.mem_iff_getElem?, List.getElem?_zip_eq_some]
  constructor
  · rintro ⟨i, hk, ha⟩
    have hi : i < b.out.length := (List.getElem?_eq_some_iff.mp ha).1
    rw [List.getElem?_range' hi] at hk
    exact ⟨i, ha, by have := Option.some.inj hk; omega⟩
  · rintro ⟨i, ha, hk⟩
    have hi : i < b.out.length := (List.getElem?_eq_some_iff.mp ha).1
    refine ⟨i, ?_, ha⟩
    rw [List.getElem?_range' hi, hk]
    simp [Nat.add_comm]

theorem Ordered.mem_of_out (h : Ordered arrived b) {i : Nat} (hi : b.out[i]? = some a) :
    (i + 1, a) ∈ arrived :=
  h.split.mem_iff.mpr (List.mem_append_left _ (mem_sent_iff.mpr ⟨i, hi, rfl⟩))

theorem Ordered.pending_nodup (h : Ordered arrived b) : (b.pending.map Prod.fst).Nodup := by
  have hn := (h.split.map Prod.fst).nodup_iff.mp h.nodup
  rw [List.map_append] at hn
  exact (List.nodup_append.mp hn).2.1

theorem Ordered.put (h : Ordered arrived b) (hk : k ∉ arrived.map Prod.fst) (a : α) :
    Ordered (arrived ++ [(k, a)]) (b.put k a) where
  nodup := by
    rw [List.map_append]
    exact List.nodup_append.mpr ⟨h.nodup, List.nodup_singleton _, by
      intro x hx y hy he
      have hyk : y = k := by simpa using hy
      exact hk (hyk ▸ he ▸ hx)⟩
  split := by
    have hf : b.pending.filter (fun p => p.1 != k) = b.pending := by
      refine List.filter_eq_self.mpr fun p hp => ?_
      have : p.1 ≠ k := fun he =>
        hk (he ▸ List.mem_map_of_mem (h.split.mem_iff.mpr (List.mem_append_right _ hp)))
      simpa using this
    have hs : (b.put k a).sent ++ (b.put k a).pending = b.sent ++ (k, a) :: b.pending := by
      simp [Buffer.put, Buffer.sent, hf]
    rw [hs]
    exact (List.perm_append_comm.trans (h.split.cons (k, a))).trans List.perm_middle.symm
  next_eq := h.next_eq

theorem Ordered.send (h : Ordered arrived b) (ha : b.pending.lookup b.next = some a) :
    Ordered arrived (b.send a) where
  nodup := h.nodup
  split := by
    have hp := Rows.perm_cons_lookup h.pending_nodup ha
    rw [sent_send, ← h.next_eq, List.append_assoc, List.singleton_append]
    exact h.split.trans (hp.append_left b.sent)
  next_eq := by simp [Buffer.send, h.next_eq]

theorem Ordered.flush (fuel : Nat) (h : Ordered arrived b) : Ordered arrived (b.flush fuel) := by
  induction fuel generalizing b with
  | zero => exact h
  | succ fuel ih =>
    simp only [Buffer.flush]
    cases ha : b.pending.lookup b.next with
    | none => exact h
    | some a => exact ih (h.send ha)

/-- One round for each pending value is enough. -/
theorem Ordered.settled_flush (fuel : Nat) (h : Ordered arrived b) (hf : b.pending.length ≤ fuel) :
    (b.flush fuel).Settled := by
  induction fuel generalizing b with
  | zero =>
    have hn : b.pending = [] := List.eq_nil_of_length_eq_zero (Nat.le_zero.mp hf)
    simp [Buffer.flush, Buffer.Settled, hn]
  | succ fuel ih =>
    simp only [Buffer.flush]
    cases ha : b.pending.lookup b.next with
    | none => exact ha
    | some a =>
      apply ih (h.send ha)
      have hl := (Rows.perm_cons_lookup h.pending_nodup ha).length_eq
      simp only [Buffer.send, List.length_cons] at hl ⊢
      omega

/-- A settled buffer has sent every number up to the first that has not arrived. -/
theorem Ordered.le_length (h : Ordered arrived b) (hs : b.Settled) {n : Nat}
    (hn : ∀ k, 1 ≤ k → k ≤ n → k ∈ arrived.map Prod.fst) : n ≤ b.out.length := by
  by_contra hlt
  have hm := hn b.next (by have := h.next_eq; omega) (by have := h.next_eq; omega)
  obtain ⟨p, hp, hpk⟩ := List.mem_map.mp hm
  rcases List.mem_append.mp (h.split.mem_iff.mp hp) with hp | hp
  · obtain ⟨i, hi, hk⟩ := mem_sent_iff.mp hp
    have := (List.getElem?_eq_some_iff.mp hi).1
    have := h.next_eq
    omega
  · have := List.lookup_eq_none_iff.mp hs p hp
    simp [hpk] at this

end Reorder
