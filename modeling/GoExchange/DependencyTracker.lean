import GoExchange.Model
import GoExchange.Rows

/-!
# The dispatcher's dependency tracker

`settlement_dependency.go`: for every order the number of dispatched batches
that name it and are not yet retired, and the orders whose terminal events may
not run. A Go map read at a missing key gives the zero value, so the counter map
is a total function; the map from job ids to orders is an association list.
-/
namespace GoExchange

structure DependencyTracker where
  inFlight : Nat → Nat
  dispatched : List (Nat × List Nat)
  unsafeOrders : Finset Nat
  jobs : Nat

namespace DependencyTracker

def new : DependencyTracker where
  inFlight := fun _ => 0
  dispatched := []
  unsafeOrders := ∅
  jobs := 0

/-- Append an order id unless it was seen before. -/
def see (orders : List Nat) (id : Nat) : List Nat :=
  if id ∈ orders then orders else orders ++ [id]

/-- The loop body of `touchedOrderIDs`. -/
def touch (orders : List Nat) (e : OutboxEvent) : List Nat :=
  match e.event.trade? with
  | none => orders
  | some t => see (see orders t.buyOrderID) t.sellOrderID

/-- The orders a batch names, each once. -/
def touchedOrderIDs (batch : List OutboxEvent) : List Nat := batch.foldl touch []

/-- `inFlight[id]++` for every listed id. -/
def countUp (inFlight : Nat → Nat) (orders : List Nat) : Nat → Nat :=
  orders.foldl (fun f id => Function.update f id (f id + 1)) inFlight

/-- `inFlight[id]--` for every listed id; an entry that falls to zero is deleted. -/
def countDown (inFlight : Nat → Nat) (orders : List Nat) : Nat → Nat :=
  orders.foldl (fun f id => Function.update f id (f id - 1)) inFlight

def register (d : DependencyTracker) (jobID : Nat) (orders : List Nat) : DependencyTracker :=
  { d with
    dispatched := (jobID, orders) :: d.dispatched.filter (fun p => p.1 != jobID)
    jobs := d.jobs + 1
    inFlight := countUp d.inFlight orders }

/-- An unknown job is an error, which the dispatcher only logs. -/
def retire (d : DependencyTracker) (jobID : Nat) (undurable : List Nat) : DependencyTracker :=
  match d.dispatched.lookup jobID with
  | none => d
  | some orders =>
    { unsafeOrders := d.unsafeOrders ∪ undurable.toFinset
      dispatched := d.dispatched.filter (fun p => p.1 != jobID)
      jobs := d.jobs - 1
      inFlight := countDown d.inFlight orders }

def ready (d : DependencyTracker) (orderID : Nat) : Bool := d.inFlight orderID == 0

def quarantined (d : DependencyTracker) (orderID : Nat) : Bool := orderID ∈ d.unsafeOrders

def clearQuarantine (d : DependencyTracker) (orderID : Nat) : DependencyTracker :=
  { d with unsafeOrders := d.unsafeOrders.erase orderID }

def outstanding (d : DependencyTracker) : Nat := d.jobs

variable {orders : List Nat}

@[simp] theorem ready_eq_true (d : DependencyTracker) (x : Nat) :
    d.ready x = true ↔ d.inFlight x = 0 := by
  simp [ready]

@[simp] theorem quarantined_eq_true (d : DependencyTracker) (x : Nat) :
    d.quarantined x = true ↔ x ∈ d.unsafeOrders := by
  simp [quarantined]

theorem see_nodup (h : orders.Nodup) (y : Nat) : (see orders y).Nodup := by
  unfold see
  split
  · exact h
  · rename_i hy
    exact List.nodup_append.mpr ⟨h, List.nodup_singleton y, fun a ha b hb he =>
      hy (List.mem_singleton.mp hb ▸ he ▸ ha)⟩

theorem touch_nodup (h : orders.Nodup) (e : OutboxEvent) :
    (touch orders e).Nodup := by
  unfold touch
  split
  · exact h
  · exact see_nodup (see_nodup h _) _

theorem touchedOrderIDs_nodup (batch : List OutboxEvent) : (touchedOrderIDs batch).Nodup := by
  suffices h : ∀ orders : List Nat, orders.Nodup → (batch.foldl touch orders).Nodup from
    h [] List.nodup_nil
  induction batch with
  | nil => exact fun _ h => h
  | cons e batch ih => exact fun orders h => ih _ (touch_nodup h e)

theorem countUp_apply (f : Nat → Nat) (orders : List Nat) (x : Nat) :
    countUp f orders x = f x + orders.count x := by
  induction orders generalizing f with
  | nil => simp [countUp]
  | cons id orders ih =>
    have h := ih (Function.update f id (f id + 1))
    simp only [countUp, List.foldl_cons] at h ⊢
    rw [h]
    by_cases hx : x = id
    · subst hx; simp; omega
    · simp [Function.update_of_ne hx, List.count_cons_of_ne (Ne.symm hx)]

theorem countDown_apply (f : Nat → Nat) (orders : List Nat) (x : Nat) :
    countDown f orders x = f x - orders.count x := by
  induction orders generalizing f with
  | nil => simp [countDown]
  | cons id orders ih =>
    have h := ih (Function.update f id (f id - 1))
    simp only [countDown, List.foldl_cons] at h ⊢
    rw [h]
    by_cases hx : x = id
    · subst hx; simp; omega
    · simp [Function.update_of_ne hx, List.count_cons_of_ne (Ne.symm hx)]

/-- What the tracker's fields say about each other between two calls. -/
structure Consistent (d : DependencyTracker) : Prop where
  ids_nodup : (d.dispatched.map Prod.fst).Nodup
  orders_nodup : ∀ p ∈ d.dispatched, p.2.Nodup
  jobs_eq : d.jobs = d.dispatched.length
  inFlight_eq : ∀ x, d.inFlight x = d.dispatched.countP (fun p => x ∈ p.2)

theorem new_consistent : new.Consistent := by
  constructor <;> simp [new]

variable {d : DependencyTracker} {jobID : Nat}

/-- No batch in flight: every order is ready. -/
theorem Consistent.ready_of_outstanding_zero (h : d.Consistent)
    (h₀ : d.outstanding = 0) (x : Nat) : d.ready x = true := by
  have hd : d.dispatched = [] := List.length_eq_zero_iff.mp (h.jobs_eq.symm.trans h₀)
  simp [h.inFlight_eq, hd]

/-- A ready order is named by no batch in flight. -/
theorem Consistent.not_mem_of_ready (h : d.Consistent) {x : Nat}
    (hx : d.ready x = true) {p : Nat × List Nat} (hp : p ∈ d.dispatched) : x ∉ p.2 := by
  have h₀ : d.dispatched.countP (fun p => x ∈ p.2) = 0 := by
    rw [← h.inFlight_eq]; exact (ready_eq_true d x).mp hx
  simpa using List.countP_eq_zero.mp h₀ p hp

theorem filter_fresh
    (hid : jobID ∉ d.dispatched.map Prod.fst) :
    d.dispatched.filter (fun p => p.1 != jobID) = d.dispatched := by
  refine List.filter_eq_self.mpr fun p hp => ?_
  simp only [bne_iff_ne, ne_eq]
  exact fun he => hid (he ▸ List.mem_map_of_mem hp)

theorem register_consistent (h : d.Consistent)
    (hid : jobID ∉ d.dispatched.map Prod.fst) (ho : orders.Nodup) :
    (d.register jobID orders).Consistent where
  ids_nodup := by simpa [register, filter_fresh hid] using ⟨by simpa using hid, h.ids_nodup⟩
  orders_nodup := by simpa [register, filter_fresh hid, ho] using h.orders_nodup
  jobs_eq := by simp [register, filter_fresh hid, h.jobs_eq]
  inFlight_eq := fun x => by
    simp only [register, filter_fresh hid, countUp_apply, h.inFlight_eq, List.countP_cons,
      List.Nodup.count ho, decide_eq_true_eq]

theorem retire_eq
    (hl : d.dispatched.lookup jobID = some orders) (undurable : List Nat) :
    d.retire jobID undurable =
      { unsafeOrders := d.unsafeOrders ∪ undurable.toFinset
        dispatched := d.dispatched.filter (fun p => p.1 != jobID)
        jobs := d.jobs - 1
        inFlight := countDown d.inFlight orders } := by
  simp [retire, hl]

theorem retire_consistent (h : d.Consistent) (jobID : Nat)
    (undurable : List Nat) : (d.retire jobID undurable).Consistent := by
  cases hl : d.dispatched.lookup jobID with
  | none => simpa [retire, hl] using h
  | some orders =>
    have hp := Rows.perm_cons_lookup h.ids_nodup hl
    have ho : orders.Nodup := h.orders_nodup _ (hp.symm.subset List.mem_cons_self)
    rw [retire_eq hl]
    refine ⟨?_, ?_, ?_, ?_⟩
    · exact (List.filter_sublist.map Prod.fst).nodup h.ids_nodup
    · exact fun p hp => h.orders_nodup p (List.mem_of_mem_filter hp)
    · simp [h.jobs_eq, hp.length_eq]
    · intro x
      simp only [countDown_apply, h.inFlight_eq, hp.countP_eq, List.countP_cons,
        List.Nodup.count ho, decide_eq_true_eq, Nat.add_sub_cancel]

theorem clearQuarantine_consistent (h : d.Consistent) (x : Nat) :
    (d.clearQuarantine x).Consistent :=
  ⟨h.ids_nodup, h.orders_nodup, h.jobs_eq, h.inFlight_eq⟩

end DependencyTracker

end GoExchange
