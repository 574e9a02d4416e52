import GoExchange.ShardedStream

/-!
# Order-book queries at the router

`RequestOrderBookSnapshot` of `sharded.go` finds the shard to read from with
`shardFor`, which stores a choice for every symbol it has not seen. A query for
a symbol that is already assigned changes nothing. Any other query adds an entry
and moves the counter on that places the next new symbol.
-/
namespace GoExchange.Sharded

open Engine Matching

variable {n : Nat}

/-- The public read of a snapshot. `IsIntakeAdmissible` is not among them: it is the first thing an
order does. -/
def Request.isQuery : Request → Bool
  | .requestOrderBookSnapshot _ => true
  | _ => false

def isOrderCall (call : Call n) : Bool := !call.request.isQuery

/-- The requests that get their shard from `shardFor` in a step. -/
def answered (s : State n) : Label n → List Request
  | .load c =>
    match s.calls[c]? with
    | some ⟨r, .load⟩ => if (s.assignments.lookup r.coinSymbol).isSome then [r] else []
    | _ => []
  | .store c =>
    match s.calls[c]? with
    | some ⟨r, .store _⟩ => [r]
    | _ => []
  | _ => []

/-- The requests routed in a run. -/
def routed (cfg : EngineConfig) : List (Label n) → State n → List Request
  | [], _ => []
  | l :: as, s => answered s l ++ (step cfg l s).elim [] (routed cfg as)

/-- The symbols for which an order or a cancel was routed. -/
def orderSymbols (requests : List Request) : List String :=
  (requests.filter fun r => !r.isQuery).map Request.coinSymbol

/-- A query that looks its symbol up finds it. -/
def knownQuery (s : State n) : Label n → Bool
  | .load c =>
    match s.calls[c]? with
    | some ⟨.requestOrderBookSnapshot coinSymbol, .load⟩ => (s.assignments.lookup coinSymbol).isSome
    | _ => true
  | _ => true

/-! ## A run without its queries -/

/-- The place of a call among those that are not queries. -/
def orderIndex (s : State n) (c : Nat) : Nat := (s.calls.take c).countP isOrderCall

/-- A step of a call, unless the call is a query. -/
def unlessQuery (s : State n) (c : Nat) (l : Label n) : List (Label n) :=
  if (s.calls[c]?).any isOrderCall then [l] else []

def dropQuery (s : State n) : Label n → List (Label n)
  | .call r => if r.isQuery then [] else [.call r]
  | .load c => unlessQuery s c (.load (orderIndex s c))
  | .pick c => unlessQuery s c (.pick (orderIndex s c))
  | .store c => unlessQuery s c (.store (orderIndex s c))
  | .ask c => unlessQuery s c (.ask (orderIndex s c))
  | .giveUp c => unlessQuery s c (.giveUp (orderIndex s c))
  | l => [l]

/-- The steps of a run that are not those of queries. -/
def dropQueries (cfg : EngineConfig) : List (Label n) → State n → List (Label n)
  | [], _ => []
  | l :: as, s => dropQuery s l ++ (step cfg l s).elim [] (dropQueries cfg as)

section Lists

variable {α : Type} {p : α → Bool} {l : List α} {a x : α} {c : Nat}

theorem split_at (h : l[c]? = some a) : ∃ l₁ l₂, l = l₁ ++ a :: l₂ ∧ l₁.length = c := by
  obtain ⟨hc, rfl⟩ := List.getElem?_eq_some_iff.mp h
  exact ⟨l.take c, l.drop (c + 1), by simp, by simp; omega⟩

theorem getElem?_filter (h : l[c]? = some a) (ha : p a = true) :
    (l.filter p)[(l.take c).countP p]? = some a := by
  obtain ⟨l₁, l₂, rfl, rfl⟩ := split_at h
  simp [ha, List.countP_eq_length_filter]

theorem filter_set_pos (h : l[c]? = some a) (ha : p a = true) (hx : p x = true) :
    (l.set c x).filter p = (l.filter p).set ((l.take c).countP p) x := by
  obtain ⟨l₁, l₂, rfl, rfl⟩ := split_at h
  simp [ha, hx, List.countP_eq_length_filter]

theorem filter_set_neg (h : l[c]? = some a) (ha : p a = false) (hx : p x = false) :
    (l.set c x).filter p = l.filter p := by
  obtain ⟨l₁, l₂, rfl, rfl⟩ := split_at h
  simp [ha, hx]

theorem filter_eraseIdx_pos (h : l[c]? = some a) (ha : p a = true) :
    (l.eraseIdx c).filter p = (l.filter p).eraseIdx ((l.take c).countP p) := by
  obtain ⟨l₁, l₂, rfl, rfl⟩ := split_at h
  simp [ha, List.countP_eq_length_filter, List.eraseIdx_append_of_length_le]

theorem filter_eraseIdx_neg (h : l[c]? = some a) (ha : p a = false) :
    (l.eraseIdx c).filter p = l.filter p := by
  obtain ⟨l₁, l₂, rfl, rfl⟩ := split_at h
  simp [ha, List.eraseIdx_append_of_length_le]

end Lists

/-- The same state without the queries under way, and with another history of the calls. -/
def State.twin (s : State n) (asked : List (String × Fin n)) : State n :=
  { s with calls := s.calls.filter isOrderCall, asked := asked }

/-- A query has its shard or has not looked for it yet. -/
def QueriesKnown (s : State n) : Prop :=
  ∀ call ∈ s.calls, call.request.isQuery = true → call.position = .load ∨
    ∃ i, call.position = .ask i

variable {cfg : EngineConfig} {s s' : State n} {l : Label n} {c : Nat} {r : Request}
  {pos pos' : Position n} {symbols : List String}

theorem unlessQuery_of_order (h : s.calls[c]? = some ⟨r, pos⟩) (hr : r.isQuery = false)
    (l : Label n) : unlessQuery s c l = [l] := by
  simp [unlessQuery, h, isOrderCall, hr]

theorem unlessQuery_of_query (h : s.calls[c]? = some ⟨r, pos⟩) (hr : r.isQuery = true)
    (l : Label n) : unlessQuery s c l = [] := by
  simp [unlessQuery, h, isOrderCall, hr]

theorem twin_call (hc : s.calls[c]? = some ⟨r, pos⟩) (hr : r.isQuery = false)
    (asked : List (String × Fin n)) : (s.twin asked).calls[orderIndex s c]? = some ⟨r, pos⟩ :=
  getElem?_filter hc (by simp [isOrderCall, hr])

/-- A call moves on. -/
theorem filter_set_order (hc : s.calls[c]? = some ⟨r, pos⟩) (hr : r.isQuery = false) :
    (s.calls.set c ⟨r, pos'⟩).filter isOrderCall =
      (s.calls.filter isOrderCall).set (orderIndex s c) ⟨r, pos'⟩ :=
  filter_set_pos hc (by simp [isOrderCall, hr]) (by simp [isOrderCall, hr])

theorem filter_eraseIdx_order (hc : s.calls[c]? = some ⟨r, pos⟩) (hr : r.isQuery = false) :
    (s.calls.eraseIdx c).filter isOrderCall =
      (s.calls.filter isOrderCall).eraseIdx (orderIndex s c) :=
  filter_eraseIdx_pos hc (by simp [isOrderCall, hr])

/-- A query moves on, and nothing is seen of it without the queries. -/
theorem filter_set_query (hc : s.calls[c]? = some ⟨r, pos⟩) (hr : r.isQuery = true) :
    (s.calls.set c ⟨r, pos'⟩).filter isOrderCall = s.calls.filter isOrderCall :=
  filter_set_neg hc (by simp [isOrderCall, hr]) (by simp [isOrderCall, hr])

theorem filter_eraseIdx_query (hc : s.calls[c]? = some ⟨r, pos⟩) (hr : r.isQuery = true) :
    (s.calls.eraseIdx c).filter isOrderCall = s.calls.filter isOrderCall :=
  filter_eraseIdx_neg hc (by simp [isOrderCall, hr])

/-! ## One step -/

theorem QueriesKnown.set (h : QueriesKnown s)
    (hpos : r.isQuery = true → pos' = .load ∨ ∃ i, pos' = .ask i) :
    ∀ call ∈ s.calls.set c ⟨r, pos'⟩, call.request.isQuery = true → call.position = .load ∨
    ∃ i, call.position = .ask i := by
  intro call hcall
  rcases mem_set_calls hcall with hcall | rfl
  · exact h call hcall
  · exact hpos

theorem QueriesKnown.step (h : QueriesKnown s) (hok : knownQuery s l = true)
    (hs : Routing cfg s l s') : QueriesKnown s' := by
  cases hs with
  | call r =>
    exact Rows.forall_mem_concat h fun _ => .inl rfl
  | known | late | assigned => exact h.set fun _ => .inr ⟨_, rfl⟩
  | @unknown c r hc hnone =>
    refine h.set fun hr => ?_
    -- a query would have found its symbol
    cases r <;> cases hr
    simp only [knownQuery, hc] at hok
    simp only [Request.coinSymbol] at hnone
    rw [hnone] at hok
    cases hok
  | picked hc =>
    refine h.set fun hr => ?_
    rcases h _ (List.mem_of_getElem? hc) hr with hpos | ⟨_, hpos⟩ <;> cases hpos
  | panicked | sent | read | gaveUp => exact fun call hcall => h call (mem_of_eraseIdx s _ hcall)
  | shard | consume | close => exact h

/-- Without its queries the system makes the same step, or none if the step is a query's. -/
theorem twin_step (hq : QueriesKnown s) (hs : Routing cfg s l s') (asked : List (String × Fin n)) :
    ∃ asked', Lts.exec (step cfg) (dropQuery s l) (s.twin asked) = some (s'.twin asked') := by
  -- a query is not on its way to a new entry
  have hlooking : ∀ {c : Nat} {r : Request} {pos : Position n}, s.calls[c]? = some ⟨r, pos⟩ →
      (pos = .pick ∨ ∃ i, pos = .store i) → r.isQuery = false := by
    intro c r pos hc hpos
    by_contra hr
    rcases hq _ (List.mem_of_getElem? hc) (by simpa using hr) with h | ⟨_, h⟩ <;>
      rcases hpos with hpos | ⟨_, hpos⟩ <;> rw [hpos] at h <;> cases h
  have hone : ∀ l', Lts.exec (step cfg) [l'] (s.twin asked) = step cfg l' (s.twin asked) := by
    intro l'
    simp [Lts.exec]
  cases hs with
  | call r =>
    refine ⟨asked, ?_⟩
    cases hr : r.isQuery <;> simp [dropQuery, hr, Lts.exec, step, State.twin, isOrderCall]
  | @known c r i hc hi =>
    cases hr : r.isQuery with
    | true =>
      refine ⟨asked, ?_⟩
      rw [dropQuery, unlessQuery_of_query hc hr]
      simp only [Lts.exec, State.twin, State.route, filter_set_query hc hr]
    | false =>
      refine ⟨asked ++ [(r.coinSymbol, i)], ?_⟩
      rw [dropQuery, unlessQuery_of_order hc hr, hone]
      simp only [step, twin_call hc hr]
      simp only [State.twin, hi, State.route, filter_set_order hc hr]
  | @unknown c r hc hnone =>
    refine ⟨asked, ?_⟩
    cases hr : r.isQuery with
    | true =>
      rw [dropQuery, unlessQuery_of_query hc hr]
      simp only [Lts.exec, State.twin, filter_set_query hc hr]
    | false =>
      rw [dropQuery, unlessQuery_of_order hc hr, hone]
      simp only [step, twin_call hc hr]
      simp only [State.twin, hnone, filter_set_order hc hr]
  | picked hc hi =>
    have hr := hlooking hc (.inl rfl)
    refine ⟨asked, ?_⟩
    rw [dropQuery, unlessQuery_of_order hc hr, hone]
    simp only [step, twin_call hc hr]
    simp only [State.twin, hi, filter_set_order hc hr]
  | panicked hc hi =>
    have hr := hlooking hc (.inl rfl)
    refine ⟨asked, ?_⟩
    rw [dropQuery, unlessQuery_of_order hc hr, hone]
    simp only [step, twin_call hc hr]
    simp only [State.twin, hi, filter_eraseIdx_order hc hr]
  | @late c r mine i hc hi =>
    have hr := hlooking hc (.inr ⟨mine, rfl⟩)
    refine ⟨asked ++ [(r.coinSymbol, i)], ?_⟩
    rw [dropQuery, unlessQuery_of_order hc hr, hone]
    simp only [step, twin_call hc hr]
    simp only [State.twin, hi, State.route, filter_set_order hc hr]
  | @assigned c r i hc hnone =>
    have hr := hlooking hc (.inr ⟨i, rfl⟩)
    refine ⟨asked ++ [(r.coinSymbol, i)], ?_⟩
    rw [dropQuery, unlessQuery_of_order hc hr, hone]
    simp only [step, twin_call hc hr]
    simp only [State.twin, hnone, State.route, filter_set_order hc hr]
  | @sent c r t i l hc hl ht =>
    have hr : r.isQuery = false := by cases r <;> first | rfl | cases hl
    refine ⟨asked, ?_⟩
    rw [dropQuery, unlessQuery_of_order hc hr, hone]
    simp only [step, twin_call hc hr, hl, shardStep]
    have ht' : Shard.step cfg (.engine l)
        (State.shard { s.twin asked with calls := (s.twin asked).calls.eraseIdx (orderIndex s c) }
          i) = some t := ht
    rw [ht']
    simp only [Option.map_some, State.twin, State.put, filter_eraseIdx_order hc hr]
  | @read c r i hc hl =>
    refine ⟨asked, ?_⟩
    cases hr : r.isQuery with
    | true =>
      rw [dropQuery, unlessQuery_of_query hc hr]
      simp only [Lts.exec, State.twin, filter_eraseIdx_query hc hr]
    | false =>
      rw [dropQuery, unlessQuery_of_order hc hr, hone]
      simp only [step, twin_call hc hr, hl]
      simp only [State.twin, filter_eraseIdx_order hc hr]
  | @gaveUp c r i hc ht =>
    have hr : r.isQuery = false := by cases r <;> first | rfl | cases ht
    refine ⟨asked, ?_⟩
    rw [dropQuery, unlessQuery_of_order hc hr, hone]
    simp only [step, twin_call hc hr, ht, if_true]
    simp only [State.twin, filter_eraseIdx_order hc hr]
  | @shard t i l hown ht =>
    refine ⟨asked, (hone (.shard i l)).trans ?_⟩
    have ht' : Shard.step cfg l ((s.twin asked).shard i) = some t := ht
    simp only [step, hown, if_true, shardStep, ht', Option.map_some]
    rfl
  | @consume e rest hch =>
    refine ⟨asked, (hone .consume).trans ?_⟩
    have hch' : (s.twin asked).merged = e :: rest := hch
    simp only [step, hch']
    rfl
  | close hall =>
    exact ⟨asked, (hone .close).trans (if_pos hall)⟩

/-! ## The table -/

/-- The table has an entry for the empty symbol and for symbols of the list, one for each. -/
structure Assigned (s : State n) (symbols : List String) : Prop where
  nodup : (s.assignments.map Prod.fst).Nodup
  from_orders : ∀ x ∈ s.assignments.map Prod.fst, x = "" ∨ x ∈ symbols

theorem Assigned.length_le (h : Assigned s symbols) :
    s.assignments.length ≤ 1 + symbols.dedup.length := by
  have hsub : s.assignments.map Prod.fst ⊆ "" :: symbols.dedup := by
    intro x hx
    rcases h.from_orders x hx with rfl | hx
    · exact List.mem_cons_self
    · exact List.mem_cons_of_mem _ (List.mem_dedup.mpr hx)
  have hle := (h.nodup.subperm hsub).length_le
  rw [List.length_map, List.length_cons] at hle
  omega

theorem Assigned.mono {more : List String} (h : Assigned s symbols)
    (hs : s'.assignments = s.assignments) : Assigned s' (symbols ++ more) where
  nodup := by rw [hs]; exact h.nodup
  from_orders x hx := by
    rw [hs] at hx
    exact (h.from_orders x hx).imp_right (List.mem_append_left _)

/-- Only an order's or a cancel's request makes an entry. -/
theorem Assigned.step (h : Assigned s symbols) (hq : QueriesKnown s)
    (hs : Routing cfg s l s') : Assigned s' (symbols ++ orderSymbols (answered s l)) := by
  cases hs with
  | @assigned c r i hc hnone =>
    have hr : r.isQuery = false := by
      by_contra hr
      rcases hq _ (List.mem_of_getElem? hc) (by simpa using hr) with hpos | ⟨_, hpos⟩ <;> cases hpos
    have hsymbols : orderSymbols (answered s (.store c)) = [r.coinSymbol] := by
      simp [answered, hc, orderSymbols, hr]
    rw [hsymbols]
    constructor
    · simp only [State.route, List.map_cons, List.nodup_cons]
      refine ⟨fun hmem => ?_, h.nodup⟩
      obtain ⟨p, hp, hpx⟩ := List.mem_map.mp hmem
      have hother := List.lookup_eq_none_iff.mp hnone p hp
      simp [hpx] at hother
    · intro x hx
      rcases List.mem_cons.mp hx with rfl | hx
      · exact .inr (by simp)
      · exact (h.from_orders x hx).imp_right (List.mem_append_left _)
  | call | known | unknown | picked | panicked | late | sent | read | gaveUp | shard | consume
  | close => exact h.mono rfl

/-! ## Runs -/

theorem runs_without_queries (as : List (Label n)) (hq : QueriesKnown s)
    (hassigned : Assigned s symbols) (asked : List (String × Fin n)) {t : State n}
    (h : Lts.exec (Lts.guarded (step cfg) fun s l => knownQuery s l = true) as s = some t) :
    Assigned t (symbols ++ orderSymbols (routed cfg as s)) ∧
      ∃ asked', Lts.exec (step cfg) (dropQueries cfg as s) (s.twin asked) =
        some (t.twin asked') := by
  induction as generalizing s symbols asked with
  | nil =>
    cases h
    exact ⟨by simpa [routed, orderSymbols] using hassigned, asked, rfl⟩
  | cons l as ih =>
    obtain ⟨s', hs, h⟩ := Option.bind_eq_some_iff.mp h
    obtain ⟨hok, hs⟩ := Option.ite_none_right_eq_some.mp hs
    have hrouting := routing_of_step hs
    obtain ⟨asked', hfirst⟩ := twin_step hq hrouting asked
    obtain ⟨hall, asked'', hrest⟩ := ih (hq.step hok hrouting) (hassigned.step hq hrouting) asked' h
    constructor
    · have hsymbols : orderSymbols (routed cfg (l :: as) s) =
          orderSymbols (answered s l) ++ orderSymbols (routed cfg as s') := by
        simp [routed, hs, orderSymbols]
      rw [hsymbols, ← List.append_assoc]
      exact hall
    · refine ⟨asked'', ?_⟩
      rw [dropQueries, hs, Option.elim_some, Lts.exec_append, hfirst]
      exact hrest

/-- As long as every query finds its symbol assigned, the table has at most one entry more than
there are symbols for which an order or a cancel was routed, and the run without its queries assigns
the same symbols to the same shards, and leaves the counter for the next one and the engines as they
are. -/
theorem queries_assign_nothing (cfg : EngineConfig) (n : Nat) [NeZero n] (engineIDs : Fin n → Nat)
    (as : List (Label n)) (t : State n)
    (h : Lts.exec (Lts.guarded (step cfg) fun s l => knownQuery s l = true) as (init n engineIDs) =
      some t) :
    t.assignments.length ≤ 1 + (orderSymbols (routed cfg as (init n engineIDs))).dedup.length ∧
      ∃ u, Lts.exec (step cfg) (dropQueries cfg as (init n engineIDs)) (init n engineIDs) = some u ∧
        u.assignments = t.assignments ∧ u.nextShard = t.nextShard ∧ u.engines = t.engines := by
  have hassigned : Assigned (init n engineIDs) [] := ⟨by simp [init], by simp [init]⟩
  have hq : QueriesKnown (init n engineIDs) := by
    intro call hcall
    simp [init] at hcall
  obtain ⟨hall, asked, hrun⟩ := runs_without_queries as hq hassigned [] h
  exact ⟨by simpa using hall.length_le, t.twin asked, hrun, rfl, rfl, rfl⟩

/-- An order for a symbol, then a query for it. -/
def orderThenQuery : List (Label 2) :=
  [.call (.submitOrder lonelyOrder), .load 0, .pick 0, .store 0,
    .call (.requestOrderBookSnapshot "BTC"), .load 1, .ask 1]

theorem queries_assign_nothing_known :
    ∃ t, Lts.exec (Lts.guarded (step smallestConfig) fun s l => knownQuery s l = true)
      orderThenQuery
        (init 2 fun i => i) = some t ∧ t.assignments = [("BTC", 0), ("", 0)] ∧
      ∃ u, Lts.exec (step smallestConfig)
        (dropQueries smallestConfig orderThenQuery (init 2 fun i => i))
        (init 2 fun i => i) = some u ∧ u.assignments = t.assignments := by
  have hrun : (Lts.exec (Lts.guarded (step smallestConfig) fun s l => knownQuery s l = true)
      orderThenQuery (init 2 fun i => i)).map State.assignments = some [("BTC", 0), ("", 0)] := by
    decide +kernel
  obtain ⟨t, ht, hassigned⟩ := Option.map_eq_some_iff.mp hrun
  obtain ⟨-, u, hu, hsame, -⟩ :=
    queries_assign_nothing smallestConfig 2 (fun i => i) orderThenQuery t ht
  exact ⟨t, ht, hassigned, u, hu, hsame⟩

/-- A query for a new symbol, then an order for another one. -/
def queryThenOrder : List (Label 2) :=
  [.call (.requestOrderBookSnapshot "ETH"), .load 0, .pick 0, .store 0, .ask 0,
    .call (.submitOrder lonelyOrder), .load 0, .pick 0, .store 0]

/-- The query makes an entry, and the order's symbol goes to the second shard and not to the first.
-/
theorem query_moves_assignment :
    (Lts.exec (step smallestConfig) queryThenOrder (init 2 fun i => i)).map (fun s =>
        (s.assignments, orderSymbols (routed smallestConfig queryThenOrder (init 2 fun i => i)))) =
      some ([("BTC", 1), ("ETH", 0), ("", 0)], ["BTC"]) ∧
    (Lts.exec (step smallestConfig) (dropQueries smallestConfig queryThenOrder (init 2 fun i => i))
        (init 2 fun i => i)).map State.assignments = some [("BTC", 0), ("", 0)] := by
  decide +kernel

end GoExchange.Sharded
