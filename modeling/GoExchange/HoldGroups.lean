import Mathlib.Data.List.GetD
import GoExchange.HoldCoordinator

/-!
# Requests that share a key

The owners of a batch have different keys, and a request that is not an owner
is answered after the first request of its batch with the same user and key.
-/
namespace GoExchange.Service

variable {Q : HoldRequest → HoldResult → Prop} {first : List Leader} {seen reqs : List HoldRequest}
  {done results rest : List HoldResult} {req : HoldRequest} {res : HoldResult} {i : Nat}

theorem ownersOf_sublist (groups : List Grouping) (reqs : List HoldRequest) :
    (ownersOf groups reqs).Sublist reqs := by
  fun_induction ownersOf groups reqs with
  | case1 groups req reqs ih => exact ih.cons_cons req
  | case2 group groups req reqs _ ih => exact ih.cons req
  | case3 => exact List.nil_sublist _

theorem ownersOf_nodup (first : List Leader) (i : Nat) (reqs : List HoldRequest) :
    ((ownersOf (groupFrom first i reqs) reqs).filterMap HoldRequest.groupKey).Nodup ∧
    ∀ pair ∈ (ownersOf (groupFrom first i reqs) reqs).filterMap HoldRequest.groupKey,
      pair ∉ first.map Leader.groupKey := by
  fun_induction groupFrom first i reqs with
  | case1 => simp [ownersOf]
  | case2 first i req reqs hidem ih =>
    have hkey : req.groupKey = none := by rw [HoldRequest.groupKey, hidem]; rfl
    rw [ownersOf, List.filterMap_cons_none hkey]
    exact ih
  | case3 first i req reqs idem hidem hnew ih =>
    have hkey : req.groupKey = some ⟨req.order.userID, idem.key⟩ := by
      rw [HoldRequest.groupKey, hidem]; rfl
    rw [ownersOf, List.filterMap_cons_some hkey, List.nodup_cons, List.forall_mem_cons]
    simp only [List.map_append, List.map_cons, List.map_nil, List.mem_append, List.mem_singleton,
      not_or] at ih
    exact ⟨⟨fun h => (ih.2 _ h).2 rfl, ih.1⟩, Rows.find?_eq_none.mp hnew,
      fun pair hpair => (ih.2 pair hpair).1⟩
  | case4 first i req reqs idem hidem leader hleader ih =>
    have hskip : ownersOf ((if leader.fingerprint = idem.fingerprint then .follower leader.index
        else .conflict) ::
        groupFrom first (i + 1) reqs) (req :: reqs) =
          ownersOf (groupFrom first (i + 1) reqs) reqs := by
      split <;> rfl
    rw [hskip]
    exact ih

/-! ## Answers by request -/

/-- The first request before `req` that has its user and key. -/
def leaderOf (before : List HoldRequest) (req : HoldRequest) : Option HoldRequest :=
  req.groupKey.bind fun key => before.find? (·.groupKey = some key)

def HoldRequest.fingerprint (req : HoldRequest) : Option String :=
  req.idem.map IdempotencyContext.fingerprint

/-- How a request is answered after those before it, where `Q` holds of the owners and their
results. -/
inductive Answered (Q : HoldRequest → HoldResult → Prop) (before : List HoldRequest)
    (req : HoldRequest) : HoldResult → Prop where
  | own {res : HoldResult} : leaderOf before req = none → Q req res → Answered Q before req res
  | follower {leader : HoldRequest} {res : HoldResult} : leaderOf before req = some leader →
    leader.fingerprint = req.fingerprint → Q leader res → Answered Q before req res.followed
  | conflict {leader : HoldRequest} : leaderOf before req = some leader →
    leader.fingerprint ≠ req.fingerprint → Answered Q before req conflictResult

/-- The answers of a list of requests, in their order. -/
inductive Answers (Q : HoldRequest → HoldResult → Prop) :
    List HoldRequest → List HoldRequest → List HoldResult → Prop where
  | nil {before : List HoldRequest} : Answers Q before [] []
  | cons {before : List HoldRequest} {req : HoldRequest} {reqs : List HoldRequest}
      {res : HoldResult}
    {rest : List HoldResult} : Answered Q before req res → Answers Q (before ++ [req]) reqs rest →
    Answers Q before (req :: reqs) (res :: rest)

/-- The map `first` against the requests and the results so far. -/
structure Led (Q : HoldRequest → HoldResult → Prop) (first : List Leader) (seen : List HoldRequest)
    (done : List HoldResult) : Prop where
  absent : ∀ key, first.find? (·.groupKey = key) = none → seen.find? (·.groupKey = some key) = none
  present : ∀ key l, first.find? (·.groupKey = key) = some l → ∃ leader,
    seen.find? (·.groupKey = some key) = some leader ∧ leader.fingerprint = some l.fingerprint ∧
    l.index < done.length ∧ Q leader (done.getD l.index {})

/-- A request that does not lead leaves the map as it is. -/
theorem Led.skip (h : Led Q first seen done) (hreq : ∀ key, req.groupKey = some key →
    ∃ l, first.find? (·.groupKey = key) = some l) (res :
    HoldResult) : Led Q first (seen ++ [req]) (done ++ [res]) where
  absent key hnone := by
    have hne : req.groupKey ≠ some key := fun he => by
      obtain ⟨l, hl⟩ := hreq key he
      rw [hl] at hnone
      cases hnone
    rw [List.find?_append, h.absent key hnone]
    simp [hne]
  present key l hl := by
    obtain ⟨leader, hfind, hprint, hindex, hq⟩ := h.present key l hl
    refine ⟨leader, ?_, hprint, ?_, ?_⟩
    · rw [List.find?_append, hfind]
      rfl
    · rw [List.length_append]
      omega
    · rwa [List.getD_append _ _ _ _ hindex]

/-- The first request of its key enters the map. -/
theorem Led.lead (h : Led Q first seen done) {idem : IdempotencyContext}
    (hidem : req.idem = some idem)
    (hnew : first.find? (·.groupKey = ⟨req.order.userID, idem.key⟩) = none) (hq : Q req res) :
    Led Q (first ++ [⟨⟨req.order.userID, idem.key⟩, done.length, idem.fingerprint⟩]) (seen ++ [req])
      (done ++ [res]) where
  absent key hnone := by
    rw [List.find?_append, Option.or_eq_none_iff] at hnone
    have hne : (⟨req.order.userID, idem.key⟩ : UserKeyPair) ≠ key := by simpa using hnone.2
    have hkey : req.groupKey ≠ some key := by simpa [HoldRequest.groupKey, hidem] using hne
    rw [List.find?_append, h.absent key hnone.1]
    simp [hkey]
  present key l hl := by
    rw [List.find?_append] at hl
    cases hf : first.find? (·.groupKey = key) with
    | some l' =>
      rw [hf] at hl
      cases hl
      obtain ⟨leader, hfind, hprint, hindex, hq⟩ := h.present key l hf
      refine ⟨leader, ?_, hprint, ?_, ?_⟩
      · rw [List.find?_append, hfind]
        rfl
      · rw [List.length_append]
        omega
      · rwa [List.getD_append _ _ _ _ hindex]
    | none =>
      rw [hf, Option.none_or] at hl
      obtain ⟨hmem, rfl⟩ := Rows.of_find? hl
      cases List.mem_singleton.mp hmem
      have hkey : req.groupKey = some ⟨req.order.userID, idem.key⟩ := by
        rw [HoldRequest.groupKey, hidem]; rfl
      refine ⟨req, ?_, ?_, ?_, ?_⟩
      · rw [List.find?_append, h.absent _ hnew]
        simp [hkey]
      · rw [HoldRequest.fingerprint, hidem]
        rfl
      · simp
      · simpa [List.getD_eq_getElem?_getD] using hq

/-- What holds of the owners reaches the requests that share their keys. -/
theorem applyFollowerResults_answers (hled : Led Q first seen done)
    (h : List.Forall₂ Q (ownersOf (groupFrom first done.length reqs) reqs) results) :
    ∃ rest, applyFollowerResults done (groupFrom first done.length reqs) results = done ++ rest ∧
      Answers Q seen reqs rest := by
  induction reqs generalizing first seen done results with
  | nil => exact ⟨[], by simp [groupFrom, applyFollowerResults], .nil⟩
  | cons req reqs ih =>
    -- one answer, and the rest by the induction
    have step : ∀ {first' : List Leader} {results' : List HoldResult} {res : HoldResult},
        Led Q first' (seen ++ [req]) (done ++ [res]) → Answered Q seen req res →
        List.Forall₂ Q (ownersOf (groupFrom first' (done.length + 1) reqs) reqs) results' →
        ∃ rest, applyFollowerResults (done ++ [res])
        (groupFrom first' (done.length + 1) reqs) results' =
          done ++ rest ∧ Answers Q seen (req :: reqs) rest := by
      intro first' results' res hled' hanswered hrest
      have hlen : done.length + 1 = (done ++ [res]).length := by simp
      rw [hlen] at hrest ⊢
      obtain ⟨rest, happly, hanswers⟩ := ih hled' hrest
      exact ⟨res :: rest, by rw [happly, List.append_assoc]; rfl, .cons hanswered hanswers⟩
    cases hidem : req.idem with
    | none =>
      have hkey : req.groupKey = none := by rw [HoldRequest.groupKey, hidem]; rfl
      simp only [groupFrom, hidem, ownersOf] at h ⊢
      obtain ⟨res, results, hq, hrest, rfl⟩ := List.forall₂_cons_left_iff.mp h
      exact step (hled.skip (fun key he => by rw [hkey] at he; cases he) res)
        (.own (by rw [leaderOf, hkey]; rfl) hq) hrest
    | some idem =>
      have hkey : req.groupKey = some ⟨req.order.userID, idem.key⟩ := by
        rw [HoldRequest.groupKey, hidem]; rfl
      have hprint : req.fingerprint = some idem.fingerprint := by
        rw [HoldRequest.fingerprint, hidem]; rfl
      have hleader : leaderOf seen req =
          seen.find? (·.groupKey = some ⟨req.order.userID, idem.key⟩) := by
        rw [leaderOf, hkey]
        rfl
      cases hf : first.find? (·.groupKey = ⟨req.order.userID, idem.key⟩) with
      | none =>
        simp only [groupFrom, hidem, hf, ownersOf] at h ⊢
        obtain ⟨res, results, hq, hrest, rfl⟩ := List.forall₂_cons_left_iff.mp h
        exact step (hled.lead hidem hf hq) (.own (hleader.trans (hled.absent _ hf)) hq) hrest
      | some l =>
        obtain ⟨leader, hfind, hsame, -, hq⟩ := hled.present _ l hf
        have hskip : ∀ res, Led Q first (seen ++ [req]) (done ++ [res]) :=
          hled.skip fun key he => by
          rw [hkey] at he
          cases he
          exact ⟨l, hf⟩
        by_cases hl : l.fingerprint = idem.fingerprint
        · simp only [groupFrom, hidem, hf, hl, if_true, ownersOf] at h ⊢
          exact step (hskip _) (.follower (hleader.trans hfind) (by rw [hsame, hprint, hl]) hq) h
        · simp only [groupFrom, hidem, hf, hl, if_false, ownersOf] at h ⊢
          exact step (hskip _) (.conflict (hleader.trans hfind) fun he => by
            rw [hsame, hprint] at he
            exact hl (Option.some.inj he)) h

theorem led_nil (Q : HoldRequest → HoldResult → Prop) : Led Q [] [] [] :=
  ⟨fun _ _ => rfl, fun _ _ h => by cases h⟩

/-- The answers of a batch. -/
theorem answers_of_owners
    (h : List.Forall₂ Q (ownersOf (groupIdempotentRequests reqs) reqs) results) :
    Answers Q [] reqs (applyFollowerResults [] (groupIdempotentRequests reqs) results) := by
  obtain ⟨rest, happly, hanswers⟩ := applyFollowerResults_answers (led_nil Q) h
  rw [List.length_nil, List.nil_append] at happly
  rw [groupIdempotentRequests, happly]
  exact hanswers

theorem Answers.at {before after : List HoldRequest}
    (h : Answers Q seen (before ++ req :: after) rest) :
    ∃ res, rest[before.length]? = some res ∧ Answered Q (seen ++ before) req res := by
  induction before generalizing seen rest with
  | nil =>
    cases h with
    | cons hanswered _ => exact ⟨_, rfl, by rwa [List.append_nil]⟩
  | cons r before ih =>
    cases h with
    | cons _ hrest =>
      obtain ⟨res, hres, hanswered⟩ := ih hrest
      exact ⟨res, hres, by rwa [List.append_assoc] at hanswered⟩

end GoExchange.Service
