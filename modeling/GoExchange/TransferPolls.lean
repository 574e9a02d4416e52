import GoExchange.TransferChange
import GoExchange.TransferRun

/-!
# Keys of polls

A poll stores its result under a key with the attempt it read plus one. While
a request is out, `check_attempts` only grows, and it grows with every stored
result of a poll. So no stored key is ahead of the column, and a poll that read
the current value stores its result under a new key.
-/
namespace GoExchange.TransferRun

open Service Ledger Rows Fallible

variable {b b' : Bank} {s s' : State} {w w' : TransferRequest} {id id' m m' : Nat}
  {ks : List String} {events : List TransferStatusEvent} {overdue : Bool}

/-! ## The keys -/

theorem colon_notMem (n : Nat) : ':' ∉ (toString n).toList := by
  rw [Nat.toString_eq_ofList_toDigits, String.toList_ofList]
  intro h
  exact absurd (Nat.isDigit_of_mem_toDigits (by decide) (by decide) h) (by decide)

/-- What stands before the first colon. -/
theorem split_at_colon {xs ys xs' ys' : List Char} (h : ':' ∉ xs) (h' : ':' ∉ xs')
    (he : xs ++ ':' :: ys = xs' ++ ':' :: ys') : xs = xs' ∧ ys = ys' := by
  induction xs generalizing xs' with
  | nil =>
    cases xs' with
    | nil => exact ⟨rfl, (List.cons.inj he).2⟩
    | cons c xs' => exact absurd (by rw [(List.cons.inj he).1]; simp) h'
  | cons c xs ih =>
    cases xs' with
    | nil => exact absurd (by rw [(List.cons.inj he).1]; simp) h
    | cons c' xs' =>
      obtain ⟨rfl, hrest⟩ := List.cons.inj he
      obtain ⟨rfl, rfl⟩ :=
        ih (fun hm => h (List.mem_cons_of_mem _ hm))
          (fun hm => h' (List.mem_cons_of_mem _ hm)) hrest
      exact ⟨rfl, rfl⟩

theorem pollKey_toList (id m : Nat) :
    (pollKey id m).toList = "poll".toList ++ ':' ::
      ((toString id).toList ++ ':' :: (toString m).toList) := by
  have htext : pollKey id m = "poll:" ++ toString id ++ ":" ++ toString m := rfl
  rw [htext, String.toList_append, String.toList_append, String.toList_append, List.append_assoc,
    List.append_assoc]
  rfl

theorem pollKey_inj (h : pollKey id m = pollKey id' m') : id = id' ∧ m = m' := by
  have hlist := congrArg String.toList h
  rw [pollKey_toList, pollKey_toList] at hlist
  obtain ⟨-, hlist⟩ := split_at_colon (by decide) (by decide) hlist
  obtain ⟨hid, hm⟩ := split_at_colon (colon_notMem id) (colon_notMem id') hlist
  exact ⟨natText_inj.mp (String.toList_inj.mp hid), natText_inj.mp (String.toList_inj.mp hm)⟩

theorem pollKey_ne_callbackKey (rail : TransferRail) (eventID : String) :
    pollKey id m ≠ callbackKey rail eventID := by
  intro h
  have hlist := congrArg (fun key => key.toList.head?) h
  simp [pollKey_toList, callbackKey, String.toList_append] at hlist

theorem pollKey_ne_empty : pollKey id m ≠ "" := by
  intro h
  have hlist := congrArg String.toList h
  simp [pollKey_toList] at hlist

/-! ## What an operation does to the tables of requests and events -/

/-- The requests move on, new ones have new ids, and the events of some keys are added. -/
structure Shifted (b b' : Bank) (ks : List String) : Prop where
  numbered : Numbered b'
  keys : b'.transferEvents.map TransferStatusEvent.eventKey =
    b.transferEvents.map TransferStatusEvent.eventKey ++ ks
  seq : b.transferSeq ≤ b'.transferSeq
  rows : ∀ w' ∈ b'.transfers, (∃ w ∈ b.transfers, w.id = w'.id ∧ StatusMove w.status w'.status) ∨
    b.transferSeq < w'.id ∧ w'.status = .received

theorem Shifted.refl (h : Numbered b) : Shifted b b [] :=
  ⟨h, (List.append_nil _).symm, Nat.le_refl _, fun w hw => .inl ⟨w, hw, rfl, .same _⟩⟩

/-- A step leaves a request as it is, moves it on or stores it. -/
theorem Change.shifted (h : Numbered b) (hc : Change b b' ks) : Shifted b b' ks := by
  cases hc with
  | idle hkeys hb =>
    subst hb
    exact ⟨⟨h.ids, fun w hw => (h.seq w hw).trans (Nat.le_add_right _ _)⟩, hkeys,
      Nat.le_add_right _ _, fun w hw => .inl ⟨w, hw, rfl, .same _⟩⟩
  | filed hid hst href hpaid hks hb =>
    subst hb hks
    rename_i w t
    refine ⟨⟨?_, ?_⟩, Noted.none b, Nat.le_add_right _ _, ?_⟩
    · rw [List.map_append, List.nodup_append]
      refine ⟨h.ids, List.nodup_singleton _, ?_⟩
      intro x hx y hy he
      obtain ⟨r, hr, rfl⟩ := List.mem_map.mp hx
      have hle := h.seq r hr
      have hnew : y = w.id := List.mem_singleton.mp hy
      omega
    · exact forall_mem_concat (fun r hr => (h.seq r hr).trans (Nat.le_add_right _ _)) hid.le
    · refine forall_mem_concat (fun r hr => .inl ⟨r, hr, rfl, .same _⟩) ?_
      exact .inr ⟨by omega, hst⟩
  | row hw hmade hprogress hpaid hkeys hb =>
    subst hb
    rename_i w g t es events
    have hsame : ∀ r, (g r).id = r.id := fun r => id_of_made (hmade r)
    have hids : (modify TransferRequest.id w.id g b.transfers).map TransferRequest.id =
        b.transfers.map TransferRequest.id := map_modify TransferRequest.id fun r _ _ => hsame r
    refine ⟨⟨hids ▸ h.ids, ?_⟩, hkeys, Nat.le_refl _, ?_⟩
    · intro r hr
      have hmem : r.id ∈ b.transfers.map TransferRequest.id := hids ▸ List.mem_map_of_mem hr
      obtain ⟨x, hx, hid⟩ := List.mem_map.mp hmem
      exact hid ▸ h.seq x hx
    · intro w' hw'
      left
      rcases mem_modify_row h.ids hw hw' with rfl | ⟨hx, -⟩
      · exact ⟨w, hw, (hsame w).symm, hprogress.move⟩
      · exact ⟨w', hx, rfl, .same _⟩

/-! ## No key is ahead -/

/-- The attempt of a request that has been out is not ahead of its column while it is out. -/
def Behind (s : State) (id attempt : Nat) : Prop :=
  id ≤ s.bank.transferSeq ∧ ∀ w ∈ s.bank.transfers, w.id = id →
    w.status ≠ .received ∧ (w.status = .processing → attempt ≤ s.checkAttempts id)

structure Inv (s : State) : Prop where
  numbered : Numbered s.bank
  positive : ∀ w ∈ s.bank.transfers, 0 < w.id
  polls : ∀ p ∈ s.polls, Behind s p.requestID p.checkAttempts
  keys : ∀ id m, pollKey id m ∈ s.bank.transferEvents.map TransferStatusEvent.eventKey →
    Behind s id m

/-- The column does not fall for a request that stays out. -/
def Rising (s s' : State) : Prop :=
  ∀ w ∈ s.bank.transfers, w.status = .processing → s.checkAttempts w.id ≤ s'.checkAttempts w.id

theorem Rising.of_eq (h : s'.checkAttempts = s.checkAttempts) : Rising s s' :=
  fun w _ _ => by rw [h]

theorem Behind.step (h : Behind s id m) (hshift : Shifted s.bank s'.bank ks) (hrise : Rising s s') :
    Behind s' id m := by
  refine ⟨h.1.trans hshift.seq, ?_⟩
  intro w' hw' hid
  rcases hshift.rows w' hw' with ⟨w, hw, he, hmove⟩ | ⟨hnew, -⟩
  · obtain ⟨hout, hle⟩ := h.2 w hw (he.trans hid)
    have hrow := hrise w hw
    rw [he, hid] at hrow
    generalize w.status = st at hmove hout hle hrow
    generalize w'.status = st' at hmove ⊢
    cases hmove with
    | same => exact ⟨hout, fun hst => (hle hst).trans (hrow hst)⟩
    | dispatched => exact absurd rfl hout
    | resolved hterminal =>
      constructor
      · rintro rfl
        cases hterminal
      · rintro rfl
        cases hterminal
  · have hle := h.1
    omega

theorem Inv.step (h : Inv s) (hshift : Shifted s.bank s'.bank ks) (hrise : Rising s s')
    (hpolls : ∀ p ∈ s'.polls, p ∈ s.polls ∨ Behind s' p.requestID p.checkAttempts)
    (hks : ∀ id m, pollKey id m ∈ ks → Behind s' id m) : Inv s' where
  numbered := hshift.numbered
  positive := by
    intro w' hw'
    rcases hshift.rows w' hw' with ⟨w, hw, hid, -⟩ | ⟨hnew, -⟩
    · exact hid ▸ h.positive w hw
    · exact Nat.zero_lt_of_lt hnew
  polls := by
    intro p hp
    rcases hpolls p hp with hold | hnew
    · exact (h.polls p hold).step hshift hrise
    · exact hnew
  keys := by
    intro id m hmem
    rw [hshift.keys, List.mem_append] at hmem
    rcases hmem with hold | hnew
    · exact (h.keys id m hold).step hshift hrise
    · exact hks id m hnew

/-- A step that adds no key and starts no poll. -/
theorem Inv.quiet (h : Inv s) (hshift : Shifted s.bank s'.bank []) (hrise : Rising s s')
    (hpolls : s'.polls ⊆ s.polls) : Inv s' :=
  h.step hshift hrise (fun _ hp => .inl (hpolls hp)) (fun _ _ hk => absurd hk (by simp))

/-! ## The operations -/

/-- The state with these events. -/
def State.withEvents (s : State) (events : List TransferStatusEvent) : State :=
  { s with bank := { s.bank with transferEvents := events } }

theorem advancePollSchedule_spec (hw : w ∈ s.bank.transfers)
    (hkeys : Noted s.bank events ks) (kind : PollFailureKind) (overdue : Bool) :
    Change s.bank (advancePollSchedule (s.withEvents events) w kind overdue).bank ks ∧
      (advancePollSchedule (s.withEvents events) w kind overdue).bank.ledger = s.bank.ledger ∧
      (advancePollSchedule (s.withEvents events) w kind overdue).checkAttempts =
        Function.update s.checkAttempts w.id (s.checkAttempts w.id + 1) ∧
      (advancePollSchedule (s.withEvents events) w kind overdue).polls = s.polls := by
  unfold advancePollSchedule
  cases reviewReasonForPollFailure kind overdue with
  | none => exact ⟨.idle (n := 0) hkeys rfl, rfl, rfl, rfl⟩
  | some reason => exact ⟨setReviewRequired_change hw hkeys reason, rfl, rfl, rfl⟩

theorem rising_update {n : Nat}
    (h : ∀ w ∈ s.bank.transfers, w.status = .processing → w.id = id → s.checkAttempts id ≤ n)
    (heq : s'.checkAttempts = Function.update s.checkAttempts id n) : Rising s s' := by
  intro w hw hst
  rw [heq]
  by_cases hid : w.id = id
  · rw [hid, Function.update_self]
    exact h w hw hst hid
  · rw [Function.update_of_ne hid]

theorem Inv.advanced (h : Inv s) (hw : w ∈ s.bank.transfers) (kind : PollFailureKind)
    (overdue : Bool) : Inv (advancePollSchedule s w kind overdue) := by
  obtain ⟨hchange, -, hattempts, hpolls⟩ := advancePollSchedule_spec hw (.none s.bank) kind overdue
  apply h.quiet (hchange.shifted h.numbered)
  · exact rising_update (fun _ _ _ _ => Nat.le_succ _) hattempts
  · rw [hpolls]
    exact fun _ hp => hp

theorem Inv.statusCheckFailure (h : Inv s) (hr : handleStatusCheckFailure s id overdue = .ok s') :
    Inv s' := by
  obtain ⟨w, hw, hrest⟩ := bind_eq_ok.mp hr
  split at hrest
  · cases hrest
    exact h
  · cases hrest
    exact h.advanced (lockByID_ok hw).1 _ _

theorem Inv.dispatchFailure (h : Inv s) (hr : handleDispatchFailure s id = .ok s') : Inv s' := by
  obtain ⟨w, hw, hrest⟩ := bind_eq_ok.mp hr
  split at hrest
  · cases hrest
    exact h
  · cases hrest
    exact h.quiet (.refl h.numbered) (rising_update (fun _ _ _ _ => Nat.le_succ _) rfl)
      fun _ hp => hp

/-- The column starts again at 0 for a request that was not out. -/
theorem Inv.setDispatched (h : Inv s) {ref : String} (hr : setDispatched s id ref = .ok s') :
    Inv s' := by
  obtain ⟨w, hw, hrest⟩ := bind_eq_ok.mp hr
  obtain ⟨hmem, hid⟩ := lockByID_ok hw
  obtain ⟨hst, hrest⟩ := guard_eq_ok.mp hrest
  have hst : w.status = .received := not_not.mp hst
  obtain ⟨bank, hd, hend⟩ := bind_eq_ok.mp hrest
  cases hend
  apply h.quiet ((dispatch_change hd).shifted h.numbered)
  · refine rising_update (n := 0) ?_ rfl
    intro r hr hout hrid
    rw [List.inj_on_of_nodup_map h.numbered.ids hr hmem (hrid.trans hid.symm), hst] at hout
    cases hout
  · exact fun _ hp => hp

/-- A final answer; under the key of a poll it must come from one. -/
theorem Inv.resolve (h : Inv s) {input : ResolveInput}
    (hkey : ∀ id m, pollKey id m = input.eventKey → id = input.transferRequestID ∧
      Behind s id (m - 1))
    (hr : s.resolve input = .ok s') : Inv s' := by
  obtain ⟨bank, hb, hend⟩ := bind_eq_ok.mp hr
  cases hend
  rcases resolveTransfer_change h.numbered hb with rfl | ⟨hchange, hdone, -⟩
  · exact h
  · have hshift := hchange.shifted h.numbered
    have hrise : Rising s { s with bank := bank } := .of_eq rfl
    refine h.step hshift hrise (fun _ hp => .inl hp) ?_
    intro id m hm
    obtain ⟨hid, hbehind⟩ := hkey id m (List.mem_singleton.mp hm)
    have hbehind' : Behind { s with bank := bank } id (m - 1) := hbehind.step hshift hrise
    refine ⟨hbehind'.1, ?_⟩
    intro w hw hwid
    exact ⟨(hbehind'.2 w hw hwid).1, fun hst => absurd hst (hdone w hw (hwid.trans hid))⟩

/-- A request that is resolved stays so, and any key may be stored for it. -/
theorem Inv.notedAfter (h : Inv s) (hmem : w ∈ s.bank.transfers) (hst : w.status.isTerminal = true)
    (hkeys : Noted s.bank events [pollKey w.id m]) : Inv (s.withEvents events) := by
  have hchange : Change s.bank (s.withEvents events).bank [pollKey w.id m] :=
    .idle (n := 0) hkeys rfl
  refine h.step (hchange.shifted h.numbered) (.of_eq rfl) (fun _ hp => .inl hp) ?_
  intro id' m' hm
  obtain ⟨rfl, rfl⟩ := pollKey_inj (List.mem_singleton.mp hm)
  refine ⟨h.numbered.seq w hmem, ?_⟩
  intro w' hw' hid
  rw [List.inj_on_of_nodup_map h.numbered.ids hw' hmem hid]
  constructor
  · intro he
    rw [he] at hst
    cases hst
  · intro he
    rw [he] at hst
    cases hst

/-- An observation of a poll that is not ahead. -/
theorem Inv.observation (h : Inv s) {outcome : TransferOutcome} (hbehind : Behind s id m)
    (hr : recordObservation s id (pollKey id (m + 1)) outcome overdue = .ok s') : Inv s' := by
  obtain ⟨-, hr⟩ := guard_eq_ok.mp hr
  obtain ⟨-, hr⟩ := guard_eq_ok.mp hr
  obtain ⟨w, hw, hrest⟩ := bind_eq_ok.mp hr
  obtain ⟨hmem, rfl⟩ := lockByID_ok hw
  split at hrest
  · cases hrest
    exact h
  have hkeys : Noted s.bank (s.bank.transferEvents ++ [⟨w.id, pollKey w.id (m + 1), outcome⟩])
      [pollKey w.id (m + 1)] := .one s.bank _
  cases hst : w.status with
  | received => exact absurd hst (hbehind.2 w hmem rfl).1
  | processing =>
    simp only [hst] at hrest
    cases hrest
    obtain ⟨hchange, -, hattempts, hpolls⟩ := advancePollSchedule_spec hmem hkeys
      (if outcome = .unknown then .unknown else .pending) overdue
    have hshift := hchange.shifted h.numbered
    have hrise := rising_update (fun _ _ _ _ => Nat.le_succ _) hattempts
    refine h.step hshift hrise (fun p hp => .inl (hpolls ▸ hp)) ?_
    intro id' m' hm
    obtain ⟨rfl, rfl⟩ := pollKey_inj (List.mem_singleton.mp hm)
    have hbehind' := hbehind.step hshift hrise
    refine ⟨hbehind'.1, ?_⟩
    intro w' hw' hwid
    refine ⟨(hbehind'.2 w' hw' hwid).1, ?_⟩
    -- the column has grown as well
    intro _
    have hle := (hbehind.2 w hmem rfl).2 hst
    have hnow := congrFun hattempts w.id
    rw [Function.update_self] at hnow
    exact (Nat.succ_le_succ hle).trans hnow.ge
  | completed =>
    simp only [hst] at hrest
    cases hrest
    exact h.notedAfter hmem (by rw [hst]; rfl) hkeys
  | failed =>
    simp only [hst] at hrest
    cases hrest
    exact h.notedAfter hmem (by rw [hst]; rfl) hkeys

/-! ## Whole runs -/

theorem Inv.onBank (h : Inv s) {f : Bank → Except DomainError Bank}
    (hf : ∀ b', f s.bank = .ok b' → Change s.bank b' []) : Inv (s.onBank f) := by
  refine transact_of h fun b' hb => ?_
  have hrise : Rising s { s with bank := b' } := .of_eq rfl
  exact h.quiet ((hf b' hb).shifted h.numbered) hrise fun _ hp => hp

theorem Inv.checkStatus (h : Inv s) {poll : Poll} {answer : StatusAnswer}
    (hbehind : Behind s poll.requestID poll.checkAttempts)
    (hr : checkStatus s poll answer overdue = .ok s') : Inv s' := by
  cases answer with
  | unreachable => exact h.statusCheckFailure hr
  | answered outcome reason =>
    unfold TransferRun.checkStatus at hr
    simp only at hr
    split at hr
    · refine h.resolve ?_ hr
      intro id m hkey
      obtain ⟨rfl, rfl⟩ := pollKey_inj hkey
      exact ⟨rfl, hbehind⟩
    · exact h.observation hbehind hr

theorem step_inv {l : Label} (h : Inv s) (hs : step l s = some s') : Inv s' := by
  cases l with
  | deposit input =>
    cases hs
    exact h.onBank fun b' hb => requestDeposit_change hb
  | withdraw input =>
    cases hs
    exact h.onBank fun b' hb => requestWithdrawal_change h.numbered hb
  | dispatch id submitted =>
    cases hs
    refine transact_of h fun s' hr => ?_
    cases submitted with
    | none => exact h.dispatchFailure hr
    | some ref => exact h.setDispatched hr
  | callback ref eventID outcome reason =>
    cases hs
    refine transact_of h fun s' hr => ?_
    obtain ⟨-, hr⟩ := guard_eq_ok.mp hr
    split at hr
    · cases hr
    · exact h.resolve (fun _ _ hkey => absurd hkey (pollKey_ne_callbackKey _ _)) hr
  | read id =>
    obtain ⟨⟨w, hw, hid, hst⟩, rfl⟩ := Lts.of_enabled hs
    refine h.step (.refl h.numbered) (.of_eq rfl) ?_ (by simp)
    intro p hp
    rcases List.mem_append.mp hp with hp | hp
    · exact .inl hp
    · right
      cases List.mem_singleton.mp hp
      refine ⟨hid ▸ h.numbered.seq w hw, ?_⟩
      intro w' hw' hid'
      rw [List.inj_on_of_nodup_map h.numbered.ids hw' hw (hid'.trans hid.symm)]
      exact ⟨by simp [hst], fun _ => Nat.le_refl _⟩
  | poll p answer overdue =>
    obtain ⟨hp, rfl⟩ := Lts.of_enabled hs
    have hless : Inv { s with polls := s.polls.erase p } :=
      h.quiet (.refl h.numbered) (.of_eq rfl) fun _ hq => List.mem_of_mem_erase hq
    exact transact_of hless fun s' hr => hless.checkStatus (h.polls p hp) hr
  | journal input =>
    obtain ⟨-, rfl⟩ := Lts.of_enabled hs
    refine transact_of h fun b' hb => ?_
    obtain ⟨⟨ledger, entry, c⟩, -, hend⟩ := bind_eq_ok.mp hb
    cases hend
    have hshift : Shifted s.bank { s.bank with ledger := ledger } [] :=
      ⟨⟨h.numbered.ids, h.numbered.seq⟩, Noted.none s.bank, Nat.le_refl _,
        fun w hw => .inl ⟨w, hw, rfl, .same _⟩⟩
    have hrise : Rising s { s with bank := { s.bank with ledger := ledger } } := .of_eq rfl
    exact h.quiet hshift hrise fun _ hp => hp
  | lost n =>
    cases hs
    have hchange : Change s.bank { s.bank with transferSeq := s.bank.transferSeq + n } [] :=
      .idle (.none s.bank) rfl
    exact h.quiet (hchange.shifted h.numbered) (.of_eq rfl) fun _ hp => hp

theorem inv_init : Inv init where
  numbered := ⟨List.nodup_nil, by simp [init]⟩
  positive := by simp [init]
  polls := by simp [init]
  keys := by simp [init]

theorem reach_inv (h : Lts.Reach step Lts.free init s) : Inv s :=
  h.invariant Inv inv_init fun _ _ _ _ hi _ hs => step_inv hi hs

theorem lockByID_eq (h : Numbered b) (hw : w ∈ b.transfers) : lockByID b w.id = .ok w := by
  unfold lockByID
  rw [find?_eq_some h.ids hw]

theorem advancePollSchedule_events (s : State) (w : TransferRequest) (kind : PollFailureKind)
    (overdue : Bool) :
    (advancePollSchedule s w kind overdue).bank.transferEvents = s.bank.transferEvents ∧
      (advancePollSchedule s w kind overdue).checkAttempts w.id = s.checkAttempts w.id + 1 := by
  unfold advancePollSchedule
  cases reviewReasonForPollFailure kind overdue with
  | none => exact ⟨rfl, Function.update_self ..⟩
  | some reason => exact ⟨rfl, Function.update_self ..⟩

/-- The journal of a confirmation does not depend on the events. -/
theorem recordConfirmationJournal_events (b : Bank) (w : TransferRequest)
    (events : List TransferStatusEvent) (outcome : TransferOutcome) :
    recordConfirmationJournal { b with transferEvents := events } w outcome =
      (recordConfirmationJournal b w outcome).map fun r =>
        ({ r.1 with transferEvents := events }, r.2) := by
  have hrecord : ∀ key et postings,
      (recordTransfer { b with transferEvents := events } key et w.id postings >>= fun r =>
        return (r.1, some r.2)) =
        (recordTransfer b key et w.id postings >>= fun r => return (r.1, some r.2)).map
          fun r : Bank × Option Nat => ({ r.1 with transferEvents := events }, r.2) := by
    intro key et postings
    simp only [recordTransfer]
    cases record b.ledger ⟨et, key.text, .transfer, w.id, none, postings⟩ <;> rfl
  unfold recordConfirmationJournal
  split
  · rfl
  · split <;> first | rfl | exact hrecord ..

section

variable (h : Inv s) (hw : w ∈ s.bank.transfers) (hst : w.status = .processing)
  (hkey : pollKey w.id (m + 1) ∉ s.bank.transferEvents.map TransferStatusEvent.eventKey)
  {outcome : TransferOutcome}
include h hw hst hkey

/-- An observation under a new key. -/
theorem checkStatus_observed (hopen : outcome.isTerminal = false) (reason : Option String)
    (overdue : Bool) : checkStatus s ⟨w.id, m⟩ (.answered outcome reason) overdue =
      .ok (updatePollSchedule
        (s.withEvents (s.bank.transferEvents ++ [⟨w.id, pollKey w.id (m + 1), outcome⟩])) w outcome
        overdue) := by
  have hpos := h.positive w hw
  simp only [checkStatus, recordObservation, hopen, Bool.false_eq_true, if_false]
  rw [if_neg (by simp [pollKey_ne_empty, hpos.ne']), lockByID_eq h.numbered hw]
  simp only [bind, Except.bind, if_neg hkey, hst]
  rfl

/-- A final answer under a new key is stored with the confirmation of the request, or the ledger
refuses it. -/
theorem checkStatus_resolved (hterminal : outcome.isTerminal = true) (reason : Option String)
    (overdue : Bool) : (∃ s', checkStatus s ⟨w.id, m⟩ (.answered outcome reason) overdue = .ok s' ∧
      s'.bank.transferEvents = s.bank.transferEvents ++ [⟨w.id, pollKey w.id (m + 1), outcome⟩] ∧
      ∃ w' ∈ s'.bank.transfers, w'.id = w.id ∧
        w'.status = if outcome = .success then .completed else .failed) ∨
    ∃ e, recordConfirmationJournal s.bank w outcome = .error e ∧
      checkStatus s ⟨w.id, m⟩ (.answered outcome reason) overdue = .error e := by
  have hpos := h.positive w hw
  have hconfirm : checkStatus s ⟨w.id, m⟩ (.answered outcome reason) overdue = do
      let bank ← confirmTerminal { s.bank with
          transferEvents := s.bank.transferEvents ++ [⟨w.id, pollKey w.id (m + 1), outcome⟩] } w
        ⟨w.id, pollKey w.id (m + 1), outcome, reason⟩
      return { s with bank := bank } := by
    simp only [checkStatus, State.resolve, resolveTransfer, hterminal, if_true, Bool.not_true,
      Bool.false_eq_true, if_false]
    rw [if_neg (by simp [pollKey_ne_empty, hpos.ne']), lockByID_eq h.numbered hw]
    simp only [bind, Except.bind, if_neg hkey, hst]
  rw [hconfirm, confirmTerminal, recordConfirmationJournal_events]
  cases hjournal : recordConfirmationJournal s.bank w outcome with
  | error e => exact .inr ⟨e, rfl, rfl⟩
  | ok r =>
    let input : ResolveInput := ⟨w.id, pollKey w.id (m + 1), outcome, reason⟩
    have hrecorded : recordConfirmationJournal s.bank w input.outcome = .ok r := hjournal
    obtain ⟨t, es, hbank, -⟩ := recordConfirmationJournal_progress hst hrecorded
    refine .inl ⟨_, rfl, rfl, _, mem_modify.mpr (.inl ⟨w, ?_, rfl, rfl⟩), rfl, rfl⟩
    rw [hbank]
    exact hw

end

/-- While a request is out with `check_attempts` at `n`, there is no event under the key of an
attempt after `n`. So the result of a poll that has read `n` is never taken for one that was seen
before: an observation is stored with the schedule moved on, and a final answer is stored with the
confirmation of the request or, if the ledger refuses the journal of the confirmation, the poll
fails with its error and changes nothing. -/
theorem poll_is_recorded (h : Lts.Reach step Lts.free init s) (hw : w ∈ s.bank.transfers)
    (hst : w.status = .processing) : (∀ m, s.checkAttempts w.id < m →
      pollKey w.id m ∉ s.bank.transferEvents.map TransferStatusEvent.eventKey) ∧
    ∀ p : Poll, p.requestID = w.id → p.checkAttempts = s.checkAttempts w.id →
    ∀ outcome reason overdue,
      let event := ⟨w.id, pollKey w.id (p.checkAttempts + 1), outcome⟩
      (outcome.isTerminal = false →
        ∃ s', checkStatus s p (.answered outcome reason) overdue = .ok s' ∧
        s'.bank.transferEvents = s.bank.transferEvents ++ [event] ∧
        s'.checkAttempts w.id = s.checkAttempts w.id + 1) ∧
      (outcome.isTerminal = true →
        (∃ s', checkStatus s p (.answered outcome reason) overdue = .ok s' ∧
          s'.bank.transferEvents = s.bank.transferEvents ++ [event] ∧
          ∃ w' ∈ s'.bank.transfers, w'.id = w.id ∧
            w'.status = if outcome = .success then .completed else .failed) ∨
        ∃ e, recordConfirmationJournal s.bank w outcome = .error e ∧
          checkStatus s p (.answered outcome reason) overdue = .error e) := by
  have hi := reach_inv h
  have hahead : ∀ m, s.checkAttempts w.id < m →
      pollKey w.id m ∉ s.bank.transferEvents.map TransferStatusEvent.eventKey := by
    intro m hlt hmem
    have hle := ((hi.keys w.id m hmem).2 w hw rfl).2 hst
    omega
  refine ⟨hahead, ?_⟩
  rintro ⟨id, n⟩ rfl hn outcome reason overdue
  have hkey := hahead (n + 1) (by simp only at hn; omega)
  constructor
  · intro hopen
    obtain ⟨hevents, hattempts⟩ := advancePollSchedule_events
      (s.withEvents (s.bank.transferEvents ++ [⟨w.id, pollKey w.id (n + 1), outcome⟩])) w
      (if outcome = .unknown then .unknown else .pending) overdue
    exact ⟨_, checkStatus_observed hi hw hst hkey hopen reason overdue, hevents, hattempts⟩
  · intro hterminal
    exact checkStatus_resolved hi hw hst hkey hterminal reason overdue

/-- A deposit whose first submission fails and that two polls ask about at the same time; the second
one is late. A third one has read the row when both are done. -/
def latePoll : List Label :=
  [.deposit ⟨1, .bank, "KRW", some 100, "k"⟩, .dispatch 1 none, .dispatch 1 (some "r"),
    .read 1, .read 1,
    .poll ⟨1, 0⟩ (.answered .pending none) false, .poll ⟨1, 0⟩ (.answered .pending none) false,
    .read 1]

theorem poll_is_recorded_latePoll :
    ∃ s w, Lts.exec step latePoll init = some s ∧ w ∈ s.bank.transfers ∧
    (⟨w.id, 1⟩ : Poll) ∈ s.polls ∧ s.checkAttempts w.id = 1 ∧
    ∀ outcome ∈ [TransferOutcome.pending, .success], ∃ s',
      checkStatus s ⟨w.id, 1⟩ (.answered outcome none) false = .ok s' ∧
        s'.bank.transferEvents = s.bank.transferEvents ++ [⟨w.id, pollKey w.id 2, outcome⟩] := by
  have hrun : (Lts.exec step latePoll init).map
      (fun s => (s.bank.transfers.map fun w => (w.id, w.status),
      s.checkAttempts 1, s.polls,
      (checkStatus s ⟨1, 1⟩ (.answered .success none) false).toOption.isSome)) =
        some ([(1, .processing)], 1, [⟨1, 1⟩], true) := by decide +kernel
  obtain ⟨s, hs, hfields⟩ := Option.map_eq_some_iff.mp hrun
  simp only [Prod.mk.injEq] at hfields
  obtain ⟨hrows, hattempts, hpolls, hconfirmed⟩ := hfields
  have hmem : (1, TransferStatus.processing) ∈ s.bank.transfers.map fun w => (w.id, w.status) := by
    simp [hrows]
  obtain ⟨w, hw, he⟩ := List.mem_map.mp hmem
  obtain ⟨hid, hst⟩ := Prod.mk.inj he
  have hread : s.checkAttempts w.id = 1 := hid ▸ hattempts
  have hall := (poll_is_recorded (Lts.reach_of_exec latePoll hs) hw hst).2 ⟨w.id, 1⟩ rfl hread.symm
  obtain ⟨s', hs', hevents, -⟩ := (hall .pending none false).1 rfl
  refine ⟨s, w, hs, hw, by rw [hid, hpolls]; exact List.mem_singleton_self _, hread, ?_⟩
  rw [List.forall_mem_cons, List.forall_mem_singleton]
  refine ⟨⟨s', hs', hevents⟩, ?_⟩
  rcases (hall .success none false).2 rfl with ⟨u, hu, hnew, -⟩ | ⟨e, -, hrefused⟩
  · exact ⟨u, hu, hnew⟩
  · rw [hid] at hrefused
    rw [hrefused] at hconfirmed
    cases hconfirmed

/-- User 1 has asked for a withdrawal of 100 KRW, and a market buy of 1e-16 KRW of theirs is
settled, which takes its fee from what is locked for the withdrawal. A poll then asks about the
withdrawal. -/
def dustBeforePoll : List Label :=
  let quote : Decimal := 1 / 10 ^ 16
  let fee := quote * (5 / 10000)
  [.journal ⟨.devFund, "grant", .devFund, 1, none,
      [⟨.devMint, none, "KRW", -(100 + quote)⟩, ⟨.userAvailable, some 1, "KRW", 100⟩,
        ⟨.userLocked, some 1, "KRW", quote⟩,
        ⟨.devMint, none, "BTC", -quote⟩, ⟨.userLocked, some 2, "BTC", quote⟩]⟩,
    .withdraw ⟨1, .bank, "KRW", some 100, "k"⟩, .dispatch 1 (some "r"),
    .journal ⟨.trade, "trade:engine:1:1", .trade, 1, none,
      [⟨.userLocked, some 1, "KRW", -(quote + fee)⟩, ⟨.userAvailable, some 2, "KRW", quote - fee⟩,
        ⟨.userLocked, some 2, "BTC", -quote⟩, ⟨.userAvailable, some 1, "BTC", quote⟩,
        ⟨.feeIncome, none, "KRW", fee + fee⟩]⟩,
    .read 1]

/-- The bank has paid, and the poll has read the current count; the confirmation is refused, no
event is stored and the request is still out. -/
theorem refused_answer_not_recorded :
    (Lts.exec step dustBeforePoll init).map (fun s => (s.polls, s.checkAttempts 1,
      (checkStatus s ⟨1, 0⟩ (.answered .success none) false).toOption.isSome)) =
        some ([⟨1, 0⟩], 0, false) ∧
    (Lts.exec step (dustBeforePoll ++ [.poll ⟨1, 0⟩ (.answered .success none) false]) init).map
      (fun s => (s.bank.transferEvents, s.bank.transfers.map TransferRequest.status)) =
        some ([], [.processing]) := by
  decide +kernel

end GoExchange.TransferRun
