import GoExchange.GoStrings

/-!
# The message of a failed settlement

`settlementErrorMessage` writes the SQLSTATE of a transient error before its
text and cuts the message to the length the table takes;
`ClassifyFailedSettlement` reads the stored message to find the failures that
are retried. The cut is made at a byte, so it can divide a character.
-/
namespace GoExchange.SettlementErrors

open GoStrings Trimming

def maxFailedSettlementErrorLength : Nat := 2048

def pgCodeSerializationFailure : String := "40001"
def pgCodeDeadlockDetected : String := "40P01"
def pgCodeLockNotAvailable : String := "55P03"
def pgCodeQueryCanceled : String := "57014"

/-- An error: its text, and the code of the database error in its chain. -/
structure SettlementError where
  text : String
  pgCode : Option String
  deriving DecidableEq, Repr

/-- The codes that are kept in the message. -/
def keptCodes : List String :=
  [pgCodeSerializationFailure, pgCodeDeadlockDetected, pgCodeLockNotAvailable, pgCodeQueryCanceled]

def settlementErrorSQLState : Option SettlementError → String
  | some ⟨_, some code⟩ => if code ∈ keptCodes then code else ""
  | _ => ""

/-- The text that is shown, without its tag. -/
def settlementErrorText (err : Option SettlementError) : String :=
  let message := err.elim "unknown settlement failure" fun e => trimSpace e.text
  if message = "" then "unknown settlement failure" else message

def tag (code : String) : String := "[SQLSTATE " ++ code ++ "]"

def settlementErrorMessage (err : Option SettlementError) : List UInt8 :=
  let code := settlementErrorSQLState err
  let message := bytes (if code ≠ "" then tag code ++ " " ++ settlementErrorText err
    else settlementErrorText err)
  if maxFailedSettlementErrorLength < message.length then
    message.take maxFailedSettlementErrorLength
  else message

inductive FailedSettlementCategory where
  | cancelledOrder | idempotencyConflict | insufficientLockedBalance | deadlock
  | serializationFailure | lockTimeout
  | statementTimeout | unknown
  deriving DecidableEq, Repr

def isTransientFailedSettlementCategory : FailedSettlementCategory → Bool
  | .deadlock | .serializationFailure | .lockTimeout | .statementTimeout => true
  | _ => false

section

-- `unicode.ToUpper`
variable (upper : Char → Char)

def classifyFailedSettlement (errorMessage : List UInt8) : FailedSettlementCategory :=
  let message := toUpper upper errorMessage
  if bytes (tag pgCodeDeadlockDetected) <:+: message then .deadlock
  else if bytes (tag pgCodeSerializationFailure) <:+: message then .serializationFailure
  else if bytes (tag pgCodeLockNotAvailable) <:+: message then .lockTimeout
  else if bytes (tag pgCodeQueryCanceled) <:+: message then .statementTimeout
  else if bytes "CANCELLED" <:+: message then .cancelledOrder
  else if bytes "IDEMPOTENCY KEY CONFLICT" <:+: message then .idempotencyConflict
  else if bytes "INSUFFICIENT LOCKED" <:+: message then .insufficientLockedBalance
  else .unknown

end

/-- The bytes that the tag leaves to the text. -/
def budget (err : Option SettlementError) : Nat :=
  if settlementErrorSQLState err = "" then maxFailedSettlementErrorLength
  else maxFailedSettlementErrorLength - 17

/-- The text of the error fits without the blanks around it, or one of its characters ends where the
space does. -/
def CutsBetween (err : Option SettlementError) : Prop :=
  ∀ e ∈ err, (bytes (trimSpace e.text)).length ≤ budget err ∨
    ∃ k, (encode ((trimSpace e.text).toList.take k)).length = budget err

/-! ## The message before the cut -/

variable {err : Option SettlementError}

theorem settlementErrorSQLState_cases (err : Option SettlementError) :
    settlementErrorSQLState err = "" ∨ settlementErrorSQLState err ∈ keptCodes := by
  unfold settlementErrorSQLState
  split
  · split
    · right
      assumption
    · exact .inl rfl
  · exact .inl rfl

/-- The runes of the tag and the blank after it. -/
def head (err : Option SettlementError) : List Char :=
  if settlementErrorSQLState err = "" then []
  else (tag (settlementErrorSQLState err)).toList ++ [' ']

theorem settlementErrorMessage_eq (err : Option SettlementError) :
    settlementErrorMessage err =
      (encode (head err ++ (settlementErrorText err).toList)).take
        maxFailedSettlementErrorLength := by
  have hbytes : bytes (if settlementErrorSQLState err ≠ "" then
      tag (settlementErrorSQLState err) ++ " " ++ settlementErrorText err
        else settlementErrorText err) =
      encode (head err ++ (settlementErrorText err).toList) := by
    rw [bytes_eq_encode]
    unfold head
    by_cases hcode : settlementErrorSQLState err = ""
    · simp [hcode]
    · simp [hcode]
  simp only [settlementErrorMessage, hbytes]
  split
  · rfl
  · rw [List.take_of_length_le (by omega)]

/-- The tag is as long as the space that the text does not get. -/
theorem head_length (err : Option SettlementError) :
    (encode (head err)).length + budget err = maxFailedSettlementErrorLength := by
  unfold head budget
  rcases settlementErrorSQLState_cases err with hcode | hcode
  · simp [hcode, encode]
  · generalize settlementErrorSQLState err = code at hcode
    simp only [keptCodes, List.mem_cons, List.not_mem_nil, or_false] at hcode
    rcases hcode with rfl | rfl | rfl | rfl <;> decide

theorem settlementErrorText_ne (err : Option SettlementError) : settlementErrorText err ≠ "" := by
  simp only [settlementErrorText]
  split
  · decide
  · assumption

/-- The replacement text is short. -/
theorem unknown_fits (err : Option SettlementError) :
    (encode "unknown settlement failure".toList).length ≤ budget err := by
  have hlen : (encode "unknown settlement failure".toList).length = 26 := by decide
  rw [hlen]
  unfold budget maxFailedSettlementErrorLength
  split <;> omega

theorem validUTF8_message_iff (err : Option SettlementError) :
    ValidUTF8 (settlementErrorMessage err) ↔ CutsBetween err := by
  rw [settlementErrorMessage_eq, validUTF8_take_append_iff _ _ (head_length err)]
  have hunknown := unknown_fits err
  cases err with
  | none => exact ⟨fun _ => nofun, fun _ => .inl hunknown⟩
  | some e =>
    by_cases htext : trimSpace e.text = ""
    · -- a blank text is replaced, and takes no space itself
      have hshown : settlementErrorText (some e) = "unknown settlement failure" := by
        simp [settlementErrorText, htext]
      rw [hshown]
      refine ⟨fun _ e' he => ?_, fun _ => .inl hunknown⟩
      cases he
      left
      rw [htext]
      exact Nat.zero_le _
    · have hshown : settlementErrorText (some e) = trimSpace e.text := by
        simp [settlementErrorText, htext]
      simp [CutsBetween, hshown, bytes_eq_encode]

/-! ## Reading the tag back -/

section

variable {upper : Char → Char} {code : String}

/-- A tag of capital letters and digits is found again. -/
theorem tag_infix_toUpper (hupper : ∀ c, c.toNat < 128 → upper c = c.toUpper)
    (htag : (tag code).toList.all (fun c => c.toNat < 128 && c.toUpper == c)) (rest : List UInt8) :
    bytes (tag code) <:+: toUpper upper (bytes (tag code) ++ rest) := by
  have hsame : (tag code).toList.map upper = (tag code).toList := by
    have hmap : (tag code).toList.map upper = (tag code).toList.map id := by
      apply List.map_congr_left
      intro c hc
      have hascii := List.all_eq_true.mp htag c hc
      rw [Bool.and_eq_true, decide_eq_true_eq, beq_iff_eq] at hascii
      rw [hupper c hascii.1, hascii.2, id]
    rw [hmap, List.map_id]
  unfold toUpper
  rw [bytes_eq_encode, runesOf_encode_append, List.map_append, hsame, encode_append]
  exact (List.prefix_append _ _).isInfix

/-- Whichever of the tags the message has, and if it has several: all of them are of transient
errors. -/
theorem classify_transient_iff {message : List UInt8} :
    isTransientFailedSettlementCategory (classifyFailedSettlement upper message) = true ↔
      ∃ code ∈ keptCodes, bytes (tag code) <:+: toUpper upper message := by
  simp only [classifyFailedSettlement, keptCodes, List.mem_cons, List.not_mem_nil, or_false,
    exists_eq_or_imp, exists_eq_left]
  split
  · simp [isTransientFailedSettlementCategory, *]
  split
  · simp [isTransientFailedSettlementCategory, *]
  split
  · simp [isTransientFailedSettlementCategory, *]
  split
  · simp [isTransientFailedSettlementCategory, *]
  · simp only [*, or_false, iff_false, Bool.not_eq_true]
    split <;> [rfl; split <;> [rfl; split <;> rfl]]

theorem classify_message (hupper : ∀ c, c.toNat < 128 → upper c = c.toUpper)
    (err : Option SettlementError) (hcode : settlementErrorSQLState err ≠ "") :
    isTransientFailedSettlementCategory
      (classifyFailedSettlement upper (settlementErrorMessage err)) = true := by
  have hmem := (settlementErrorSQLState_cases err).resolve_left hcode
  have hhead : head err = (tag (settlementErrorSQLState err)).toList ++ [' '] := if_neg hcode
  refine classify_transient_iff.mpr ⟨_, hmem, ?_⟩
  rw [settlementErrorMessage_eq, hhead]
  generalize settlementErrorSQLState err = code at hmem
  have hshort : (encode (tag code).toList).length ≤ maxFailedSettlementErrorLength ∧
      (tag code).toList.all (fun c => c.toNat < 128 && c.toUpper == c) := by
    simp only [keptCodes, List.mem_cons, List.not_mem_nil, or_false] at hmem
    rcases hmem with rfl | rfl | rfl | rfl <;> decide
  rw [List.append_assoc, encode_append, List.take_append, List.take_of_length_le hshort.1,
    ← bytes_eq_encode]
  exact tag_infix_toUpper hupper hshort.2 _

end

theorem settlementErrorMessage_ne_nil (err : Option SettlementError) :
    settlementErrorMessage err ≠ [] := by
  have htext : (settlementErrorText err).toList ≠ [] := by
    intro hnil
    exact settlementErrorText_ne err (String.toList_eq_nil_iff.mp hnil)
  rw [settlementErrorMessage_eq]
  intro hnil
  rcases List.take_eq_nil_iff.mp hnil with hzero | hnil
  · cases hzero
  · simp [encode] at hnil
    exact htext (List.eq_nil_iff_forall_not_mem.mpr hnil.2)

/-- The message of a failure can be stored and read again exactly if the cut does not divide a
character of the error's text. -/
theorem message_kept_iff (upper : Char → Char) (hupper : ∀ c, c.toNat < 128 → upper c = c.toUpper)
    (err : Option SettlementError) :
    (ValidUTF8 (settlementErrorMessage err) ∧ settlementErrorMessage err ≠ [] ∧
      (settlementErrorMessage err).length ≤ maxFailedSettlementErrorLength ∧
      (settlementErrorSQLState err ≠ "" →
        isTransientFailedSettlementCategory
          (classifyFailedSettlement upper (settlementErrorMessage err)) = true)) ↔
      CutsBetween err := by
  rw [validUTF8_message_iff]
  constructor
  · intro h
    exact h.1
  · intro h
    have hlen : (settlementErrorMessage err).length ≤ maxFailedSettlementErrorLength := by
      rw [settlementErrorMessage_eq]
      exact List.length_take_le _ _
    exact ⟨h, settlementErrorMessage_ne_nil err, hlen, classify_message hupper err⟩

theorem trimSpace_of_forall {cs : List Char} (h : ∀ c ∈ cs, isSpace c = false) :
    (trimSpace (String.ofList cs)).toList = cs := by
  simp only [trimSpace, String.toList_ofList]
  exact (Trimmed.of_forall h).trim_eq

theorem length_encode_replicate (n : Nat) (c : Char) :
    (encode (List.replicate n c)).length = n * (encode [c]).length := by
  induction n with
  | zero => simp [encode]
  | succ n ih =>
    have hone : encode (List.replicate (n + 1) c) = encode [c] ++ encode (List.replicate n c) := by
      rw [← encode_append]
      rfl
    rw [hone, List.length_append, ih, Nat.succ_mul, Nat.add_comm]

/-- A timeout with a text of characters of three bytes, of which 677 fit behind the tag. -/
def lockTimeout (n : Nat) : SettlementError :=
  ⟨String.ofList (List.replicate n '가'), some pgCodeLockNotAvailable⟩

theorem length_lockTimeout (n : Nat) : (bytes (lockTimeout n).text).length = n * 3 := by
  rw [bytes_eq_encode, lockTimeout, String.toList_ofList, length_encode_replicate]
  rfl

theorem lockTimeout_cutsBetween {n : Nat} (h : 677 ≤ n) : CutsBetween (some (lockTimeout n)) := by
  intro e he
  obtain rfl := Option.some.inj he
  have hbudget : budget (some (lockTimeout n)) = 677 * 3 := rfl
  have htext : (trimSpace (lockTimeout n).text).toList = List.replicate n '가' := by
    apply trimSpace_of_forall
    intro c hc
    rw [List.eq_of_mem_replicate hc]
    decide
  refine .inr ⟨677, ?_⟩
  rw [hbudget, htext, List.take_replicate, Nat.min_eq_left h, length_encode_replicate]
  rfl

/-- Of 700 characters the last 23 are cut off. -/
theorem message_kept_lockTimeout :
    maxFailedSettlementErrorLength < (bytes (lockTimeout 700).text).length ∧
    ValidUTF8 (settlementErrorMessage (some (lockTimeout 700))) ∧
      settlementErrorMessage (some (lockTimeout 700)) ≠ [] ∧
      (settlementErrorMessage (some (lockTimeout 700))).length ≤ maxFailedSettlementErrorLength ∧
      (settlementErrorSQLState (some (lockTimeout 700)) ≠ "" → isTransientFailedSettlementCategory
        (classifyFailedSettlement Char.toUpper (settlementErrorMessage (some (lockTimeout 700)))) =
          true) := by
  constructor
  · rw [length_lockTimeout]
    decide
  · exact (message_kept_iff Char.toUpper (fun _ _ => rfl) _).mpr
      (lockTimeout_cutsBetween (by decide))

/-- Letters, and a character of three bytes at the end. -/
def longText (n : Nat) : List Char := List.replicate n 'x' ++ ['가']

theorem trimSpace_longText (n : Nat) :
    (trimSpace (String.ofList (longText n))).toList = longText n := by
  apply trimSpace_of_forall
  intro c hc
  rcases List.mem_append.mp hc with hc | hc
  · rw [List.eq_of_mem_replicate hc]
    decide
  · rw [List.mem_singleton.mp hc]
    decide

theorem length_letters (n : Nat) : (encode (List.replicate n 'x')).length = n :=
  (length_encode_replicate n 'x').trans (Nat.mul_one n)

/-- No character ends one byte behind the letters. -/
theorem longText_take (n k : Nat) : (encode ((longText n).take k)).length ≠ n + 1 := by
  intro hk
  have hlast : (encode ['가']).length = 3 := by decide
  unfold longText at hk
  rw [List.take_append, List.take_replicate, List.length_replicate, encode_append,
    List.length_append, length_letters] at hk
  by_cases hin : k ≤ n
  · rw [show k - n = 0 by omega] at hk
    simp [encode] at hk
    omega
  · rw [List.take_of_length_le (by rw [List.length_singleton]; omega), hlast] at hk
    omega

/-- A deadlock whose text reaches over the end of the message with its last character. -/
def longDeadlock : SettlementError := ⟨String.ofList (longText 2030), some pgCodeDeadlockDetected⟩

theorem longDeadlock_cut : ¬ ValidUTF8 (settlementErrorMessage (some longDeadlock)) := by
  have hbudget : budget (some longDeadlock) = 2030 + 1 := rfl
  rw [validUTF8_message_iff]
  intro hcut
  have hcut := hcut longDeadlock rfl
  rw [hbudget, bytes_eq_encode] at hcut
  simp only [longDeadlock, trimSpace_longText] at hcut
  rcases hcut with hlen | ⟨k, hk⟩
  · have hlast : (encode ['가']).length = 3 := by decide
    unfold longText at hlen
    rw [encode_append, List.length_append, length_letters, hlast] at hlen
    omega
  · exact longText_take 2030 k hk

end GoExchange.SettlementErrors
