import Mathlib.Data.List.Infix

/-!
# Keys of journals

Every journal the services record has a text key built from a label and what
the label is about. Distinct events have distinct texts: no label is the
beginning of another one.
-/
namespace GoExchange.Service

/-- A number is read back from its digits. -/
theorem natText_inj {a b : Nat} : a.repr = b.repr ↔ a = b := by
  constructor
  · intro h
    have hdigits := congrArg (fun s => Nat.ofDigitChars 10 (String.toList s) 0) h
    simpa [Nat.toList_repr, Nat.ofDigitChars_ten_toDigits] using hdigits
  · rintro rfl
    rfl

/-- Why a hold was released; part of the key. -/
inductive ReleaseReason where
  | cancel | marketRemain | rejected
  deriving DecidableEq, Repr

def ReleaseReason.text : ReleaseReason → String
  | .cancel => "cancel"
  | .marketRemain => "market-remain"
  | .rejected => "rejected"

inductive JournalKey where
  | orderHold (orderID : Nat)
  | orderRelease (orderID : Nat) (reason : ReleaseReason)
  | trade (key : String)
  | withdrawHold (requestID : Nat)
  | depositSettle (ref : String)
  | withdrawSettle (ref : String)
  | withdrawRefund (ref : String)
  deriving DecidableEq, Repr

namespace JournalKey

def label : JournalKey → String
  | .orderHold _ => "order-hold:"
  | .orderRelease _ _ => "order-release:"
  | .trade _ => "trade:"
  | .withdrawHold _ => "withdraw-hold:"
  | .depositSettle _ => "deposit-settle:"
  | .withdrawSettle _ => "withdraw-settle:"
  | .withdrawRefund _ => "withdraw-refund:"

def body : JournalKey → String
  | .orderHold id => toString id
  | .orderRelease id reason => toString id ++ ":" ++ reason.text
  | .trade key => key
  | .withdrawHold id => toString id
  | .depositSettle ref => ref
  | .withdrawSettle ref => ref
  | .withdrawRefund ref => ref

def text (k : JournalKey) : String := k.label ++ k.body

variable {k' k : JournalKey}

theorem label_apart (h : k.label.toList <+: k'.label.toList) : k.label = k'.label := by
  revert h
  cases k <;> cases k' <;> simp only [label] <;> decide

theorem label_eq_of_text (h : k.text = k'.text) : k.label = k'.label := by
  have hlist := congrArg String.toList h
  simp only [text, String.toList_append] at hlist
  have hk : k.label.toList <+: k'.label.toList ++ k'.body.toList := hlist ▸ List.prefix_append _ _
  rcases List.prefix_or_prefix_of_prefix hk (List.prefix_append _ _) with hp | hp
  · exact label_apart hp
  · exact (label_apart hp).symm

/-- The reasons end in different letters. -/
theorem release_inj {a b : Nat} {r r' : ReleaseReason}
    (h : toString a ++ ":" ++ r.text = toString b ++ ":" ++ r'.text) : a = b ∧ r = r' := by
  have hlast := congrArg (fun s => s.toList.getLast?) h
  simp only [String.toList_append] at hlast
  have hr : r = r' := by
    cases r <;> cases r' <;> first | rfl | (simp [ReleaseReason.text] at hlast)
  subst hr
  rw [String.append_left_inj, String.append_left_inj] at h
  exact ⟨natText_inj.mp h, rfl⟩

theorem text_injective (h : k.text = k'.text) : k = k' := by
  have hl := label_eq_of_text h
  have hb : k.body = k'.body := by
    rw [text, text, hl] at h
    exact (String.append_right_inj _).mp h
  cases k <;> cases k' <;> first | (exact absurd hl (by simp only [label]; decide)) | skip
  · exact congrArg _ (natText_inj.mp hb)
  · obtain ⟨rfl, rfl⟩ := release_inj hb
    rfl
  · exact congrArg _ hb
  · exact congrArg _ (natText_inj.mp hb)
  · exact congrArg _ hb
  · exact congrArg _ hb
  · exact congrArg _ hb

end JournalKey

end GoExchange.Service
