import GoExchange.Model
import GoExchange.Words

/-!
# Strings as Go has them

A Go string is a sequence of bytes. Most of them are the UTF-8 encoding of some
runes, but a slice of a string need not be, and where a rune cannot be read the
library goes on with the replacement character and the next byte.
-/
namespace GoExchange.GoStrings

open Trimming PrefixCode

def encode (runes : List Char) : List UInt8 := runes.flatMap String.utf8EncodeChar

def ValidUTF8 (data : List UInt8) : Prop := ∃ runes, data = encode runes

/-- The rune a string starts with. -/
def decodeRune (data : List UInt8) : Option Char := data.toByteArray.utf8DecodeChar? 0

/-- The runes a `range` over the string goes through. -/
def runesOf (data : List UInt8) : List Char :=
  match data with
  | [] => []
  | b :: rest =>
    match decodeRune (b :: rest) with
    | some c => c :: runesOf ((b :: rest).drop c.utf8Size)
    | none => Char.ofNat 0xFFFD :: runesOf rest
termination_by data.length
decreasing_by
  · have := c.utf8Size_pos
    simp only [List.length_drop, List.length_cons]
    omega
  · simp

/-- `strings.ToUpper`, over `unicode.ToUpper`. -/
def toUpper (upper : Char → Char) (data : List UInt8) : List UInt8 :=
  encode ((runesOf data).map upper)

/-- `unicode.IsSpace`. -/
def isSpace (c : Char) : Bool :=
  let n := c.toNat
  (9 ≤ n && n ≤ 13) || n == 0x20 || n == 0x85 || n == 0xA0 || n == 0x1680 ||
    (0x2000 ≤ n && n ≤ 0x200A) ||
    n == 0x2028 || n == 0x2029 || n == 0x202F || n == 0x205F || n == 0x3000

/-- `strings.TrimSpace` on a string of runes. -/
def trimSpace (s : String) : String := String.ofList (trim isSpace s.toList)

theorem bytes_eq_encode (s : String) : bytes s = encode s.toList := by
  unfold bytes
  rw [← String.ofList_toList (s := s), String.toByteArray_ofList]
  simp [List.utf8Encode, encode]

theorem decodeRune_encode (c : Char) (rest : List UInt8) :
    decodeRune (String.utf8EncodeChar c ++ rest) = some c := by
  unfold decodeRune
  rw [List.toByteArray_append]
  exact ByteArray.utf8DecodeChar?_utf8EncodeChar_append

theorem readable_utf8 : Readable String.utf8EncodeChar where
  ne_nil _ := String.utf8EncodeChar_ne_nil
  first a b r r' h := by
    have hdecode := congrArg decodeRune h
    rw [decodeRune_encode, decodeRune_encode] at hdecode
    exact Option.some.inj hdecode

/-- Runes are read as they were written, up to where reading gets stuck. -/
theorem runesOf_encode_append (runes : List Char) (rest : List UInt8) :
    runesOf (encode runes ++ rest) = runes ++ runesOf rest := by
  induction runes with
  | nil => rfl
  | cons c runes ih =>
    have hsplit : encode (c :: runes) ++ rest =
        String.utf8EncodeChar c ++ (encode runes ++ rest) := by simp [encode]
    have hdecode := decodeRune_encode c (encode runes ++ rest)
    have hdrop : (String.utf8EncodeChar c ++ (encode runes ++ rest)).drop c.utf8Size =
        encode runes ++ rest := by
      rw [← String.length_utf8EncodeChar, List.drop_left]
    rw [hsplit]
    generalize hdata : String.utf8EncodeChar c ++ (encode runes ++ rest) = data at hdecode hdrop
    cases data with
    | nil => exact absurd (List.append_eq_nil_iff.mp hdata).1 String.utf8EncodeChar_ne_nil
    | cons b data =>
      rw [runesOf, hdecode]
      simp only
      rw [hdrop, ih, List.cons_append]

@[simp] theorem encode_append (xs ys : List Char) : encode (xs ++ ys) = encode xs ++ encode ys :=
  List.flatMap_append

/-- Where a string may be cut. -/
theorem validUTF8_take_iff (runes : List Char) (n : Nat) :
    ValidUTF8 ((encode runes).take n) ↔ (encode runes).length ≤ n ∨
    ∃ k, (encode (runes.take k)).length = n :=
  readable_utf8.take_encoded_iff runes n

/-- The cut of a string with a head falls into what follows, if the head leaves any space. -/
theorem validUTF8_take_append_iff (head runes : List Char) {n space : Nat}
    (hspace : (encode head).length + space = n) :
    ValidUTF8 ((encode (head ++ runes)).take n) ↔
      (encode runes).length ≤ space ∨ ∃ k, (encode (runes.take k)).length = space := by
  rw [validUTF8_take_iff]
  constructor
  · intro hcut
    rcases hcut with hlen | ⟨k, hk⟩
    · left
      rw [encode_append, List.length_append] at hlen
      omega
    · right
      rw [List.take_append, encode_append, List.length_append] at hk
      by_cases hinside : k ≤ head.length
      · -- the cut is in the head, so nothing is left
        use 0
        have hhead : encode head = encode (head.take k) ++ encode (head.drop k) := by
          rw [← encode_append, List.take_append_drop]
        have hlen := congrArg List.length hhead
        rw [show k - head.length = 0 by omega] at hk
        simp only [List.take_zero, encode, List.flatMap_nil, List.length_nil, List.length_append]
          at hk hlen hspace ⊢
        omega
      · use k - head.length
        rw [List.take_of_length_le (by omega)] at hk
        omega
  · intro hcut
    rcases hcut with hlen | ⟨k, hk⟩
    · left
      rw [encode_append, List.length_append]
      omega
    · right
      use head.length + k
      rw [List.take_length_add_append, encode_append, List.length_append]
      omega

end GoExchange.GoStrings
