import GoExchange.Model
import GoExchange.Rounding
import Mathlib.Data.Nat.Prime.Basic

/-!
# Decimals

The operations that round: `Div` rounds half away from zero at
`DivisionPrecision` digits, `QuoRem` and `Mod` truncate the quotient; the other
operations are exact and are those of the rationals. `String` writes a number
without trailing zeros, so that equal numbers have equal texts and, as is shown
here, different numbers have different ones.
-/
namespace GoExchange

def divisionPrecision : Nat := 16

namespace Decimal

/-- `Decimal.Div`. -/
def div (x y : Decimal) : Decimal := Rounding.roundHalfAway divisionPrecision (x / y)

/-- The quotient of `Decimal.QuoRem` at `DivisionPrecision` digits. Like every decimal
division it panics for a zero divisor. -/
def quoRem (x y : Decimal) : Option Decimal :=
  if y = 0 then none else some (Rounding.truncate divisionPrecision (x / y))

/-- `Decimal.Mod`: what the truncated whole quotient leaves. -/
def mod (x y : Decimal) : Decimal := x - y * Rounding.truncate 0 (x / y)

/-- The least number of digits after the point. -/
def places (x : Decimal) : Option Nat :=
  (List.range (x.den.log2 + 1)).find? fun k => 10 ^ k % x.den = 0

/-- `Decimal.String`. The last case is that of a number without a finite expansion, which no decimal
has. -/
def string (x : Decimal) : String :=
  let sign := if x < 0 then "-" else ""
  match places x with
  | some 0 => sign ++ toString x.num.natAbs
  | some k =>
    let value := x.num.natAbs * (10 ^ k / x.den)
    sign ++ toString (value / 10 ^ k) ++ "." ++
      String.ofList ((Nat.toDigits 10 (value % 10 ^ k)).leftpad k '0')
  | none => sign ++ toString x.num.natAbs ++ "/" ++ toString x.den

/-- A number without a sign. -/
def unsigned (cs : List Char) : Option Decimal :=
  let whole := Nat.ofDigitChars 10 (cs.takeWhile Char.isDigit) 0
  match cs.dropWhile Char.isDigit with
  | [] => some whole
  | '.' :: ds => some (whole + Nat.ofDigitChars 10 ds 0 / 10 ^ ds.length)
  | '/' :: ds => some (whole / Nat.ofDigitChars 10 ds 0)
  | _ => none

/-- `NewFromString` of what `String` writes. -/
def newFromString (s : String) : Option Decimal :=
  if s.toList.head? = some '-' then (unsigned s.toList.tail).map (- ·) else unsigned s.toList

example : string (-3 / 200) = "-0.015" := by decide +kernel
example : newFromString "-0.015" = some (-3 / 200) := by decide +kernel

variable {x : Decimal} {a k : Nat} {cs : List Char}

/-! ## The text determines the number -/

/-- What stands behind the digits `a` in the text of `x`. -/
inductive Tail (x : Decimal) : Nat → List Char → Prop
  | whole (hden : x.den = 1) : Tail x x.num.natAbs []
  | point (k : Nat) (hk : 0 < k) (hden : x.den ∣ 10 ^ k) :
      Tail x (x.num.natAbs * (10 ^ k / x.den) / 10 ^ k)
        ('.' :: (Nat.toDigits 10 (x.num.natAbs * (10 ^ k / x.den) % 10 ^ k)).leftpad k '0')
  | ratio : Tail x x.num.natAbs ('/' :: Nat.toDigits 10 x.den)

theorem dvd_of_places (h : places x = some k) : x.den ∣ 10 ^ k :=
  Nat.dvd_of_mod_eq_zero (by simpa using List.find?_some h)

/-- A number that has digits after the point to its end is written with them. -/
theorem places_isSome {n : Nat} (h : x.den ∣ 10 ^ n) : (places x).isSome = true := by
  have hpow : (10 : Nat) ^ n = 2 ^ n * 5 ^ n := by rw [← Nat.mul_pow]
  rw [hpow] at h
  obtain ⟨d, e, hd, he, hde⟩ := Nat.dvd_mul.mp h
  obtain ⟨a, -, rfl⟩ := (Nat.dvd_prime_pow Nat.prime_two).mp hd
  obtain ⟨b, -, rfl⟩ := (Nat.dvd_prime_pow Nat.prime_five).mp he
  have hle : ∀ m, 2 ^ m ≤ x.den → m ≤ x.den.log2 := fun m => (Nat.le_log2 x.den_ne_zero).mpr
  have ha : a ≤ x.den.log2 := hle a (hde ▸ Nat.le_mul_of_pos_right _ (by positivity))
  have hb : b ≤ x.den.log2 := hle b (hde ▸ (Nat.pow_le_pow_left (by decide) b).trans
    (Nat.le_mul_of_pos_left _ (by positivity)))
  refine List.find?_isSome.mpr ⟨x.den.log2, List.mem_range.mpr (Nat.lt_succ_self _), ?_⟩
  refine decide_eq_true (Nat.mod_eq_zero_of_dvd ?_)
  have hlog : (10 : Nat) ^ x.den.log2 = 2 ^ x.den.log2 * 5 ^ x.den.log2 := by rw [← Nat.mul_pow]
  have hdvd := Nat.mul_dvd_mul (Nat.pow_dvd_pow 2 ha) (Nat.pow_dvd_pow 5 hb)
  rwa [hde, ← hlog] at hdvd

theorem exists_tail (x : Decimal) : ∃ a cs, Tail x a cs ∧
    (string x).toList = (if x < 0 then ['-'] else []) ++ (Nat.toDigits 10 a ++ cs) := by
  have hsign : (if x < 0 then "-" else "").toList = if x < 0 then ['-'] else [] := by
    split <;> rfl
  cases hplaces : places x with
  | none => exact ⟨_, _, .ratio, by simp [string, hplaces, hsign, Nat.toList_repr]⟩
  | some k =>
    have hden := dvd_of_places hplaces
    cases k with
    | zero =>
      exact ⟨_, _, .whole (Nat.dvd_one.mp hden), by simp [string, hplaces, hsign, Nat.toList_repr]⟩
    | succ k =>
      exact ⟨_, _, .point (k + 1) k.succ_pos
        hden, by simp [string, hplaces, hsign, Nat.toList_repr]⟩

theorem ofDigitChars_leftpad (k : Nat) :
    Nat.ofDigitChars 10 (cs.leftpad k '0') 0 = Nat.ofDigitChars 10 cs 0 := by
  rw [List.leftpad, Nat.ofDigitChars_append, Nat.ofDigitChars_replicate_zero, Nat.mul_zero]

/-- A fraction of `k` places has `k` digits. -/
theorem length_fraction (hk : 0 < k) (n : Nat) :
    ((Nat.toDigits 10 (n % 10 ^ k)).leftpad k '0').length = k := by
  have hle : (Nat.toDigits 10 (n % 10 ^ k)).length ≤ k :=
    (Nat.length_toDigits_le_iff (by decide) hk).mpr (Nat.mod_lt _ (by positivity))
  simp [List.leftpad, hle]

/-- Digits and a point, a stroke or nothing behind them are told apart. -/
theorem split_digits (hcs : ∀ c ∈ cs.head?, c.isDigit = false) :
    (Nat.toDigits 10 a ++ cs).takeWhile Char.isDigit = Nat.toDigits 10 a ∧
      (Nat.toDigits 10 a ++ cs).dropWhile Char.isDigit = cs := by
  have hdigits : ∀ c ∈ Nat.toDigits 10 a, c.isDigit = true :=
    fun c hc => Nat.isDigit_of_mem_toDigits (by decide) (by decide) hc
  rw [List.takeWhile_append_of_pos hdigits, List.dropWhile_append_of_pos hdigits]
  cases cs with
  | nil => simp
  | cons c cs =>
    have hc : c.isDigit = false := hcs c rfl
    simp [hc]

theorem Tail.not_digit (h : Tail x a cs) : ∀ c ∈ cs.head?, c.isDigit = false := by
  intro c hc
  cases h with
  | whole => cases hc
  | point | ratio => cases hc; rfl

/-- The sign is read off the first character. -/
theorem head?_digits (a : Nat) (cs : List Char) : (Nat.toDigits 10 a ++ cs).head? ≠ some '-' := by
  obtain ⟨d, ds, hd⟩ := List.exists_cons_of_ne_nil (Nat.toDigits_ne_nil (n := a) (b := 10))
  have hdigit : d.isDigit = true :=
    Nat.isDigit_of_mem_toDigits (by decide) (by decide)
      (hd ▸ List.mem_cons_self : d ∈ Nat.toDigits 10 a)
  rw [hd, List.cons_append, List.head?_cons]
  rintro ⟨⟩
  cases hdigit

theorem abs_eq_div (x : Decimal) : |x| = (x.num.natAbs : Decimal) / x.den := by
  rw [Rat.abs_def, Rat.divInt_eq_div]
  rfl

/-- The number in units of the last place. -/
theorem abs_eq_units (hden : x.den ∣ 10 ^ k) :
    |x| = ((x.num.natAbs * (10 ^ k / x.den) : Nat) : Decimal) / 10 ^ k := by
  obtain ⟨m, hm⟩ := hden
  have hpos : 0 < x.den * m := hm ▸ Nat.pow_pos (by decide)
  have hne : (m : Decimal) ≠ 0 := by
    have := Nat.pos_of_mul_pos_left hpos
    positivity
  have hpow : (10 : Decimal) ^ k = x.den * m := by exact_mod_cast hm
  rw [abs_eq_div, hm, Nat.mul_div_cancel_left m x.den_pos, hpow, Nat.cast_mul,
    mul_div_mul_right _ _ hne]

theorem Tail.unsigned (h : Tail x a cs) : unsigned (Nat.toDigits 10 a ++ cs) = some |x| := by
  obtain ⟨htake, hdrop⟩ := split_digits h.not_digit (a := a)
  rw [Decimal.unsigned, htake, hdrop, Nat.ofDigitChars_ten_toDigits]
  cases h with
  | whole hden => rw [abs_eq_div, hden, Nat.cast_one, div_one]
  | ratio => simp only [abs_eq_div x, Nat.ofDigitChars_ten_toDigits]
  | point k hk hden =>
    simp only [abs_eq_units hden, length_fraction hk, ofDigitChars_leftpad,
      Nat.ofDigitChars_ten_toDigits]
    generalize x.num.natAbs * (10 ^ k / x.den) = n
    have hn : (n : Decimal) = (n / 10 ^ k : Nat) * 10 ^ k + (n % 10 ^ k : Nat) := by
      exact_mod_cast (Nat.div_add_mod' n (10 ^ k)).symm
    rw [hn, add_div, mul_div_cancel_right₀ _ (by positivity)]

theorem newFromString_string (x : Decimal) : newFromString (string x) = some x := by
  obtain ⟨a, cs, htail, htext⟩ := exists_tail x
  unfold newFromString
  by_cases hx : x < 0
  · rw [htext, if_pos hx, List.singleton_append, List.head?_cons, if_pos rfl, List.tail_cons,
      htail.unsigned, Option.map_some, abs_of_neg hx, neg_neg]
  · rw [htext, if_neg hx, List.nil_append, if_neg (head?_digits a cs), htail.unsigned,
      abs_of_nonneg (not_lt.mp hx)]

theorem string_injective : Function.Injective string := by
  intro x y h
  apply Option.some.inj
  rw [← newFromString_string x, h, newFromString_string]

end Decimal

end GoExchange
