import Mathlib.Data.List.Shortlex
import Mathlib.Tactic.Ring

/-!
# Positional numerals

Lists of digits, most significant first, and the number such a list stands for in
a base.  Numerals without leading zeros are in the order of the numbers they stand
for when they are ordered by length first and then digit by digit.  That order does
not speak of the base, so the same numerals read in a larger base come in the same
order (`value_lt_value_iff`).
-/

namespace BcNode.Verified.Positional

/-- The number a list of digits stands for. -/
def value (base : Nat) (digits : List Nat) : Nat :=
  digits.foldl (fun acc digit => base * acc + digit) 0

/-- A numeral in a base: it has a digit, its digits are below the base, and it opens
with a zero only if it is the zero. -/
structure Canonical (base : Nat) (digits : List Nat) : Prop where
  ne_nil : digits ≠ []
  lt : ∀ digit ∈ digits, digit < base
  head : ∀ rest, digits = 0 :: rest → rest = []

variable {base base' : Nat} {digits digits' : List Nat}

theorem foldl_eq (base : Nat) (digits : List Nat) (acc : Nat) :
    digits.foldl (fun acc digit => base * acc + digit) acc =
      acc * base ^ digits.length + value base digits := by
  induction digits generalizing acc with
  | nil => simp [value]
  | cons digit digits ih =>
      have hvalue : value base (digit :: digits) =
          (base * 0 + digit) * base ^ digits.length + value base digits := ih _
      rw [List.foldl_cons, ih, hvalue, List.length_cons, Nat.pow_succ]
      ring

/-- The leading digit, at its weight. -/
theorem value_cons (base digit : Nat) (digits : List Nat) :
    value base (digit :: digits) = digit * base ^ digits.length + value base digits := by
  have h : value base (digit :: digits) = (base * 0 + digit) * base ^ digits.length +
      value base digits := foldl_eq base digits (base * 0 + digit)
  rwa [Nat.mul_zero, Nat.zero_add] at h

theorem value_lt_pow (hlt : ∀ digit ∈ digits, digit < base) :
    value base digits < base ^ digits.length := by
  induction digits with
  | nil => simp [value]
  | cons digit digits ih =>
      have hdigit : digit + 1 ≤ base := hlt digit List.mem_cons_self
      have hrest := ih fun d hd => hlt d (List.mem_cons_of_mem _ hd)
      have hweight : (digit + 1) * base ^ digits.length ≤ base * base ^ digits.length :=
        Nat.mul_le_mul_right _ hdigit
      rw [value_cons, List.length_cons, Nat.pow_succ, Nat.mul_comm (base ^ _)]
      rw [Nat.add_mul, Nat.one_mul] at hweight
      omega

/-- Of two sums with the same weight the leading digits decide, and the rests only
where they are equal. -/
theorem lead_lt_iff {weight lead lead' rest rest' : Nat} (hrest : rest < weight)
    (hrest' : rest' < weight) :
    lead * weight + rest < lead' * weight + rest' ↔
      lead < lead' ∨ lead = lead' ∧ rest < rest' := by
  rcases Nat.lt_trichotomy lead lead' with hlt | rfl | hgt
  · have hle : (lead + 1) * weight ≤ lead' * weight := Nat.mul_le_mul_right _ hlt
    rw [Nat.add_mul, Nat.one_mul] at hle
    exact iff_of_true (by omega) (.inl hlt)
  · simp
  · have hle : (lead' + 1) * weight ≤ lead * weight := Nat.mul_le_mul_right _ hgt
    rw [Nat.add_mul, Nat.one_mul] at hle
    exact iff_of_false (by omega) (by omega)

/-- Numerals of one length are compared digit by digit. -/
theorem value_lt_iff_lex (hlength : digits.length = digits'.length)
    (hlt : ∀ digit ∈ digits, digit < base) (hlt' : ∀ digit ∈ digits', digit < base) :
    value base digits < value base digits' ↔ List.Lex (· < ·) digits digits' := by
  induction digits generalizing digits' with
  | nil =>
      rw [List.length_eq_zero_iff.1 hlength.symm]
      simp
  | cons digit digits ih =>
      cases digits' with
      | nil => cases hlength
      | cons digit' digits' =>
          have hlength := Nat.succ.inj hlength
          have hrest := fun d hd => hlt d (List.mem_cons_of_mem digit hd)
          have hrest' := fun d hd => hlt' d (List.mem_cons_of_mem digit' hd)
          have hbound := value_lt_pow hrest
          rw [hlength] at hbound
          rw [value_cons, value_cons, hlength, lead_lt_iff hbound (value_lt_pow hrest'),
            ih hlength hrest hrest', List.cons_lex_cons_iff]

/-- A longer numeral stands for a larger number. -/
theorem Canonical.value_lt_of_length_lt (h : Canonical base digits)
    (h' : Canonical base digits') (hlength : digits.length < digits'.length) :
    value base digits < value base digits' := by
  have hbound := value_lt_pow h.lt
  cases hdigits' : digits' with
  | nil => exact absurd hdigits' h'.ne_nil
  | cons digit rest =>
      rw [hdigits', List.length_cons] at hlength
      have hdigit : 0 < digit := by
        refine Nat.pos_of_ne_zero fun hzero => h.ne_nil ?_
        rw [h'.head rest (hzero ▸ hdigits'), List.length_nil] at hlength
        exact List.length_eq_zero_iff.1 (by omega)
      have hbase : 0 < base := Nat.zero_lt_of_lt
        (h'.lt digit (hdigits' ▸ List.mem_cons_self))
      calc value base digits
          < base ^ digits.length := hbound
        _ ≤ base ^ rest.length := Nat.pow_le_pow_right hbase (by omega)
        _ ≤ digit * base ^ rest.length := Nat.le_mul_of_pos_left _ hdigit
        _ ≤ value base (digit :: rest) := by
            rw [value_cons]
            exact Nat.le_add_right ..

/-- **Numerals are ordered by length first and then digit by digit.** -/
theorem Canonical.value_lt_iff_shortlex (h : Canonical base digits)
    (h' : Canonical base digits') :
    value base digits < value base digits' ↔ List.Shortlex (· < ·) digits digits' := by
  rw [List.shortlex_def]
  rcases Nat.lt_trichotomy digits.length digits'.length with hlt | heq | hgt
  · exact iff_of_true (h.value_lt_of_length_lt h' hlt) (.inl hlt)
  · rw [value_lt_iff_lex heq h.lt h'.lt]
    simp [heq]
  · have hvalue := h'.value_lt_of_length_lt h hgt
    exact iff_of_false (by omega) (by omega)

theorem Canonical.mono (h : Canonical base digits) (hbase : base ≤ base') :
    Canonical base' digits :=
  ⟨h.ne_nil, fun digit hdigit => Nat.lt_of_lt_of_le (h.lt digit hdigit) hbase, h.head⟩

/-- **Read in a larger base, numerals keep their order.** -/
theorem Canonical.value_lt_value_iff (hbase : base ≤ base') (h : Canonical base digits)
    (h' : Canonical base digits') :
    value base' digits < value base' digits' ↔ value base digits < value base digits' := by
  rw [(h.mono hbase).value_lt_iff_shortlex (h'.mono hbase), h.value_lt_iff_shortlex h']

end BcNode.Verified.Positional
