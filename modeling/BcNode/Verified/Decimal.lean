import BcNode.Verified.Positional

/-!
# Decimal text of integers

A reader for decimal numerals that inverts `toString`.  It is what a parser
of canonical integers has to do and nothing more: an optional minus sign
followed by digits.  Leading zeros are read, and the empty text reads as zero,
so `parse?` is a left inverse of `toString` without being injective.  `Numeral` is
the text of a natural number without leading zeros.

Everything here is about `String` and `Int` only; the digit-level facts come
from the core library's `Nat.toDigits` and `Nat.ofDigitChars`.
-/

namespace BcNode.Verified.Decimal

/-- The value of a list of decimal digits, `none` at the first other character. -/
def digits? (cs : List Char) : Option Nat :=
  if cs.all Char.isDigit then some (Nat.ofDigitChars 10 cs 0) else none

/-- Read an optional minus sign followed by decimal digits. -/
def parse? (s : String) : Option Int :=
  match s.toList with
  | '-' :: c :: cs => (digits? (c :: cs)).map fun n => -(n : Int)
  | cs => (digits? cs).map fun n => (n : Int)

theorem digits?_toDigits (n : Nat) : digits? (Nat.toDigits 10 n) = some n := by
  have hdigit : (Nat.toDigits 10 n).all Char.isDigit = true := by
    rw [List.all_eq_true]
    intro c hc
    exact Nat.isDigit_of_mem_toDigits (by decide) (by decide) hc
  rw [digits?, if_pos hdigit, Nat.ofDigitChars_ten_toDigits]

/-- A decimal numeral never opens with a minus sign. -/
theorem head_toDigits_ne_minus (n : Nat) (cs : List Char) :
    Nat.toDigits 10 n ≠ '-' :: cs := by
  intro h
  have hdigit : Char.isDigit '-' = true :=
    Nat.isDigit_of_mem_toDigits (b := 10) (n := n) (by decide) (by decide)
      (by rw [h]; exact List.mem_cons_self)
  exact absurd hdigit (by decide)

theorem parse?_toString_nat (n : Nat) : parse? (toString n) = some (n : Int) := by
  rw [parse?, Nat.toString_eq_repr, Nat.toList_repr]
  split
  · next c cs h => exact absurd h (head_toDigits_ne_minus n (c :: cs))
  · rw [digits?_toDigits]
    rfl

/-- Reading back the decimal text of an integer gives the integer. -/
@[simp] theorem parse?_toString (n : Int) : parse? (toString n) = some n := by
  cases n with
  | ofNat n => exact parse?_toString_nat n
  | negSucc n =>
      have htext : (toString (Int.negSucc n)).toList =
          '-' :: Nat.toDigits 10 (n + 1) := by
        rw [Int.toString_eq_repr]
        show ("-" ++ Nat.repr (n + 1)).toList = _
        rw [String.toList_append, Nat.toList_repr]
        rfl
      obtain ⟨c, cs, hdigits⟩ := List.exists_cons_of_ne_nil
        (Nat.toDigits_ne_nil : Nat.toDigits 10 (n + 1) ≠ [])
      have hread := digits?_toDigits (n + 1)
      rw [hdigits] at htext hread
      rw [parse?, htext]
      simp only [hread]
      rfl

/-- Distinct integers have distinct decimal text. -/
theorem toString_int_inj {m n : Int} : toString m = toString n ↔ m = n := by
  constructor
  · intro h
    have hparse := congrArg parse? h
    rw [parse?_toString, parse?_toString] at hparse
    exact Option.some.inj hparse
  · rintro rfl
    rfl

theorem toString_nat_inj {m n : Nat} : toString m = toString n ↔ m = n := by
  constructor
  · intro h
    have hparse := congrArg parse? h
    rw [parse?_toString_nat, parse?_toString_nat] at hparse
    exact Int.ofNat.inj (Option.some.inj hparse)
  · rintro rfl
    rfl

/-- Every character of a numeral is a digit. -/
theorem isDigit_of_mem_toString {n : Nat} {c : Char}
    (hc : c ∈ (toString n).toList) : c.isDigit = true := by
  rw [Nat.toString_eq_repr, Nat.toList_repr] at hc
  exact Nat.isDigit_of_mem_toDigits (by decide) (by decide) hc

/-- Every character of an integer's numeral is a digit or a minus sign. -/
theorem isDigit_of_mem_toString_int {n : Int} {c : Char}
    (hc : c ∈ (toString n).toList) : c = '-' ∨ c.isDigit = true := by
  cases n with
  | ofNat n => exact Or.inr (isDigit_of_mem_toString hc)
  | negSucc n =>
      have htext : (toString (Int.negSucc n)).toList = '-' :: (toString (n + 1)).toList := by
        rw [Int.toString_eq_repr]
        show ("-" ++ Nat.repr (n + 1)).toList = _
        rw [String.toList_append]
        rfl
      rw [htext] at hc
      rcases List.mem_cons.1 hc with rfl | hdigit
      · exact Or.inl rfl
      · exact Or.inr (isDigit_of_mem_toString hdigit)

/-! ## Numerals without leading zeros -/

/-- Decimal digits, at least one, and no zero before others. -/
structure Numeral (text : String) : Prop where
  ne_nil : text.toList ≠ []
  isDigit : ∀ c ∈ text.toList, c.isDigit = true
  head : ∀ rest, text.toList = '0' :: rest → rest = []

/-- The values of the digits of a text. -/
def digitValues (text : String) : List Nat :=
  text.toList.map fun c => c.toNat - '0'.toNat

variable {text : String}

theorem Numeral.canonical (h : Numeral text) :
    Positional.Canonical 10 (digitValues text) where
  ne_nil := fun hnil => h.ne_nil (List.map_eq_nil_iff.1 hnil)
  lt := by
    intro digit hdigit
    obtain ⟨c, hc, rfl⟩ := List.mem_map.1 hdigit
    have hrange : c.toNat ≤ 57 := (Char.isDigit_iff_toNat.1 (h.isDigit c hc)).2
    show c.toNat - 48 < 10
    omega
  head := by
    intro rest hrest
    obtain ⟨c, cs, hcs, hzero, rfl⟩ := List.map_eq_cons_iff.1 hrest
    have hrange : 48 ≤ c.toNat :=
      (Char.isDigit_iff_toNat.1 (h.isDigit c (hcs ▸ List.mem_cons_self))).1
    have hc : c = '0' := by
      refine Char.toNat_inj.1 ?_
      have hzero : c.toNat - 48 = 0 := hzero
      show c.toNat = 48
      omega
    rw [h.head cs (hc ▸ hcs), List.map_nil]

theorem Numeral.parse?_eq (h : Numeral text) :
    parse? text = some (Positional.value 10 (digitValues text) : Int) := by
  have hall : text.toList.all Char.isDigit = true := List.all_eq_true.2 h.isDigit
  have hdigits : digits? text.toList = some (Positional.value 10 (digitValues text)) := by
    rw [digits?, if_pos hall, Nat.ofDigitChars_eq_foldl, Positional.value, digitValues,
      List.foldl_map]
  rw [parse?]
  split
  · next c cs hminus =>
      have hdigit := h.isDigit '-' (hminus ▸ List.mem_cons_self)
      exact absurd hdigit (by decide)
  · rw [hdigits]
    rfl

/-- The digits of a number open with a zero only for the number zero. -/
theorem toDigits_head_zero (n : Nat) :
    ∀ rest, Nat.toDigits 10 n = '0' :: rest → rest = [] := by
  induction n using Nat.strongRecOn with
  | ind n ih =>
      intro rest h
      by_cases hn : n < 10
      · rw [Nat.toDigits_of_lt_base hn] at h
        exact (List.cons.inj h).2.symm
      · rw [Nat.toDigits_of_base_le (by decide) (by omega)] at h
        obtain ⟨c, cs, hcs⟩ := List.exists_cons_of_ne_nil
          (Nat.toDigits_ne_nil : Nat.toDigits 10 (n / 10) ≠ [])
        rw [hcs, List.cons_append] at h
        rw [(List.cons.inj h).1] at hcs
        -- The quotient would be zero.
        have hvalue : Nat.ofDigitChars 10 (Nat.toDigits 10 (n / 10)) 0 = n / 10 :=
          Nat.ofDigitChars_ten_toDigits
        rw [hcs, ih (n / 10) (by omega) cs hcs] at hvalue
        have hquotient : 0 = n / 10 := hvalue
        omega

/-- What `toString` writes for a natural number is a numeral. -/
theorem numeral_toString (n : Nat) : Numeral (toString n) where
  ne_nil := by
    rw [Nat.toString_eq_repr, Nat.toList_repr]
    exact Nat.toDigits_ne_nil
  isDigit := fun _ => isDigit_of_mem_toString
  head := by
    rw [Nat.toString_eq_repr, Nat.toList_repr]
    exact toDigits_head_zero n

end BcNode.Verified.Decimal
