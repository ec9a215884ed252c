import BcNode.Js.Values
import BcNode.Verified.Split
import Mathlib.Data.List.Infix
import Mathlib.Data.List.TakeWhile

/-!
# Text

What is done with the text of database keys: looking for a part, taking it out, splitting
at dots, and reading a number.

`Number(text)`: the blanks at both ends go, and what is left is nothing, a numeral in one
of the bases, or a decimal one with a sign, a fraction and an exponent.  The decimal
text of a natural number comes out as that number: `number_toString`.

Like all numbers here the value is taken exact.
-/

namespace BcNode.Js

open BcNode.Verified

/-! ## Parts of a text -/

/-- `text.indexOf(part) > -1`. -/
def includes (text part : String) : Bool := decide (part.toList <:+: text.toList)

theorem includes_iff {text part : String} :
    includes text part = true ↔ ∃ before after, text = before ++ part ++ after := by
  rw [includes, decide_eq_true_iff]
  constructor
  · rintro ⟨before, after, h⟩
    refine ⟨String.ofList before, String.ofList after, String.toList_injective ?_⟩
    rw [String.toList_append, String.toList_append, String.toList_ofList,
      String.toList_ofList, h]
  · rintro ⟨before, after, rfl⟩
    rw [String.toList_append, String.toList_append]
    exact ⟨before.toList, after.toList, rfl⟩

/-- `text.replace(part, '')`, which takes out the first one. -/
def removeFirst (part : List Char) : List Char → List Char
  | [] => []
  | c :: cs =>
      if part.isPrefixOf (c :: cs) then (c :: cs).drop part.length
      else c :: removeFirst part cs

/-- There is less of a text without a part of it. -/
theorem length_removeFirst_lt {part cs : List Char} (hne : part ≠ [])
    (h : part <:+: cs) : (removeFirst part cs).length < cs.length := by
  induction cs with
  | nil => exact absurd (List.infix_nil.1 h) hne
  | cons c cs ih =>
      rw [removeFirst]
      split
      · have hpart := List.length_pos_iff.2 hne
        rw [List.length_drop, List.length_cons]
        omega
      · next hprefix =>
          rcases List.infix_cons_iff.1 h with hhead | htail
          · exact absurd (List.isPrefixOf_iff_prefix.2 hhead) hprefix
          · exact Nat.succ_lt_succ (ih htail)

/-- `text.split('.').pop()`. -/
def lastPart (cs : List Char) : List Char := ((Split.splitOn ['.'] cs).getLast?).getD []

/-! ## Numbers -/

/-- A number: `digits · 10 ^ exponent` with its sign, or none. -/
inductive Numeral where
  | nan
  | infinity (negative : Bool)
  | finite (negative : Bool) (digits : Nat) (exponent : Int)
  deriving DecidableEq, Repr

namespace Numeral

/-- `x > n`. -/
def gt : Numeral → Nat → Bool
  | .nan, _ => false
  | .infinity negative, _ => !negative
  | .finite true _ _, _ => false
  | .finite false digits (.ofNat e), n => decide (n < digits * Nat.pow 10 e)
  | .finite false digits (.negSucc e), n => decide (n * Nat.pow 10 (e + 1) < digits)

/-- `x < n`. -/
def lt : Numeral → Nat → Bool
  | .nan, _ => false
  | .infinity negative, _ => negative
  | .finite true digits _, n => decide (0 < digits ∨ 0 < n)
  | .finite false digits (.ofNat e), n => decide (digits * Nat.pow 10 e < n)
  | .finite false digits (.negSucc e), n => decide (digits < n * Nat.pow 10 (e + 1))

end Numeral

/-- White space and line ends. -/
def isBlank (c : Char) : Bool :=
  [9, 10, 11, 12, 13, 32, 160, 5760, 8192, 8193, 8194, 8195, 8196, 8197, 8198, 8199, 8200,
    8201, 8202, 8232, 8233, 8239, 8287, 12288, 65279].contains c.toNat

/-- `text.trim()`. -/
def trim (cs : List Char) : List Char :=
  ((cs.dropWhile isBlank).reverse.dropWhile isBlank).reverse

/-- The digits behind `0x`, `0o` and `0b`. -/
def numberInBase (base : Nat) (cs : List Char) : Numeral :=
  match cs.mapM hexDigit? with
  | some digits =>
      if digits ≠ [] ∧ ∀ d ∈ digits, d < base then
        .finite false (digits.foldl (fun acc d => base * acc + d) 0) 0
      else .nan
  | none => .nan

/-- An exponent, or nothing. -/
def exponent? : List Char → Option Int
  | [] => some 0
  | e :: cs =>
      if e = 'e' ∨ e = 'E' then
        let (negative, digits) := match cs with
          | '-' :: digits => (true, digits)
          | '+' :: digits => (false, digits)
          | digits => (false, digits)
        if digits = [] then none
        else (Decimal.digits? digits).map fun n => if negative then -(n : Int) else n
      else none

/-- A decimal numeral behind its sign. -/
def unsignedNumber (negative : Bool) (cs : List Char) : Numeral :=
  if cs = "Infinity".toList then .infinity negative
  else
    let whole := cs.takeWhile Char.isDigit
    let rest := cs.dropWhile Char.isDigit
    let fraction := match rest with
      | '.' :: more => more.takeWhile Char.isDigit
      | _ => []
    let rest := match rest with
      | '.' :: more => more.dropWhile Char.isDigit
      | _ => rest
    if whole ++ fraction = [] then .nan
    else match exponent? rest with
      | some exponent =>
          .finite negative (Nat.ofDigitChars 10 (whole ++ fraction) 0)
            (exponent - fraction.length)
      | none => .nan

/-- `Number(text)`. -/
def number (cs : List Char) : Numeral :=
  match trim cs with
  | [] => .finite false 0 0
  | '-' :: cs => unsignedNumber true cs
  | '+' :: cs => unsignedNumber false cs
  | '0' :: 'x' :: cs | '0' :: 'X' :: cs => numberInBase 16 cs
  | '0' :: 'o' :: cs | '0' :: 'O' :: cs => numberInBase 8 cs
  | '0' :: 'b' :: cs | '0' :: 'B' :: cs => numberInBase 2 cs
  | cs => unsignedNumber false cs

example : ["", " 12 ", "0x1F", "-3", "1.5e2", "latest", "12 3", "1e", "Infinity"].map
    (fun text => (number text.toList).gt 11) =
    [false, true, true, false, true, false, false, false, true] := by decide

/-- `parseInt(text, 10)`, which is `none` for `NaN`. -/
def parseInt (text : String) : Option Int :=
  let (negative, rest) := match text.toList.dropWhile isBlank with
    | '-' :: cs => (true, cs)
    | '+' :: cs => (false, cs)
    | cs => (false, cs)
  let digits := rest.takeWhile Char.isDigit
  if digits = [] then none
  else
    let n : Int := Nat.ofDigitChars 10 digits 0
    some (if negative then -n else n)

example : ["0", "1", " -12 peers", "007", "", "x1"].map parseInt =
    [some 0, some 1, some (-12), some 7, none, none] := by decide

/-! ## Decimal text -/

section Digits

variable {cs : List Char} (hdigits : ∀ c ∈ cs, c.isDigit = true)

include hdigits

theorem trim_of_digits : trim cs = cs := by
  have hblank (c : Char) (hc : c.isDigit = true) : isBlank c = false := by
    obtain ⟨hlow, hhigh⟩ := Char.isDigit_iff_toNat.1 hc
    have hlow : 48 ≤ c.toNat := hlow
    have hhigh : c.toNat ≤ 57 := hhigh
    simp only [isBlank, List.contains_eq_mem, List.mem_cons, List.not_mem_nil, or_false,
      decide_eq_false_iff_not]
    omega
  have hkeep (l : List Char) (hl : ∀ c ∈ l, c ∈ cs) : l.dropWhile isBlank = l := by
    cases l with
    | nil => rfl
    | cons c l =>
        rw [List.dropWhile_cons_of_neg]
        rw [hblank c (hdigits c (hl c List.mem_cons_self))]
        exact Bool.false_ne_true
  rw [trim, hkeep cs fun _ => id, hkeep cs.reverse fun _ => List.mem_reverse.1,
    List.reverse_reverse]

theorem unsignedNumber_of_digits (hne : cs ≠ []) :
    unsignedNumber false cs = .finite false (Nat.ofDigitChars 10 cs 0) 0 := by
  have hinfinity : cs ≠ "Infinity".toList := by
    rintro rfl
    exact absurd (hdigits 'I' (by decide)) (by decide)
  rw [unsignedNumber, if_neg hinfinity]
  simp only [List.takeWhile_eq_self_iff.2 hdigits, List.dropWhile_eq_nil_iff.2 hdigits,
    List.append_nil, if_neg hne, exponent?, List.length_nil]
  rfl

theorem number_of_digits (hne : cs ≠ []) :
    number cs = .finite false (Nat.ofDigitChars 10 cs 0) 0 := by
  have hother (c : Char) (hc : c ∈ cs) (hletter : c.isDigit = false) : False := by
    rw [hdigits c hc] at hletter
    cases hletter
  rw [number, trim_of_digits hdigits]
  split
  · exact absurd rfl hne
  all_goals first
    | exact unsignedNumber_of_digits hdigits hne
    | exact (hother _ List.mem_cons_self (by decide)).elim
    | exact (hother _ (List.mem_cons_of_mem _ List.mem_cons_self) (by decide)).elim

end Digits

/-- The decimal text of a number is that number. -/
theorem number_toString (n : Nat) : number (toString n).toList = .finite false n 0 := by
  have hlist : (toString n).toList = Nat.toDigits 10 n := by
    rw [Nat.toString_eq_repr, Nat.toList_repr]
  rw [number_of_digits fun c => Decimal.isDigit_of_mem_toString, hlist,
    Nat.ofDigitChars_ten_toDigits]
  rw [hlist]
  exact Nat.toDigits_ne_nil

theorem gt_number_toString (m n : Nat) :
    (number (toString m).toList).gt n = true ↔ n < m := by
  rw [number_toString]
  simp [Numeral.gt]

end BcNode.Js
