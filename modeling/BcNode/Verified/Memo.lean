import Mathlib.Logic.Function.Basic

/-!
# Memo tables

A function memoised under a key of its argument.  The key may be absent (the
argument is never memoised) and the computation may fail (nothing is memoised,
the answer is a fallback).

A table is right for an argument when whatever it holds under the argument's key
is the argument's own value.  Keys need not determine values, so a table can be
wrong; `run_values_iff` says exactly when a whole run of calls never notices.
-/

namespace BcNode.Verified

/-- A function to be memoised. -/
structure Memo (α κ β : Type) where
  key : α → Option κ
  compute : α → Option β
  fallback : β

namespace Memo

variable {α κ β : Type} [DecidableEq κ] (m : Memo α κ β)

/-- The value of an argument, computed directly. -/
def value (a : α) : β := (m.compute a).getD m.fallback

/-- What has been memoised. -/
abbrev Table (κ β : Type) := κ → Option β

/-- One call: the answer and the table after it. -/
def call (table : Table κ β) (a : α) : β × Table κ β :=
  match m.key a with
  | none => (m.value a, table)
  | some k =>
      match table k with
      | some b => (b, table)
      | none =>
          match m.compute a with
          | some b => (b, Function.update table k (some b))
          | none => (m.fallback, table)

/-- A run of calls, one after another. -/
def run : Table κ β → List α → List β × Table κ β
  | table, [] => ([], table)
  | table, a :: as =>
      let (b, table) := m.call table a
      let (bs, table) := run table as
      (b :: bs, table)

@[simp] theorem run_nil (table : Table κ β) : m.run table [] = ([], table) := rfl

theorem run_cons_fst (table : Table κ β) (a : α) (as : List α) :
    (m.run table (a :: as)).1 =
      (m.call table a).1 :: (m.run (m.call table a).2 as).1 := rfl

/-! ## The four ways a call can go -/

theorem call_unkeyed {table : Table κ β} {a : α} (hkey : m.key a = none) :
    m.call table a = (m.value a, table) := by
  simp only [call, hkey]

theorem call_hit {table : Table κ β} {a : α} {k : κ} {b : β} (hkey : m.key a = some k)
    (htable : table k = some b) : m.call table a = (b, table) := by
  simp only [call, hkey, htable]

theorem call_miss {table : Table κ β} {a : α} {k : κ} {b : β} (hkey : m.key a = some k)
    (htable : table k = none) (hcompute : m.compute a = some b) :
    m.call table a = (b, Function.update table k (some b)) := by
  simp only [call, hkey, htable, hcompute]

theorem call_failed {table : Table κ β} {a : α} {k : κ} (hkey : m.key a = some k)
    (htable : table k = none) (hcompute : m.compute a = none) :
    m.call table a = (m.fallback, table) := by
  simp only [call, hkey, htable, hcompute]

/-- A call after another one answers as it would have without it, or as the other
one did. -/
theorem call_after (table : Memo.Table κ β) (a b : α) :
    (m.call (m.call table a).2 b).1 = (m.call table b).1 ∨
      (m.call (m.call table a).2 b).1 = (m.call table a).1 := by
  have hsame (h : (m.call table a).2 = table) :
      (m.call (m.call table a).2 b).1 = (m.call table b).1 := by rw [h]
  cases hkey : m.key a with
  | none => exact Or.inl (hsame (by rw [m.call_unkeyed hkey]))
  | some k =>
      cases htable : table k with
      | some v => exact Or.inl (hsame (by rw [m.call_hit hkey htable]))
      | none =>
          cases hcompute : m.compute a with
          | none => exact Or.inl (hsame (by rw [m.call_failed hkey htable hcompute]))
          | some v =>
              rw [m.call_miss hkey htable hcompute]
              by_cases hb : m.key b = some k
              · right
                rw [m.call_hit hb (Function.update_self ..)]
              · left
                cases hkey' : m.key b with
                | none => rw [m.call_unkeyed hkey', m.call_unkeyed hkey']
                | some k' =>
                    have hne : k' ≠ k := by
                      rintro rfl
                      exact hb hkey'
                    simp only [call, hkey', Function.update_of_ne hne]
                    cases table k' with
                    | some v' => rfl
                    | none => cases m.compute b <;> rfl

/-- A call under another key changes nothing for a call. -/
theorem call_after_of_ne {table : Memo.Table κ β} {a b : α}
    (h : ∀ k, m.key a = some k → m.key b ≠ some k) :
    (m.call (m.call table a).2 b).1 = (m.call table b).1 := by
  have hsame (htable : (m.call table a).2 = table) :
      (m.call (m.call table a).2 b).1 = (m.call table b).1 := by rw [htable]
  cases hkey : m.key a with
  | none => exact hsame (by rw [m.call_unkeyed hkey])
  | some k =>
      cases htable : table k with
      | some value => exact hsame (by rw [m.call_hit hkey htable])
      | none =>
          cases hcompute : m.compute a with
          | none => exact hsame (by rw [m.call_failed hkey htable hcompute])
          | some value =>
              rw [m.call_miss hkey htable hcompute]
              cases hkey' : m.key b with
              | none => rw [m.call_unkeyed hkey', m.call_unkeyed hkey']
              | some k' =>
                  have hne : k' ≠ k := fun heq => h k hkey (heq ▸ hkey')
                  simp only [call, hkey', Function.update_of_ne hne]
                  cases table k' with
                  | some value' => rfl
                  | none => cases m.compute b <;> rfl

omit [DecidableEq κ] in
theorem value_of_compute {a : α} {b : β} (h : m.compute a = some b) : m.value a = b := by
  rw [value, h, Option.getD_some]

/-! ## Right tables -/

/-- The table holds nothing wrong under the key of `a`. -/
def Right (table : Table κ β) (a : α) : Prop :=
  ∀ k, m.key a = some k → ∀ b, table k = some b → b = m.value a

/-- What is memoised for `a` is no wrong answer for `a'`. -/
def Compatible (a a' : α) : Prop :=
  ∀ k, m.key a = some k → m.key a' = some k → ∀ b, m.compute a = some b → b = m.value a'

/-- A call answers correctly exactly when the table is right for its argument. -/
theorem call_value_iff (table : Table κ β) (a : α) :
    (m.call table a).1 = m.value a ↔ m.Right table a := by
  cases hkey : m.key a with
  | none => simp [m.call_unkeyed hkey, Right, hkey]
  | some k =>
      cases htable : table k with
      | some b => simp [m.call_hit hkey htable, Right, hkey, htable]
      | none =>
          cases hcompute : m.compute a with
          | some b =>
              simp [m.call_miss hkey htable hcompute, Right, hkey, htable,
                m.value_of_compute hcompute]
          | none =>
              simp [m.call_failed hkey htable hcompute, Right, hkey, htable, value,
                hcompute]

omit [DecidableEq κ] in
/-- A hit that is right for `a` makes the table as right for the others of its
key as `a` is compatible with them. -/
private theorem compatible_of_hit {table : Table κ β} {a a' : α} {k : κ} {b : β}
    (ha : m.Right table a) (hkey : m.key a = some k) (htable : table k = some b)
    (hright : m.Right table a') : m.Compatible a a' := by
  intro k' hk hk' b' hcompute
  obtain rfl : k = k' := Option.some.inj (hkey.symm.trans hk)
  have hb : b = b' := (ha k hkey b htable).trans (m.value_of_compute hcompute)
  rw [← hb]
  exact hright k hk' b htable

/-- A stored value is right where `a` is compatible. -/
private theorem right_update_iff {table : Table κ β} {a a' : α} {k : κ} {b : β}
    (hkey : m.key a = some k) (htable : table k = none)
    (hcompute : m.compute a = some b) :
    m.Right (Function.update table k (some b)) a' ↔
      m.Right table a' ∧ m.Compatible a a' := by
  constructor
  · intro hright
    constructor
    · intro k' hk' b' hb'
      have hne : k' ≠ k := by
        rintro rfl
        rw [htable] at hb'
        cases hb'
      exact hright k' hk' b' (by rw [Function.update_of_ne hne, hb'])
    · intro k' hk hk' b' hcompute'
      obtain rfl : k = k' := Option.some.inj (hkey.symm.trans hk)
      obtain rfl : b = b' := Option.some.inj (hcompute.symm.trans hcompute')
      exact hright k hk' b (Function.update_self ..)
  · rintro ⟨hright, hcompatible⟩ k' hk' b' hb'
    by_cases hne : k' = k
    · subst hne
      rw [Function.update_self] at hb'
      obtain rfl : b = b' := Option.some.inj hb'
      exact hcompatible k' hkey hk' b hcompute
    · rw [Function.update_of_ne hne] at hb'
      exact hright k' hk' b' hb'

/-- What a correct call leaves is right for exactly the arguments the table was
right for and the call's own one is compatible with. -/
theorem right_call_iff {table : Table κ β} {a : α} (ha : m.Right table a) (a' : α) :
    m.Right (m.call table a).2 a' ↔ m.Right table a' ∧ m.Compatible a a' := by
  cases hkey : m.key a with
  | none =>
      rw [m.call_unkeyed hkey]
      simp [Compatible, hkey]
  | some k =>
      cases htable : table k with
      | some b =>
          rw [m.call_hit hkey htable]
          exact (and_iff_left_of_imp (m.compatible_of_hit ha hkey htable)).symm
      | none =>
          cases hcompute : m.compute a with
          | none =>
              rw [m.call_failed hkey htable hcompute]
              simp [Compatible, hcompute]
          | some b =>
              rw [m.call_miss hkey htable hcompute]
              exact m.right_update_iff hkey htable hcompute

/-- **Runs.**  Every call of a run answers correctly exactly when the initial
table is right for all arguments and no earlier one is incompatible with a
later one. -/
theorem run_values_iff (table : Table κ β) (as : List α) :
    (m.run table as).1 = as.map m.value ↔
      (∀ a ∈ as, m.Right table a) ∧ as.Pairwise m.Compatible := by
  induction as generalizing table with
  | nil => simp
  | cons a as ih =>
      have hstep : (m.run table (a :: as)).1 = (a :: as).map m.value ↔
          m.Right table a ∧ (∀ a' ∈ as, m.Right (m.call table a).2 a') ∧
            as.Pairwise m.Compatible := by
        rw [← m.call_value_iff, ← ih, m.run_cons_fst, List.map_cons, List.cons.injEq]
      rw [hstep, List.forall_mem_cons, List.pairwise_cons]
      constructor
      · rintro ⟨ha, hright, hpairs⟩
        have hsplit a' (h : a' ∈ as) := (m.right_call_iff ha a').1 (hright a' h)
        exact ⟨⟨ha, fun a' h => (hsplit a' h).1⟩, fun a' h => (hsplit a' h).2, hpairs⟩
      · rintro ⟨⟨ha, hright⟩, hcompatible, hpairs⟩
        refine ⟨ha, ?_, hpairs⟩
        intro a' h
        exact (m.right_call_iff ha a').2 ⟨hright a' h, hcompatible a' h⟩

end Memo

end BcNode.Verified
