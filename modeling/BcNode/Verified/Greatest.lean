import Mathlib.Data.List.MinMax
import Mathlib.Data.List.Sort
import Mathlib.Order.Nat

/-!
# The last and the first of the greatest

A program that sorts a list by a key and pops the last element takes one
particular element: its key is the greatest of the list, and among the elements
with that key it is the one that stood last, because the sort is stable.
`LastGreatest` says so without sorting, and `getLast?_insertionSort_iff` is the
bridge to the program.  `FirstGreatest` and `head?_insertionSort_iff` are the same
for a program that sorts the other way and takes the first element.
-/

namespace BcNode.Verified

section Greatest

variable {α : Type} (key : α → Nat)

/-- `top` has the greatest key of `list`, and no element after it ties with it. -/
def LastGreatest (list : List α) (top : α) : Prop :=
  ∃ before after, list = before ++ top :: after ∧
    (∀ a ∈ before, key a ≤ key top) ∧ ∀ a ∈ after, key a < key top

/-- `top` has the greatest key of `list`, and no element before it ties with it. -/
def FirstGreatest (list : List α) (top : α) : Prop :=
  ∃ before after, list = before ++ top :: after ∧
    (∀ a ∈ before, key a < key top) ∧ ∀ a ∈ after, key a ≤ key top

/-- The greatest key of a list; zero for the empty list. -/
def greatest (list : List α) : Nat := (list.map key).foldr max 0

variable {key} {list : List α} {top : α}

theorem LastGreatest.mem (h : LastGreatest key list top) : top ∈ list := by
  obtain ⟨before, after, rfl, -, -⟩ := h
  exact List.mem_append_right _ List.mem_cons_self

theorem LastGreatest.le (h : LastGreatest key list top) {a : α} (ha : a ∈ list) :
    key a ≤ key top := by
  obtain ⟨before, after, rfl, hbefore, hafter⟩ := h
  rcases List.mem_append.1 ha with ha | ha
  · exact hbefore a ha
  · rcases List.mem_cons.1 ha with rfl | ha
    · exact Nat.le_refl _
    · exact Nat.le_of_lt (hafter a ha)

theorem LastGreatest.cons {a : α} (h : LastGreatest key list top)
    (ha : key a ≤ key top) : LastGreatest key (a :: list) top := by
  obtain ⟨before, after, rfl, hbefore, hafter⟩ := h
  exact ⟨a :: before, after, rfl, List.forall_mem_cons.2 ⟨ha, hbefore⟩, hafter⟩

/-- Of two such elements the second is not after the first. -/
theorem eq_of_gap {before before' after after' gap : List α} {top' : α}
    (hleft : before' = before ++ gap) (hright : top :: after = gap ++ top' :: after')
    (hafter : ∀ a ∈ after, key a < key top) (hbefore' : ∀ a ∈ before', key a ≤ key top') :
    top = top' := by
  cases gap with
  | nil => exact (List.cons.inj hright).1
  | cons a gap =>
      obtain ⟨rfl, rfl⟩ := List.cons.inj hright
      have hle := hbefore' top (hleft ▸ List.mem_append_right _ List.mem_cons_self)
      have hlt := hafter top' (List.mem_append_right _ List.mem_cons_self)
      omega

/-- One list has one such element. -/
theorem LastGreatest.unique {top' : α} (h : LastGreatest key list top)
    (h' : LastGreatest key list top') : top = top' := by
  obtain ⟨before, after, rfl, hbefore, hafter⟩ := h
  obtain ⟨before', after', hlist, hbefore', hafter'⟩ := h'
  rcases List.append_eq_append_iff.1 hlist with
    ⟨gap, hleft, hright⟩ | ⟨gap, hleft, hright⟩
  · exact eq_of_gap hleft hright hafter hbefore'
  · exact (eq_of_gap hleft hright hafter' hbefore).symm

theorem FirstGreatest.reverse (h : FirstGreatest key list top) :
    LastGreatest key list.reverse top := by
  obtain ⟨before, after, rfl, hbefore, hafter⟩ := h
  refine ⟨after.reverse, before.reverse, by simp, ?_, ?_⟩
  · exact fun a ha => hafter a (List.mem_reverse.1 ha)
  · exact fun a ha => hbefore a (List.mem_reverse.1 ha)

theorem FirstGreatest.mem (h : FirstGreatest key list top) : top ∈ list :=
  List.mem_reverse.1 h.reverse.mem

theorem FirstGreatest.le (h : FirstGreatest key list top) {a : α} (ha : a ∈ list) :
    key a ≤ key top :=
  h.reverse.le (List.mem_reverse.2 ha)

theorem FirstGreatest.unique {top' : α} (h : FirstGreatest key list top)
    (h' : FirstGreatest key list top') : top = top' :=
  h.reverse.unique h'.reverse

theorem LastGreatest.greatest_eq (h : LastGreatest key list top) :
    greatest key list = key top := by
  refine Nat.le_antisymm ?_ ?_
  · refine List.max_le_of_forall_le (list.map key) (key top) fun k hk => ?_
    obtain ⟨a, ha, rfl⟩ := List.mem_map.1 hk
    exact h.le ha
  · exact List.le_max_of_le (List.mem_map_of_mem h.mem) (Nat.le_refl _)

/-- Sorting loses no element. -/
theorem eq_nil_of_insertionSort_eq_nil {r : α → α → Prop} [DecidableRel r]
    (h : list.insertionSort r = []) : list = [] := by
  have hperm := List.perm_insertionSort r list
  rw [h] at hperm
  exact hperm.symm.eq_nil

/-! ## What sorting puts first -/

theorem firstGreatest_of_insertionSort :
    (list.insertionSort fun a b => key b ≤ key a).head? = some top →
      FirstGreatest key list top := by
  induction list generalizing top with
  | nil => intro h; cases h
  | cons a list ih =>
      intro h
      rw [List.insertionSort_cons] at h
      cases hsorted : list.insertionSort fun a b => key b ≤ key a with
      | nil =>
          rw [hsorted] at h
          cases h
          rw [eq_nil_of_insertionSort_eq_nil hsorted]
          exact ⟨[], [], rfl, fun _ hb => absurd hb List.not_mem_nil,
            fun _ hb => absurd hb List.not_mem_nil⟩
      | cons b sorted =>
          have hrest : FirstGreatest key list b := ih (by rw [hsorted, List.head?_cons])
          rw [hsorted, List.orderedInsert_cons] at h
          by_cases hba : key b ≤ key a
          · -- The inserted element comes before what it ties with.
            rw [if_pos hba] at h
            cases h
            exact ⟨[], list, rfl, fun _ hc => absurd hc List.not_mem_nil,
              fun c hc => Nat.le_trans (hrest.le hc) hba⟩
          · rw [if_neg hba] at h
            cases h
            obtain ⟨before, after, rfl, hbefore, hafter⟩ := hrest
            exact ⟨a :: before, after, rfl,
              List.forall_mem_cons.2 ⟨Nat.lt_of_not_le hba, hbefore⟩, hafter⟩

/-- **A stable sort by a descending key begins with the first of the greatest.** -/
theorem head?_insertionSort_iff :
    (list.insertionSort fun a b => key b ≤ key a).head? = some top ↔
      FirstGreatest key list top := by
  refine ⟨firstGreatest_of_insertionSort, fun h => ?_⟩
  cases hhead : (list.insertionSort fun a b => key b ≤ key a).head? with
  | none =>
      have hnil := eq_nil_of_insertionSort_eq_nil (List.head?_eq_none_iff.1 hhead)
      exact absurd (hnil ▸ h.mem) List.not_mem_nil
  | some top' => rw [h.unique (firstGreatest_of_insertionSort hhead)]

/-! ## What sorting leaves at the end -/

/-- Inserting `a` before what is not below it puts `a` at the end only if everything
is. -/
theorem getLast?_orderedInsert {a : α} {sorted : List α} :
    (sorted.orderedInsert (fun a b => key a ≤ key b) a).getLast? = some top →
      (top = a ∧ ∀ b ∈ sorted, key b < key a) ∨
        (sorted.getLast? = some top ∧ ∃ b ∈ sorted, key a ≤ key b) := by
  induction sorted with
  | nil =>
      intro h
      exact .inl ⟨(Option.some.inj h).symm, fun _ hb => absurd hb List.not_mem_nil⟩
  | cons b sorted ih =>
      intro h
      rw [List.orderedInsert_cons] at h
      by_cases hab : key a ≤ key b
      · rw [if_pos hab, List.getLast?_cons_cons] at h
        exact .inr ⟨h, b, List.mem_cons_self, hab⟩
      · have hinserted : sorted.orderedInsert (fun a b => key a ≤ key b) a ≠ [] :=
          List.ne_nil_of_mem ((List.mem_orderedInsert _).2 (.inl rfl))
        rw [if_neg hab, List.getLast?_cons_of_ne_nil hinserted] at h
        rcases ih h with ⟨rfl, hbelow⟩ | ⟨hlast, c, hc, hac⟩
        · exact .inl ⟨rfl, List.forall_mem_cons.2 ⟨Nat.lt_of_not_le hab, hbelow⟩⟩
        · rw [List.getLast?_cons_of_ne_nil (List.ne_nil_of_mem hc)]
          exact .inr ⟨hlast, c, List.mem_cons_of_mem _ hc, hac⟩

theorem lastGreatest_of_insertionSort :
    (list.insertionSort fun a b => key a ≤ key b).getLast? = some top →
      LastGreatest key list top := by
  induction list generalizing top with
  | nil => intro h; cases h
  | cons a list ih =>
      intro h
      have hmem {b : α} : b ∈ list.insertionSort (fun a b => key a ≤ key b) ↔ b ∈ list :=
        (List.perm_insertionSort _ list).mem_iff
      rw [List.insertionSort_cons] at h
      rcases getLast?_orderedInsert h with ⟨rfl, hbelow⟩ | ⟨hlast, b, hb, hab⟩
      · exact ⟨[], list, rfl, fun _ hb => absurd hb List.not_mem_nil,
          fun b hb => hbelow b (hmem.2 hb)⟩
      · have hrest := ih hlast
        exact hrest.cons (Nat.le_trans hab (hrest.le (hmem.1 hb)))

/-- **A stable sort ends with the last of the greatest.** -/
theorem getLast?_insertionSort_iff :
    (list.insertionSort fun a b => key a ≤ key b).getLast? = some top ↔
      LastGreatest key list top := by
  refine ⟨lastGreatest_of_insertionSort, fun h => ?_⟩
  cases hlast : (list.insertionSort fun a b => key a ≤ key b).getLast? with
  | none =>
      have hnil := eq_nil_of_insertionSort_eq_nil (List.getLast?_eq_none_iff.1 hlast)
      exact absurd (hnil ▸ h.mem) List.not_mem_nil
  | some top' => rw [h.unique (lastGreatest_of_insertionSort hlast)]

end Greatest

end BcNode.Verified
