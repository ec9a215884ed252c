import Mathlib.Data.List.Basic

/-!
# Splitting at a separator

`splitOn sep text` cuts a list at every occurrence of a separator of any length,
from left to right and without overlaps; `List.intercalate` is the other
direction.  Text protocols that join their parts with a marker come back intact
when the first element of the marker occurs in no part: `splitOn_intercalate`.
-/

namespace BcNode.Verified.Split

variable {α : Type} [DecidableEq α]

/-- The parts of a list, while `skip` elements of a separator are still to be
passed over. -/
def go (sep : List α) : List α → Nat → List (List α)
  | [], _ => [[]]
  | _ :: text, skip + 1 => go sep text skip
  | c :: text, 0 =>
      if sep.isPrefixOf (c :: text) then [] :: go sep text (sep.length - 1)
      else (go sep text 0).modifyHead (c :: ·)

/-- The parts of a list between the occurrences of a separator. -/
def splitOn (sep text : List α) : List (List α) := go sep text 0

omit [DecidableEq α] in
/-- An element that does not occur in the first part stands right behind it, or further
back. -/
theorem eq_or_exists_of_append_cons {a : α} {part rest before after : List α}
    (hpart : a ∉ part) (h : part ++ a :: rest = before ++ a :: after) :
    before = part ∨ ∃ between, before = part ++ a :: between ∧
      rest = between ++ a :: after := by
  rcases List.append_eq_append_iff.1 h with ⟨z, hbefore, hrest⟩ | ⟨z, hz, hrest⟩
  · cases z with
    | nil => exact .inl (by rw [hbefore, List.append_nil])
    | cons c between =>
        obtain ⟨rfl, hbetween⟩ := List.cons.inj hrest
        exact .inr ⟨between, hbefore, hbetween⟩
  · cases z with
    | nil => exact .inl (by rw [hz, List.append_nil])
    | cons c z =>
        refine absurd ?_ hpart
        rw [hz, ← (List.cons.inj hrest).1]
        exact List.mem_append_right _ List.mem_cons_self

/-- What is left of a separator is passed over. -/
theorem go_append_of_length (sep rest text : List α) :
    go sep (rest ++ text) rest.length = go sep text 0 := by
  induction rest with
  | nil => rfl
  | cons c rest ih => exact ih

variable {a : α} {as : List α}

/-- Where the separator cannot start, one element goes to the first part. -/
theorem go_cons_of_ne {c : α} (hc : c ≠ a) (text : List α) :
    go (a :: as) (c :: text) 0 = (go (a :: as) text 0).modifyHead (c :: ·) := by
  have hprefix : ((a :: as).isPrefixOf (c :: text)) = false := by
    simp [List.isPrefixOf, hc.symm]
  rw [go, hprefix]
  rfl

/-- At a separator a part ends. -/
theorem splitOn_separator (text : List α) :
    splitOn (a :: as) ((a :: as) ++ text) = [] :: splitOn (a :: as) text := by
  have hprefix : (a :: as).isPrefixOf (a :: (as ++ text)) = true := by
    rw [List.isPrefixOf_iff_prefix]
    exact ⟨text, rfl⟩
  rw [splitOn, List.cons_append, go, if_pos hprefix, List.length_cons, Nat.add_sub_cancel,
    go_append_of_length]
  rfl

/-- A part in which the separator cannot start stays in one piece. -/
theorem splitOn_append {part : List α} (hpart : a ∉ part) (text : List α) :
    splitOn (a :: as) (part ++ text) =
      (splitOn (a :: as) text).modifyHead (part ++ ·) := by
  induction part with
  | nil =>
      rw [List.nil_append]
      exact (congrFun List.modifyHead_id _).symm
  | cons c part ih =>
      have hc : c ≠ a := fun h => hpart (h ▸ List.mem_cons_self)
      have hrest : a ∉ part := fun h => hpart (List.mem_cons_of_mem _ h)
      rw [splitOn, List.cons_append, go_cons_of_ne hc]
      have hstep := ih hrest
      rw [splitOn] at hstep
      rw [hstep, List.modifyHead_modifyHead]
      rfl

theorem splitOn_of_notMem {part : List α} (hpart : a ∉ part) :
    splitOn (a :: as) part = [part] := by
  have h : splitOn (a :: as) (part ++ []) = _ := splitOn_append hpart []
  rw [List.append_nil] at h
  rw [h]
  simp [splitOn, go]

/-- **Joining and splitting.**  Parts in which the separator cannot start come
back as they were. -/
theorem splitOn_intercalate {parts : List (List α)} (hne : parts ≠ [])
    (hparts : ∀ part ∈ parts, a ∉ part) :
    splitOn (a :: as) ((a :: as).intercalate parts) = parts := by
  induction parts with
  | nil => exact absurd rfl hne
  | cons part rest ih =>
      have hpart := hparts part List.mem_cons_self
      cases rest with
      | nil =>
          rw [List.intercalate_singleton]
          exact splitOn_of_notMem hpart
      | cons next rest =>
          have hrest := ih (List.cons_ne_nil _ _) fun p hp =>
            hparts p (List.mem_cons_of_mem _ hp)
          rw [List.intercalate_cons_cons, List.append_assoc, splitOn_append hpart,
            splitOn_separator, hrest]
          simp

end BcNode.Verified.Split
