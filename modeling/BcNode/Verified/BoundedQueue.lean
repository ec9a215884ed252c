import Mathlib.Data.List.Basic
import Mathlib.Data.List.Infix
import Mathlib.Data.List.Nodup

/-!
# A bounded queue of keyed entries

Entries are pushed at the back of a queue and taken from it by their key.  Where a
push makes the queue longer than its capacity, the entry at the front is dropped.
`History` is the queue together with everything that was ever pushed and every key
that was ever taken.

An entry that was pushed and not taken is outstanding, whether the queue still has
it or not.  The queue is a final segment of the outstanding entries
(`Sound.suffix`), and `mem_kept_iff` says which ones it has: those that have, ever
since they were pushed, been among the `capacity` most recent outstanding ones.
Being among them now is not enough, because entries taken in the meantime leave
room that a dropped entry does not get back.
-/

namespace BcNode.Verified.BoundedQueue

variable {κ α : Type} [DecidableEq κ]

/-- The queue, with a record of what was pushed and which keys were taken. -/
structure History (κ α : Type) where
  kept : List α := []
  pushed : List α := []
  taken : List κ := []

/-- Drop the front entry of a list that has become too long. -/
def fit (capacity : Nat) (list : List α) : List α :=
  if capacity < list.length then list.tail else list

/-- One operation on the queue: none, the push of an entry with a new key, or the
taking of a key that the queue has. -/
inductive Step (key : α → κ) (capacity : Nat) : History κ α → History κ α → Prop where
  | idle (q : History κ α) : Step key capacity q q
  | push (q : History κ α) (a : α) (fresh : key a ∉ q.pushed.map key) :
      Step key capacity q
        { q with kept := fit capacity (q.kept ++ [a]), pushed := q.pushed ++ [a] }
  | take (q : History κ α) (k : κ) (found : k ∈ q.kept.map key) :
      Step key capacity q
        { q with kept := q.kept.filter (key · ≠ k), taken := q.taken ++ [k] }

/-- What was pushed and not taken. -/
def History.outstanding (key : α → κ) (q : History κ α) : List α :=
  q.pushed.filter (key · ∉ q.taken)

/-- The last `n` entries of a list. -/
def lastN (n : Nat) (list : List α) : List α := list.drop (list.length - n)

/-- The `capacity` most recent outstanding entries. -/
def History.recent (key : α → κ) (capacity : Nat) (q : History κ α) : List α :=
  lastN capacity (q.outstanding key)

/-- What holds of a queue that started out empty. -/
structure Sound (key : α → κ) (capacity : Nat) (q : History κ α) : Prop where
  distinct : (q.pushed.map key).Nodup
  taken_nodup : q.taken.Nodup
  taken_pushed : ∀ k ∈ q.taken, k ∈ q.pushed.map key
  suffix : q.kept <:+ q.outstanding key
  length_le : q.kept.length ≤ capacity

variable {key : α → κ} {capacity : Nat}

theorem History.mem_outstanding {q : History κ α} {a : α} :
    a ∈ q.outstanding key ↔ a ∈ q.pushed ∧ key a ∉ q.taken := by
  simp [History.outstanding]

/-- A final segment of a list is among its last entries if it is short enough. -/
theorem mem_lastN_of_suffix {n : Nat} {front list : List α} (h : front <:+ list)
    (hlen : front.length ≤ n) {a : α} (ha : a ∈ front) : a ∈ lastN n list := by
  obtain ⟨rest, rfl⟩ := h
  rw [lastN, List.length_append, List.drop_append_of_le_length (by omega)]
  exact List.mem_append_right _ ha

/-- A final segment of the right length is exactly the last entries. -/
theorem lastN_eq_of_suffix {n : Nat} {front list : List α} (h : front <:+ list)
    (hlen : front.length = n) : lastN n list = front := by
  obtain ⟨rest, rfl⟩ := h
  have hrest : (rest ++ front).length - n = rest.length := by
    rw [List.length_append]
    omega
  rw [lastN, hrest, List.drop_left]

theorem fit_suffix (capacity : Nat) (list : List α) : fit capacity list <:+ list := by
  unfold fit
  split
  · exact List.tail_suffix list
  · exact List.suffix_refl list

theorem sound_empty (key : α → κ) (capacity : Nat) :
    Sound key capacity ({} : History κ α) :=
  ⟨List.nodup_nil, List.nodup_nil, by simp, List.suffix_refl _, Nat.zero_le _⟩

/-! ## One operation -/

/-- A new entry is outstanding. -/
theorem Sound.outstanding_push {q : History κ α} (h : Sound key capacity q) {a : α}
    (fresh : key a ∉ q.pushed.map key) (kept : List α) :
    History.outstanding key { q with kept := kept, pushed := q.pushed ++ [a] } =
      q.outstanding key ++ [a] := by
  have hnew : key a ∉ q.taken := fun hk => fresh (h.taken_pushed _ hk)
  simp [History.outstanding, hnew]

/-- A taken key is outstanding no longer. -/
theorem History.outstanding_take (q : History κ α) (k : κ) (kept : List α) :
    History.outstanding key { q with kept := kept, taken := q.taken ++ [k] } =
      (q.outstanding key).filter (key · ≠ k) := by
  rw [History.outstanding, History.outstanding, List.filter_filter]
  apply List.filter_congr
  intro a _
  simp [not_or, and_comm]

/-- What is still kept has not been taken. -/
theorem Sound.not_taken {q : History κ α} (h : Sound key capacity q) {a : α}
    (ha : a ∈ q.kept) : key a ∉ q.taken :=
  (History.mem_outstanding.1 (h.suffix.subset ha)).2

theorem nodup_concat {β : Type} {list : List β} {b : β} (h : list.Nodup) (hb : b ∉ list) :
    (list ++ [b]).Nodup := by
  rw [← List.concat_eq_append]
  exact List.Nodup.concat hb h

theorem Sound.step {q q' : History κ α} (h : Sound key capacity q)
    (hstep : Step key capacity q q') : Sound key capacity q' := by
  cases hstep with
  | idle => exact h
  | push a fresh =>
      refine ⟨?_, h.taken_nodup, ?_, ?_, ?_⟩
      · rw [List.map_append]
        exact nodup_concat h.distinct fresh
      · intro k hk
        rw [List.map_append]
        exact List.mem_append_left _ (h.taken_pushed k hk)
      · rw [h.outstanding_push fresh]
        exact (fit_suffix _ _).trans
          ((List.suffix_append_inj_of_length_eq rfl).2 ⟨h.suffix, rfl⟩)
      · have hlen := h.length_le
        show (fit capacity (q.kept ++ [a])).length ≤ capacity
        unfold fit
        split
        · rw [List.length_tail, List.length_append, List.length_singleton]
          omega
        · omega
  | take k found =>
      obtain ⟨a, ha, rfl⟩ := List.mem_map.1 found
      refine ⟨h.distinct, nodup_concat h.taken_nodup (h.not_taken ha), ?_, ?_, ?_⟩
      · intro k hk
        rcases List.mem_append.1 hk with hk | hk
        · exact h.taken_pushed k hk
        · rw [List.mem_singleton.1 hk]
          exact List.mem_map_of_mem
            (History.mem_outstanding.1 (h.suffix.subset ha)).1
      · rw [History.outstanding_take]
        exact h.suffix.filter _
      · exact (List.length_filter_le _ _).trans h.length_le

/-- What is kept is recent. -/
theorem Sound.recent_of_kept {q : History κ α} (h : Sound key capacity q) {a : α}
    (ha : a ∈ q.kept) : a ∈ q.recent key capacity :=
  mem_lastN_of_suffix h.suffix h.length_le ha

/-- What is outstanding after an operation and was there before it was outstanding
then. -/
theorem Step.outstanding_of_pushed {q q' : History κ α}
    (hstep : Step key capacity q q') {a : α} (ha : a ∈ q'.outstanding key)
    (hpushed : a ∈ q.pushed) : a ∈ q.outstanding key := by
  have htaken := (History.mem_outstanding.1 ha).2
  refine History.mem_outstanding.2 ⟨hpushed, fun hk => htaken ?_⟩
  cases hstep with
  | idle => exact hk
  | push b fresh => exact hk
  | take k found => exact List.mem_append_left _ hk

theorem Step.pushed_mono {q q' : History κ α} (hstep : Step key capacity q q') {a : α}
    (ha : a ∈ q.pushed) : a ∈ q'.pushed := by
  cases hstep with
  | idle => exact ha
  | push b fresh => exact List.mem_append_left _ ha
  | take k found => exact ha

/-- No operation brings an old entry back. -/
theorem Step.kept_of_pushed {q q' : History κ α} (hstep : Step key capacity q q') {a : α}
    (ha : a ∈ q'.kept) (hpushed : a ∈ q.pushed) : a ∈ q.kept := by
  cases hstep with
  | idle => exact ha
  | push b fresh =>
      rcases List.mem_append.1 ((fit_suffix _ _).subset ha) with hkept | hnew
      · exact hkept
      · rw [List.mem_singleton.1 hnew] at hpushed
        exact absurd (List.mem_map_of_mem hpushed) fresh
  | take k found => exact (List.mem_filter.1 ha).1

/-- An outstanding entry that an operation loses is not recent after it. -/
theorem Sound.kept_or_lost {q q' : History κ α} (h : Sound key capacity q)
    (hstep : Step key capacity q q') {a : α} (ha : a ∈ q'.outstanding key)
    (hrecent : a ∈ q'.recent key capacity) (hkept : a ∈ q.pushed → a ∈ q.kept) :
    a ∈ q'.kept := by
  cases hstep with
  | idle => exact hkept (History.mem_outstanding.1 ha).1
  | push b fresh =>
      by_cases hfull : capacity < (q.kept ++ [b]).length
      · -- the queue is full, so it is exactly the recent entries
        have hlen := h.length_le
        have hafter := h.step (Step.push q b fresh)
        have hfit : (fit capacity (q.kept ++ [b])).length = capacity := by
          rw [fit, if_pos hfull, List.length_tail]
          rw [List.length_append, List.length_singleton] at hfull ⊢
          omega
        rw [History.recent, lastN_eq_of_suffix hafter.suffix hfit] at hrecent
        exact hrecent
      · show a ∈ fit capacity (q.kept ++ [b])
        rw [fit, if_neg hfull]
        rcases List.mem_append.1 (History.mem_outstanding.1 ha).1 with hold | hnew
        · exact List.mem_append_left _ (hkept hold)
        · exact List.mem_append_right _ hnew
  | take k found =>
      rw [History.outstanding_take, List.mem_filter] at ha
      exact List.mem_filter.2 ⟨hkept (History.mem_outstanding.1 ha.1).1, ha.2⟩

/-! ## Runs -/

/-- A queue that starts out empty and takes one operation after the other. -/
structure Run (key : α → κ) (capacity : Nat) (q : Nat → History κ α) : Prop where
  start : q 0 = {}
  next : ∀ n, Step key capacity (q n) (q (n + 1))

theorem Run.sound {q : Nat → History κ α} (h : Run key capacity q) (n : Nat) :
    Sound key capacity (q n) := by
  induction n with
  | zero => rw [h.start]; exact sound_empty key capacity
  | succ n ih => exact ih.step (h.next n)

/-- Pushed once, pushed for good; and what is kept in the end was kept at every
point since. -/
theorem Run.earlier {q : Nat → History κ α} (h : Run key capacity q) {n m : Nat}
    (hnm : n ≤ m) {a : α} (hpushed : a ∈ (q n).pushed) :
    a ∈ (q m).pushed ∧ (a ∈ (q m).kept → a ∈ (q n).kept) := by
  induction hnm with
  | refl => exact ⟨hpushed, id⟩
  | step _ ih =>
      exact ⟨(h.next _).pushed_mono ih.1,
        fun hkept => ih.2 ((h.next _).kept_of_pushed hkept ih.1)⟩

/-- **What the queue keeps.**  After any run an outstanding entry is in the queue
exactly if it has been among the most recent outstanding entries at every point
since it was pushed. -/
theorem Run.mem_kept_iff {q : Nat → History κ α} (h : Run key capacity q) (n : Nat) {a : α}
    (ha : a ∈ (q n).outstanding key) :
    a ∈ (q n).kept ↔
      ∀ m ≤ n, a ∈ (q m).pushed → a ∈ (q m).recent key capacity := by
  constructor
  · intro hkept m hm hpushed
    exact (h.sound m).recent_of_kept ((h.earlier hm hpushed).2 hkept)
  · intro hrecent
    induction n with
    | zero =>
        rw [h.start] at ha
        exact absurd (History.mem_outstanding.1 ha).1 (by simp)
    | succ n ih =>
        refine (h.sound n).kept_or_lost (h.next n) ha
          (hrecent (n + 1) (Nat.le_refl _) (History.mem_outstanding.1 ha).1) ?_
        intro hpushed
        exact ih ((h.next n).outstanding_of_pushed ha hpushed)
          fun m hm => hrecent m (Nat.le_succ_of_le hm)

end BcNode.Verified.BoundedQueue
