import Mathlib.Algebra.GroupWithZero.Nat

/-!
# Runs of a step function

A run folds a step function over a list of events.  `Along` says of a run that
each of its steps, in the state in which it is taken, meets a condition, and
`Along.invariant`, `Along.iff_invariant`, `Along.iff_monotone` and `Along.cost_le` are
the inductions that go with it.
-/

namespace BcNode.Verified

variable {σ ε : Type} {step : σ → ε → σ} {C : σ → ε → Prop}

/-- Every step of the run meets the condition. -/
def Along (step : σ → ε → σ) (C : σ → ε → Prop) : σ → List ε → Prop
  | _, [] => True
  | s, event :: events => C s event ∧ Along step C (step s event) events

instance Along.decidable [∀ s event, Decidable (C s event)] :
    ∀ (s : σ) (events : List ε), Decidable (Along step C s events)
  | _, [] => .isTrue trivial
  | s, event :: events =>
      have := Along.decidable (step s event) events
      inferInstanceAs (Decidable (_ ∧ _))

theorem Along.of_forall (hC : ∀ s event, C s event) (s : σ) (events : List ε) :
    Along step C s events := by
  induction events generalizing s with
  | nil => trivial
  | cons event events ih => exact ⟨hC s event, ih (step s event)⟩

/-- A condition on the events alone. -/
theorem Along.of_mem {P : ε → Prop} {events : List ε} (h : ∀ event ∈ events, P event)
    (s : σ) : Along step (fun _ event => P event) s events := by
  induction events generalizing s with
  | nil => trivial
  | cons event events ih =>
      exact ⟨h event List.mem_cons_self,
        ih (fun e he => h e (List.mem_cons_of_mem _ he)) (step s event)⟩

theorem Along.mono {C' : σ → ε → Prop} (hC : ∀ s event, C s event → C' s event)
    {s : σ} {events : List ε} (h : Along step C s events) : Along step C' s events := by
  induction events generalizing s with
  | nil => trivial
  | cons event events ih => exact ⟨hC s event h.1, ih h.2⟩

theorem Along.and {C' : σ → ε → Prop} {s : σ} {events : List ε}
    (h : Along step C s events) (h' : Along step C' s events) :
    Along step (fun s event => C s event ∧ C' s event) s events := by
  induction events generalizing s with
  | nil => trivial
  | cons event events ih => exact ⟨⟨h.1, h'.1⟩, ih h.2 h'.2⟩

/-- A run that has come only part of the way meets the condition as well. -/
theorem Along.take {s : σ} {events : List ε} (h : Along step C s events) (k : Nat) :
    Along step C s (events.take k) := by
  induction events generalizing s k with
  | nil => simpa using h
  | cons event events ih =>
      cases k with
      | zero => trivial
      | succ k => exact ⟨h.1, ih h.2 k⟩

/-- What every step that meets the condition keeps holds at the end. -/
theorem Along.invariant {I : σ → Prop}
    (hstep : ∀ s event, I s → C s event → I (step s event))
    {s : σ} {events : List ε} (h : Along step C s events) (hs : I s) :
    I (events.foldl step s) := by
  induction events generalizing s with
  | nil => exact hs
  | cons event events ih => exact ih h.2 (hstep s event hs h.1)

/-- What every step keeps holds at the end of every run. -/
theorem foldl_invariant {I : σ → Prop} (hstep : ∀ s event, I s → I (step s event))
    {s : σ} (hs : I s) (events : List ε) : I (events.foldl step s) :=
  Along.invariant (C := fun _ _ => True) (fun s event h _ => hstep s event h)
    (.of_forall (fun _ _ => trivial) s events) hs

/-- An invariant that speaks of the events so far. -/
theorem foldl_history {I : List ε → σ → Prop}
    (hstep : ∀ past s event, I past s → I (past ++ [event]) (step s event))
    {s : σ} (hs : I [] s) (events : List ε) : I events (events.foldl step s) := by
  suffices h : ∀ past s, I past s → I (past ++ events) (events.foldl step s) from h [] s hs
  intro past s hs
  induction events generalizing past s with
  | nil => simpa using hs
  | cons event events ih =>
      rw [List.append_cons]
      exact ih _ _ (hstep past s event hs)

/-- The same, of the state that the events so far lead to. -/
theorem foldl_reached {I : List ε → σ → Prop} {s : σ} (hs : I [] s)
    (hstep : ∀ past event, I past (past.foldl step s) →
      I (past ++ [event]) (step (past.foldl step s) event))
    (events : List ε) : I events (events.foldl step s) := by
  have h : events.foldl step s = events.foldl step s ∧ I events (events.foldl step s) := by
    refine foldl_history (I := fun past s' => s' = past.foldl step s ∧ I past s') ?_
      ⟨rfl, hs⟩ events
    rintro past s' event ⟨rfl, h⟩
    refine ⟨?_, hstep past event h⟩
    rw [List.foldl_append]
    rfl
  exact h.2

/-- What holds at the start of a run and not at its end has been lost in one step. -/
theorem foldl_turns {I : σ → Prop} {s : σ} (hs : I s) {events : List ε}
    (hend : ¬ I (events.foldl step s)) :
    ∃ before event after, events = before ++ event :: after ∧ I (before.foldl step s) ∧
      ¬ I (step (before.foldl step s) event) := by
  induction events generalizing s with
  | nil => exact absurd hs hend
  | cons event events ih =>
      by_cases hnext : I (step s event)
      · obtain ⟨before, turn, after, hevents, hbefore, hturn⟩ := ih hnext hend
        exact ⟨event :: before, turn, after, congrArg (event :: ·) hevents, hbefore, hturn⟩
      · exact ⟨[], event, events, rfl, hs, hnext⟩

/-- The run has been in a state that satisfies `P`. -/
def Sometime (step : σ → ε → σ) (s : σ) (P : σ → Prop) (events : List ε) : Prop :=
  ∃ k, P ((events.take k).foldl step s)

theorem Sometime.now {s : σ} {P : σ → Prop} {events : List ε}
    (h : P (events.foldl step s)) : Sometime step s P events :=
  ⟨events.length, by rwa [List.take_length]⟩

theorem Sometime.append {s : σ} {P : σ → Prop} {events : List ε}
    (h : Sometime step s P events) (more : List ε) :
    Sometime step s P (events ++ more) := by
  obtain ⟨k, hk⟩ := h
  refine ⟨min k events.length, ?_⟩
  rw [List.take_append_of_le_length (Nat.min_le_right _ _), List.take_eq_take_min.symm]
  exact hk

/-- What a run costs is no more than what it starts with and is given on the way, if that
is so of each of its steps. -/
theorem Along.cost_le {I : σ → Prop} (potential : σ → Nat) (cost credit : ε → Nat)
    (hkeep : ∀ s event, I s → C s event → I (step s event))
    (hstep : ∀ s event, I s → C s event →
      potential (step s event) + cost event ≤ potential s + credit event)
    {s : σ} {events : List ε} (h : Along step C s events) (hs : I s) :
    (events.map cost).sum ≤ potential s + (events.map credit).sum := by
  induction events generalizing s with
  | nil => exact Nat.zero_le _
  | cons event events ih =>
      have hhead := hstep s event hs h.1
      have hrest := ih h.2 (hkeep s event hs h.1)
      rw [List.map_cons, List.sum_cons, List.map_cons, List.sum_cons]
      omega

/-- What a list costs when one of its elements is replaced. -/
theorem sum_map_set {α : Type} (cost : α → Nat) {list : List α} {i : Nat} {a : α}
    (h : list[i]? = some a) (b : α) :
    ((list.set i b).map cost).sum + cost a = (list.map cost).sum + cost b := by
  induction list generalizing i with
  | nil => cases h
  | cons c list ih =>
      cases i with
      | zero =>
          cases h
          simp only [List.set_cons_zero, List.map_cons, List.sum_cons]
          omega
      | succ i =>
          have hrest := ih (i := i) h
          simp only [List.set_cons_succ, List.map_cons, List.sum_cons]
          omega

/-- And when one is taken out. -/
theorem sum_map_eraseIdx {α : Type} (cost : α → Nat) {list : List α} {i : Nat} {a : α}
    (h : list[i]? = some a) :
    ((list.eraseIdx i).map cost).sum + cost a = (list.map cost).sum := by
  induction list generalizing i with
  | nil => cases h
  | cons c list ih =>
      cases i with
      | zero =>
          cases h
          simp only [List.eraseIdx_cons_zero, List.map_cons, List.sum_cons]
          omega
      | succ i =>
          have hrest := ih (i := i) h
          simp only [List.eraseIdx_cons_succ, List.map_cons, List.sum_cons]
          omega

/-- If the condition is exactly what a step needs to keep `I`, a run meets it
throughout exactly when `I` holds throughout. -/
theorem Along.iff_invariant {I : σ → Prop}
    (hstep : ∀ s event, I s → (I (step s event) ↔ C s event))
    {s : σ} {events : List ε} (hs : I s) :
    Along step C s events ↔ ∀ k, I ((events.take k).foldl step s) := by
  induction events generalizing s with
  | nil => simpa [Along] using hs
  | cons event events ih =>
      constructor
      · rintro ⟨hC, hrest⟩ k
        have hnext := (hstep s event hs).2 hC
        cases k with
        | zero => exact hs
        | succ k => exact (ih hnext).1 hrest k
      · intro hall
        have hnext : I (step s event) := hall 1
        exact ⟨(hstep s event hs).1 hnext, (ih hnext).2 fun k => hall (k + 1)⟩

/-- The same where a step needs the condition only in states that satisfy `T`, which
every step keeps. -/
theorem Along.iff_invariant_within {T I : σ → Prop}
    (hkeep : ∀ s event, T s → T (step s event))
    (hstep : ∀ s event, T s → I s → (I (step s event) ↔ C s event))
    {s : σ} {events : List ε} (hT : T s) (hs : I s) :
    Along step C s events ↔ ∀ k, I ((events.take k).foldl step s) := by
  have hboth : Along step C s events ↔
      ∀ k, T ((events.take k).foldl step s) ∧ I ((events.take k).foldl step s) :=
    Along.iff_invariant (I := fun s => T s ∧ I s)
      (fun s event h => (and_iff_right (hkeep s event h.1)).trans (hstep s event h.1 h.2))
      ⟨hT, hs⟩
  exact hboth.trans
    (forall_congr' fun k => and_iff_right (foldl_invariant hkeep hT (events.take k)))

/-- If the condition is exactly what a step needs to go up in `R`, a run meets it
throughout exactly when each of its states is above the earlier ones. -/
theorem Along.iff_monotone {R : σ → σ → Prop} (hrefl : ∀ s, R s s)
    (htrans : ∀ s t u, R s t → R t u → R s u)
    (hstep : ∀ s event, R s (step s event) ↔ C s event)
    {s : σ} {events : List ε} :
    Along step C s events ↔
      ∀ i j, i ≤ j → R ((events.take i).foldl step s) ((events.take j).foldl step s) := by
  induction events generalizing s with
  | nil => simp [Along, hrefl]
  | cons event events ih =>
      constructor
      · rintro ⟨hC, hrest⟩ i j hij
        have hlater := ih.1 hrest
        cases j with
        | zero =>
            rw [Nat.le_zero.1 hij]
            exact hrefl s
        | succ j =>
            cases i with
            | zero => exact htrans _ _ _ ((hstep s event).2 hC) (hlater 0 j (Nat.zero_le j))
            | succ i => exact hlater i j (Nat.le_of_succ_le_succ hij)
      · intro hall
        refine ⟨(hstep s event).1 (hall 0 1 (Nat.zero_le 1)), ih.2 fun i j hij => ?_⟩
        exact hall (i + 1) (j + 1) (Nat.succ_le_succ hij)

end BcNode.Verified
