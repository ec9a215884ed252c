import BcNode.Verified.Run
import BcNode.Verified.Task

/-!
# Interleavings

A `Pool` is a list of tasks over one shared state.  `Pool.exec` runs it under an
explicit schedule, one action per entry, which is how all interleavings are
quantified over.

The rules: `exec_map` is the parallel rule of rely–guarantee reasoning,
`exec_first_writer` is for tasks that all prepare the same kind of write and of
which only the first is sure to go through with it, and `exec_sectioned` is for
schedules that leave a task alone between two actions that belong together.

To show that some schedule goes wrong, `exec_finish_except` runs everybody else to
the end and `Pair` follows two tasks step by step from there.
`all_run_of_finished` carries what a pool does over to `Promise.all`.
-/

namespace BcNode.Verified

/-- Tasks in flight over one shared state. -/
structure Pool (σ α : Type) where
  state : σ
  tasks : List (Task σ α)

namespace Pool

variable {σ α : Type}

/-- Let task `i` perform its next action; a finished or missing task does
nothing. -/
def step (p : Pool σ α) (i : Nat) : Pool σ α :=
  match p.tasks[i]? with
  | some (.act update next) => ⟨update p.state, p.tasks.set i (next p.state)⟩
  | _ => p

/-- Run a schedule: the entry `i` lets task `i` perform its next action. -/
def exec (p : Pool σ α) (schedule : List Nat) : Pool σ α :=
  schedule.foldl step p

/-- Every task has finished. -/
def Finished (p : Pool σ α) : Prop := ∀ t ∈ p.tasks, ∃ a, t = .done a

instance (t : Task σ α) : Decidable (∃ a, t = .done a) :=
  match t with
  | .done a => isTrue ⟨a, rfl⟩
  | .act _ _ => isFalse (by rintro ⟨a, h⟩; cases h)

instance (p : Pool σ α) : Decidable p.Finished :=
  inferInstanceAs (Decidable (∀ t ∈ p.tasks, ∃ a, t = .done a))

@[simp] theorem exec_append (p : Pool σ α) (schedule schedule' : List Nat) :
    p.exec (schedule ++ schedule') = (p.exec schedule).exec schedule' :=
  List.foldl_append

theorem length_step (p : Pool σ α) (i : Nat) : (p.step i).tasks.length = p.tasks.length := by
  rw [step]
  split
  · exact List.length_set
  · rfl

theorem step_act {p : Pool σ α} {i : Nat} {update : σ → σ} {next : σ → Task σ α}
    (hi : p.tasks[i]? = some (.act update next)) :
    p.step i = ⟨update p.state, p.tasks.set i (next p.state)⟩ := by
  rw [step, hi]

/-- A property of pools that every single step preserves holds after every
schedule. -/
theorem exec_invariant {I : Pool σ α → Prop}
    (hstep : ∀ p i, I p → I (p.step i)) {p : Pool σ α} (hp : I p)
    (schedule : List Nat) : I (p.exec schedule) :=
  foldl_invariant hstep hp schedule

theorem length_exec (p : Pool σ α) (schedule : List Nat) :
    (p.exec schedule).tasks.length = p.tasks.length :=
  @exec_invariant σ α (fun p' => p'.tasks.length = p.tasks.length)
    (fun p' i h => (length_step p' i).trans h) p rfl schedule

/-- All tasks are safe for one relation, each with its own postcondition. -/
def AllSafe (R : σ → σ → Prop) (Q : Nat → α → σ → Prop) (p : Pool σ α) : Prop :=
  ∀ i t, p.tasks[i]? = some t → Task.Safe R (Q i) t p.state

/-- **The parallel rule.**  Tasks that are safe for a common relation stay
safe under every interleaving: each action is a step the others rely on. -/
theorem step_allSafe {R : σ → σ → Prop} (hrefl : ∀ s, R s s)
    (htrans : ∀ s₁ s₂ s₃, R s₁ s₂ → R s₂ s₃ → R s₁ s₃)
    {Q : Nat → α → σ → Prop} (p : Pool σ α) (i : Nat)
    (hp : AllSafe R Q p) : AllSafe R Q (p.step i) := by
  rw [step]
  split
  · next update next hi =>
      obtain ⟨hact, hnext⟩ := hp i _ hi p.state (hrefl _)
      intro j t hj
      rcases (Task.getElem?_set_iff hi).1 hj with ⟨rfl, rfl⟩ | ⟨_, hold⟩
      · exact hnext
      · exact (hp j t hold).rely htrans hact
  · exact hp

/-- Whatever the schedule, safe tasks end in a state of the relation, still safe. -/
theorem exec_allSafe {R : σ → σ → Prop} (hrefl : ∀ s, R s s)
    (htrans : ∀ s₁ s₂ s₃, R s₁ s₂ → R s₂ s₃ → R s₁ s₃)
    {Q : Nat → α → σ → Prop} {p : Pool σ α} (hp : AllSafe R Q p)
    (schedule : List Nat) :
    R p.state (p.exec schedule).state ∧ AllSafe R Q (p.exec schedule) := by
  refine @exec_invariant σ α (fun p' => R p.state p'.state ∧ AllSafe R Q p') ?_ p
    ⟨hrefl _, hp⟩ schedule
  rintro p' i ⟨hs, hp'⟩
  refine ⟨?_, step_allSafe hrefl htrans p' i hp'⟩
  rw [step]
  split
  · next update next hi => exact htrans _ _ _ hs (hp' i _ hi p'.state (hrefl _)).1
  · exact hs

/-- The tasks of one function, each promising something of its argument: every
schedule ends in a state of the relation, and one that finishes with all promises
kept. -/
theorem exec_map {R : σ → σ → Prop} (hrefl : ∀ s, R s s)
    (htrans : ∀ s₁ s₂ s₃, R s₁ s₂ → R s₂ s₃ → R s₁ s₃) {ι : Type} {Q : ι → σ → Prop}
    {xs : List ι} {f : ι → Task σ α} {s : σ}
    (h : ∀ x ∈ xs, Task.Safe R (fun _ s' => Q x s') (f x) s) (schedule : List Nat) :
    R s (exec ⟨s, xs.map f⟩ schedule).state ∧
      ((exec ⟨s, xs.map f⟩ schedule).Finished →
        ∀ x ∈ xs, Q x (exec ⟨s, xs.map f⟩ schedule).state) := by
  have hstart : AllSafe R (fun i _ s' => ∀ x, xs[i]? = some x → Q x s') ⟨s, xs.map f⟩ :=
    Task.Safe.getElem?_map h
  obtain ⟨hrel, hsafe⟩ := exec_allSafe hrefl htrans hstart schedule
  refine ⟨hrel, ?_⟩
  intro hfinished x hx
  obtain ⟨i, hi⟩ := List.mem_iff_getElem?.1 hx
  have hlt : i < (exec ⟨s, xs.map f⟩ schedule).tasks.length := by
    rw [length_exec, List.length_map]
    exact (List.getElem?_eq_some_iff.1 hi).1
  have hget := List.getElem?_eq_getElem hlt
  obtain ⟨a, ha⟩ := hfinished _ (List.mem_of_getElem? hget)
  rw [ha] at hget
  exact hsafe i _ hget _ (hrefl _) x hi

/-! ## Schedules that finish -/

/-- A task that keeps being scheduled ends as it does alone. -/
theorem exec_finish {p : Pool σ α} {i : Nat} {t : Task σ α} (hi : p.tasks[i]? = some t) :
    ∃ schedule,
      p.exec schedule = ⟨(t.run p.state).2, p.tasks.set i (.done (t.run p.state).1)⟩ := by
  have hset {ts : List (Task σ α)} {u : Task σ α} (hu : ts[i]? = some u) : ts.set i u = ts := by
    obtain ⟨hlt, rfl⟩ := List.getElem?_eq_some_iff.1 hu
    exact List.set_getElem_self hlt
  induction t generalizing p with
  | done a =>
      refine ⟨[], ?_⟩
      rw [Task.run_done, hset hi]
      rfl
  | act update next ih =>
      have hnext : (p.step i).tasks[i]? = some (next p.state) := by
        rw [step_act hi]
        exact (Task.getElem?_set_iff hi).2 (Or.inl ⟨rfl, rfl⟩)
      obtain ⟨schedule, hexec⟩ := ih p.state hnext
      refine ⟨i :: schedule, ?_⟩
      show (p.step i).exec schedule = _
      rw [hexec, step_act hi, List.set_set, Task.run_act]

/-- Of the first `n` tasks all have finished but those to be kept, and these are
where they were. -/
structure FinishedBut (keep : List Nat) (before : Pool σ α) (n : Nat) (p : Pool σ α) :
    Prop where
  kept : ∀ i ∈ keep, p.tasks[i]? = before.tasks[i]?
  finished : ∀ i < n, i ∉ keep → ∀ t, p.tasks[i]? = some t → ∃ a, t = .done a

theorem FinishedBut.succ {keep : List Nat} {before p : Pool σ α} {n : Nat}
    (h : FinishedBut keep before n p) :
    ∃ schedule, FinishedBut keep before (n + 1) (p.exec schedule) := by
  have hbefore {i : Nat} (hi : i < n + 1) (hin : i ≠ n) : i < n :=
    Nat.lt_of_le_of_ne (Nat.le_of_lt_succ hi) hin
  by_cases hn : n ∈ keep
  · refine ⟨[], h.kept, ?_⟩
    intro i hi hout
    exact h.finished i (hbefore hi fun heq => hout (heq ▸ hn)) hout
  · cases ht : p.tasks[n]? with
    | none =>
        refine ⟨[], h.kept, ?_⟩
        intro i hi hout t hit
        have hin : i ≠ n := by
          rintro rfl
          rw [exec, List.foldl_nil, ht] at hit
          cases hit
        exact h.finished i (hbefore hi hin) hout t hit
    | some t =>
        obtain ⟨schedule, hexec⟩ := exec_finish ht
        refine ⟨schedule, ?_, ?_⟩
        · intro i hi
          have hin : n ≠ i := fun heq => hn (heq ▸ hi)
          rw [hexec, List.getElem?_set_ne hin, h.kept i hi]
        · intro i hi hout u hu
          rw [hexec] at hu
          rcases (Task.getElem?_set_iff ht).1 hu with ⟨_, rfl⟩ | ⟨hin, hold⟩
          · exact ⟨_, rfl⟩
          · exact h.finished i (hbefore hi hin) hout u hold

/-- Some schedule finishes all tasks but those to be kept, and these it leaves
where they are. -/
theorem exec_finish_except (keep : List Nat) (p : Pool σ α) : ∃ schedule,
    (∀ i ∈ keep, (p.exec schedule).tasks[i]? = p.tasks[i]?) ∧
    ∀ i ∉ keep, ∀ t, (p.exec schedule).tasks[i]? = some t → ∃ a, t = .done a := by
  have hupto (n : Nat) : ∃ schedule, FinishedBut keep p n (p.exec schedule) := by
    induction n with
    | zero => exact ⟨[], fun _ _ => rfl, fun i hi => absurd hi (Nat.not_lt_zero i)⟩
    | succ n ih =>
        obtain ⟨schedule, h⟩ := ih
        obtain ⟨more, hmore⟩ := h.succ
        rw [← exec_append] at hmore
        exact ⟨schedule ++ more, hmore⟩
  obtain ⟨schedule, h⟩ := hupto p.tasks.length
  refine ⟨schedule, h.kept, ?_⟩
  intro i hout t hi
  have hlt := (List.getElem?_eq_some_iff.1 hi).1
  rw [length_exec] at hlt
  exact h.finished i hlt hout t hi

/-! ## Two tasks among others -/

/-- Tasks `i` and `j` of the pool and its state; the others are as in `rest`. -/
structure Pair (rest : Pool σ α) (i j : Nat) (s : σ) (t u : Task σ α) (p : Pool σ α) :
    Prop where
  state : p.state = s
  first : p.tasks[i]? = some t
  second : p.tasks[j]? = some u
  others : ∀ k, k ≠ i → k ≠ j → p.tasks[k]? = rest.tasks[k]?

theorem Pair.step_first {rest p : Pool σ α} {i j : Nat} (hij : i ≠ j) {s : σ}
    {update : σ → σ} {next : σ → Task σ α} {u : Task σ α}
    (h : Pair rest i j s (.act update next) u p) :
    Pair rest i j (update s) (next s) u (p.step i) := by
  rw [step_act h.first, h.state]
  constructor
  · rfl
  · exact (Task.getElem?_set_iff h.first).2 (Or.inl ⟨rfl, rfl⟩)
  · exact (List.getElem?_set_ne hij).trans h.second
  · exact fun k hi hj => (List.getElem?_set_ne (Ne.symm hi)).trans (h.others k hi hj)

theorem Pair.symm {rest p : Pool σ α} {i j : Nat} {s : σ} {t u : Task σ α}
    (h : Pair rest i j s t u p) : Pair rest j i s u t p :=
  ⟨h.state, h.second, h.first, fun k hj hi => h.others k hi hj⟩

theorem Pair.step_second {rest p : Pool σ α} {i j : Nat} (hij : i ≠ j) {s : σ}
    {update : σ → σ} {next : σ → Task σ α} {t : Task σ α}
    (h : Pair rest i j s t (.act update next) p) :
    Pair rest i j (update s) t (next s) (p.step j) :=
  (h.symm.step_first (Ne.symm hij)).symm

/-- The pool has finished when both have and the others had before. -/
theorem Pair.finished {rest p : Pool σ α} {i j : Nat} {s : σ} {a b : α}
    (h : Pair rest i j s (.done a) (.done b) p)
    (hrest : ∀ k ∉ [i, j], ∀ t, rest.tasks[k]? = some t → ∃ c, t = .done c) :
    p.Finished := by
  intro t ht
  obtain ⟨k, hk⟩ := List.mem_iff_getElem?.1 ht
  by_cases hki : k = i
  · rw [hki, h.first] at hk
    exact ⟨a, (Option.some.inj hk).symm⟩
  by_cases hkj : k = j
  · rw [hkj, h.second] at hk
    exact ⟨b, (Option.some.inj hk).symm⟩
  rw [h.others k hki hkj] at hk
  exact hrest k (by simp [hki, hkj]) t hk

/-! ## `Promise.all` as a pool -/

theorem Finished.sequence_run {p : Pool σ α} (h : p.Finished) :
    ((Task.sequence p.tasks).run p.state).2 = p.state := by
  rw [Task.sequence_run_of_leaves]
  intro t ht
  obtain ⟨a, rfl⟩ := h t ht
  trivial

/-- `Promise.all` in an order that finishes the pool of its tasks. -/
theorem all_run_of_finished {order : List Nat} {ts : List (Task σ α)} {s : σ}
    (h : (exec ⟨s, ts⟩ order).Finished) :
    ((Task.all order ts).run s).2 = (exec ⟨s, ts⟩ order).state := by
  induction order generalizing ts s with
  | nil => exact Finished.sequence_run (p := ⟨s, ts⟩) h
  | cons i order ih =>
      have hexec : exec ⟨s, ts⟩ (i :: order) = (step ⟨s, ts⟩ i).exec order := rfl
      rw [hexec] at h ⊢
      rw [Task.all]
      split
      · next update next hi =>
          rw [@step_act σ α ⟨s, ts⟩ i update next hi] at h ⊢
          exact ih h
      · next hnone =>
          have hsame : step (⟨s, ts⟩ : Pool σ α) i = ⟨s, ts⟩ := by
            rw [step]
            split
            · next update next hi => exact absurd hi (hnone update next)
            · rfl
          rw [hsame] at h ⊢
          exact ih h

/-! ## The first writer -/

/-- The task is at an action that, taken in `s₀`, makes it safe for `Q`. -/
def Writes (R : σ → σ → Prop) (Q : α → σ → Prop) (s₀ : σ) (t : Task σ α) : Prop :=
  ∃ update next, t = .act update next ∧ Task.Safe R Q (next s₀) (update s₀)

/-- Either nobody has written yet, and every task still only reads towards its
first write, or some task has and is safe for `Q` from then on. -/
def Racing (R : σ → σ → Prop) (Q : α → σ → Prop) (s₀ : σ) (p : Pool σ α) : Prop :=
  (p.state = s₀ ∧ p.tasks ≠ [] ∧
    ∀ t ∈ p.tasks, Task.ReadsUntil (Writes R Q s₀) s₀ t) ∨
  ∃ (i : Nat) (t : Task σ α), p.tasks[i]? = some t ∧ Task.Safe R Q t p.state

theorem step_racing {R : σ → σ → Prop} (hrefl : ∀ s, R s s)
    (htrans : ∀ s₁ s₂ s₃, R s₁ s₂ → R s₂ s₃ → R s₁ s₃)
    {Q : α → σ → Prop} {s₀ : σ} (p : Pool σ α) (i : Nat)
    (hsafe : AllSafe R (fun _ _ _ => True) p) (hp : Racing R Q s₀ p) :
    Racing R Q s₀ (p.step i) := by
  rw [step]
  split
  case h_2 => exact hp
  case h_1 update next hi =>
    have hself : (p.tasks.set i (next p.state))[i]? = some (next p.state) :=
      (Task.getElem?_set_iff hi).2 (Or.inl ⟨rfl, rfl⟩)
    rcases hp with ⟨hstate, hne, hreads⟩ | ⟨j, t, hj, ht⟩
    · rcases hreads _ (List.mem_of_getElem? hi) with hwrites | ⟨hsame, hrest⟩
      · -- the first write: its task is safe for `Q` from here on
        obtain ⟨update', next', heq, hnext⟩ := hwrites
        cases heq
        rw [hstate] at hself ⊢
        exact Or.inr ⟨i, next s₀, hself, hnext⟩
      · refine Or.inl ⟨?_, ?_, ?_⟩
        · rw [hstate]
          exact hsame
        · intro hnil
          dsimp only at hnil
          rw [hnil] at hself
          cases hself
        · intro t ht
          rcases List.mem_or_eq_of_mem_set ht with hmem | rfl
          · exact hreads t hmem
          · rw [hstate]
            exact hrest
    · right
      by_cases hij : i = j
      · subst hij
        rw [hi] at hj
        cases hj
        exact ⟨i, next p.state, hself, (ht p.state (hrefl _)).2⟩
      · have hact : R p.state (update p.state) := (hsafe i _ hi p.state (hrefl _)).1
        exact ⟨j, t, (Task.getElem?_set_iff hi).2 (Or.inr ⟨Ne.symm hij, hj⟩),
          ht.rely htrans hact⟩

/-- **The first-writer rule.**  Every task reads until it writes, the first write
leaves its task safe for `Q`, and all tasks are safe for the relation throughout.
Then `Q` holds once all have finished. -/
theorem exec_first_writer {R : σ → σ → Prop} (hrefl : ∀ s, R s s)
    (htrans : ∀ s₁ s₂ s₃, R s₁ s₂ → R s₂ s₃ → R s₁ s₃)
    {Q : α → σ → Prop} {p : Pool σ α} (hne : p.tasks ≠ [])
    (hsafe : AllSafe R (fun _ _ _ => True) p)
    (hreads : ∀ t ∈ p.tasks, Task.ReadsUntil (Writes R Q p.state) p.state t)
    (schedule : List Nat) (hfinished : (p.exec schedule).Finished) :
    ∃ a, Q a (p.exec schedule).state := by
  have hrun : AllSafe R (fun _ _ _ => True) (p.exec schedule) ∧
      Racing R Q p.state (p.exec schedule) :=
    @exec_invariant σ α
      (fun p' => AllSafe R (fun _ _ _ => True) p' ∧ Racing R Q p.state p')
      (fun p' i h => ⟨step_allSafe hrefl htrans p' i h.1,
        step_racing hrefl htrans p' i h.1 h.2⟩)
      p ⟨hsafe, Or.inl ⟨rfl, hne, hreads⟩⟩ schedule
  rcases hrun.2 with ⟨_, hne', hreads'⟩ | ⟨i, t, hi, ht⟩
  · obtain ⟨t, rest, hcons⟩ := List.exists_cons_of_ne_nil hne'
    have hmem : t ∈ (p.exec schedule).tasks := by
      rw [hcons]
      exact List.mem_cons_self
    obtain ⟨a, rfl⟩ := hfinished t hmem
    exact (hreads' _ hmem).elim
  · obtain ⟨a, rfl⟩ := hfinished t (List.mem_of_getElem? hi)
    exact ⟨a, ht _ (hrefl _)⟩

/-! ## Sections -/

/-- A task inside a section is the one that acts. -/
def Undisturbed (Inside : Task σ α → Prop) (p : Pool σ α) (i : Nat) : Prop :=
  ∀ (j : Nat) (t : Task σ α), p.tasks[j]? = some t → Inside t → i = j

/-- The invariant holds and nobody is inside a section, or one task is and the
state is the one it opened the section in. -/
def InSections (I : σ → Prop) (Inside : Task σ α → Prop) (p : Pool σ α) : Prop :=
  (I p.state ∧ ∀ (k : Nat) (u : Task σ α),
    p.tasks[k]? = some u → Task.Sectioned I Inside u none) ∨
  ∃ (j : Nat) (t : Task σ α), p.tasks[j]? = some t ∧ Inside t ∧
    Task.Sectioned I Inside t (some p.state) ∧
    ∀ (k : Nat) (u : Task σ α), k ≠ j → p.tasks[k]? = some u →
      Task.Sectioned I Inside u none

theorem step_inSections {I : σ → Prop} {Inside : Task σ α → Prop} (p : Pool σ α)
    (i : Nat) (hp : InSections I Inside p) (hi : Undisturbed Inside p i) :
    InSections I Inside (p.step i) := by
  rw [step]
  split
  case h_2 => exact hp
  case h_1 update next hact =>
    -- back in the invariant: the task that acted, and the others
    have hclosed (hI : I (update p.state))
        (hnext : Task.Sectioned I Inside (next p.state) none)
        (hrest : ∀ (k : Nat) (u : Task σ α), k ≠ i → p.tasks[k]? = some u →
          Task.Sectioned I Inside u none) :
        InSections I Inside ⟨update p.state, p.tasks.set i (next p.state)⟩ := by
      refine Or.inl ⟨hI, ?_⟩
      intro k u hu
      rcases (Task.getElem?_set_iff hact).1 hu with ⟨rfl, rfl⟩ | ⟨hk, hold⟩
      · exact hnext
      · exact hrest k u hk hold
    rcases hp with ⟨hI, hall⟩ | ⟨j, t, hj, hinside, ht, hrest⟩
    · rcases hall i _ hact p.state hI with ⟨hkept, hnext⟩ | ⟨hinside, hopen⟩
      · exact hclosed hkept hnext fun k u _ hu => hall k u hu
      · refine Or.inr ⟨i, next p.state, (Task.getElem?_set_iff hact).2 (Or.inl ⟨rfl, rfl⟩),
          hinside, hopen, ?_⟩
        intro k u hk hu
        rcases (Task.getElem?_set_iff hact).1 hu with ⟨rfl, _⟩ | ⟨_, hold⟩
        · exact absurd rfl hk
        · exact hall k u hold
    · obtain rfl : i = j := hi j t hj hinside
      rw [hact] at hj
      cases hj
      exact hclosed ht.1 ht.2 hrest

/-- **The section rule.**  If no task acts while another is inside a section, the
invariant is back once all have finished. -/
theorem exec_sectioned {I : σ → Prop} {Inside : Task σ α → Prop} {p : Pool σ α}
    (hI : I p.state) (htasks : ∀ t ∈ p.tasks, Task.Sectioned I Inside t none)
    {schedule : List Nat} (h : Along step (Undisturbed Inside) p schedule)
    (hfinished : (p.exec schedule).Finished) : I (p.exec schedule).state := by
  have hstart : InSections I Inside p :=
    Or.inl ⟨hI, fun k u hu => htasks u (List.mem_of_getElem? hu)⟩
  rcases h.invariant step_inSections hstart with ⟨hend, _⟩ | ⟨j, t, hj, _, ht, _⟩
  · exact hend
  · obtain ⟨a, rfl⟩ := hfinished t (List.mem_of_getElem? hj)
    exact ht.elim

end Pool

end BcNode.Verified
