import Mathlib.Data.List.Forall2

/-!
# Async functions over a shared state

An `async` function runs to its next `await` without interruption, gives up
control, and is resumed later in whatever state the other functions have left
behind.  `Task σ α` is that shape: a finished value, or one atomic action on
the shared state together with the continuation that receives the state the
action saw.  Tasks are finite trees, so everything below is structural.

`Task.run` runs one task alone, from start to finish.  The reasoning rules are
the ones sequential and concurrent proofs need: `Task.run_bind` for sequencing,
`Task.Always` for what a task can never touch, `Task.Safe` for rely–guarantee
reasoning about a task among others, and `Task.Sectioned` for a task that breaks
an invariant for the length of one action.  `Task.Ends` is about the value alone,
whatever the task sees.  `Task.focus` lifts a task to a larger state, and
`Task.Simulates` compares it with a task over a view of the state.
-/

namespace BcNode.Verified

/-- An async function in flight over a shared state `σ`: finished, or waiting
to perform one atomic `update` and continue with what it saw. -/
inductive Task (σ α : Type) where
  | done (value : α)
  | act (update : σ → σ) (next : σ → Task σ α)

namespace Task

variable {σ α β ε : Type}

/-- Sequencing: continue with `f` where the first task finishes. -/
def bind : Task σ α → (α → Task σ β) → Task σ β
  | .done a, f => f a
  | .act update next, f => .act update fun s => (next s).bind f

instance : Monad (Task σ) where
  pure := .done
  bind := bind

@[simp] theorem pure_eq (a : α) : (pure a : Task σ α) = .done a := rfl

@[simp] theorem bind_done (a : α) (f : α → Task σ β) :
    (Task.done a >>= f : Task σ β) = f a := rfl

@[simp] theorem bind_act (update : σ → σ) (next : σ → Task σ α)
    (f : α → Task σ β) :
    (Task.act update next >>= f : Task σ β) =
      .act update fun s => next s >>= f := rfl

theorem bind_assoc {γ : Type} (t : Task σ α) (f : α → Task σ β) (g : β → Task σ γ) :
    t >>= f >>= g = t >>= fun a => f a >>= g := by
  induction t with
  | done a => rfl
  | act update next ih =>
      simp only [bind_act]
      congr 1
      funext s
      exact ih s

/-- One atomic read of the shared state. -/
def read (f : σ → α) : Task σ α := .act id fun s => .done (f s)

/-- One atomic update of the shared state. -/
def modify (update : σ → σ) : Task σ Unit := .act update fun _ => .done ()

/-! ## Running one task alone -/

/-- Run a task to completion with nobody else scheduled. -/
def run : Task σ α → σ → α × σ
  | .done a, s => (a, s)
  | .act update next, s => (next s).run (update s)

@[simp] theorem run_done (a : α) (s : σ) : (Task.done a).run s = (a, s) := rfl

@[simp] theorem run_act (update : σ → σ) (next : σ → Task σ α) (s : σ) :
    (Task.act update next).run s = (next s).run (update s) := rfl

@[simp] theorem run_read (f : σ → α) (s : σ) : (read f).run s = (f s, s) := rfl

@[simp] theorem run_bind (t : Task σ α) (f : α → Task σ β) (s : σ) :
    (t >>= f).run s = (f (t.run s).1).run (t.run s).2 := by
  induction t generalizing s with
  | done a => rfl
  | act update next ih =>
      simp only [bind_act, run_act]
      exact ih s (update s)

/-! ## `Promise.all` -/

/-- Where the tasks are after task `i` has acted. -/
theorem getElem?_set_iff {ts : List (Task σ α)} {i j : Nat} {t u v : Task σ α}
    (hi : ts[i]? = some t) :
    (ts.set i u)[j]? = some v ↔ (j = i ∧ v = u) ∨ (j ≠ i ∧ ts[j]? = some v) := by
  have hlt : i < ts.length := (List.getElem?_eq_some_iff.1 hi).1
  by_cases hj : j = i
  · subst hj
    rw [List.getElem?_set_self hlt, Option.some.injEq]
    simp [eq_comm]
  · rw [List.getElem?_set_ne (Ne.symm hj)]
    simp [hj]

/-- Run the tasks one after another, collecting their values. -/
def sequence : List (Task σ α) → Task σ (List α)
  | [] => .done []
  | t :: ts => t >>= fun a => sequence ts >>= fun as => .done (a :: as)

/-- Start all the tasks and wait for all of them.  `order` names, action by
action, the task that gets to act next; what it leaves over runs in turn. -/
def all : List Nat → List (Task σ α) → Task σ (List α)
  | [], ts => sequence ts
  | i :: order, ts =>
      match ts[i]? with
      | some (.act update next) => .act update fun s => all order (ts.set i (next s))
      | _ => all order ts

/-- Run alone from `s`, the task leaves it as it is. -/
def Leaves (s : σ) : Task σ α → Prop
  | .done _ => True
  | .act update next => update s = s ∧ Leaves s (next s)

theorem Leaves.run {s : σ} {t : Task σ α} (h : Leaves s t) : (t.run s).2 = s := by
  induction t with
  | done a => rfl
  | act update next ih =>
      rw [run_act, h.1]
      exact ih s h.2

theorem sequence_run_of_leaves {s : σ} {ts : List (Task σ α)}
    (h : ∀ t ∈ ts, Leaves s t) :
    (sequence ts).run s = (ts.map fun t => (t.run s).1, s) := by
  induction ts with
  | nil => rfl
  | cons t ts ih =>
      have ht := (h t List.mem_cons_self).run
      have hts := ih fun u hu => h u (List.mem_cons_of_mem _ hu)
      simp only [sequence, run_bind, ht, hts, run_done, List.map_cons]

/-- Tasks that leave the state alone give the same values in every order. -/
theorem all_run_of_leaves (order : List Nat) {s : σ} {ts : List (Task σ α)}
    (h : ∀ t ∈ ts, Leaves s t) :
    (all order ts).run s = (ts.map fun t => (t.run s).1, s) := by
  induction order generalizing ts with
  | nil => exact sequence_run_of_leaves h
  | cons i order ih =>
      rw [all]
      split
      · next update next hi =>
          have hact := h _ (List.mem_of_getElem? hi)
          have hnext : ∀ t ∈ ts.set i (next s), Leaves s t := by
            intro t ht
            rcases List.mem_or_eq_of_mem_set ht with hmem | rfl
            · exact h t hmem
            · exact hact.2
          -- one action on, the task still ends in the same value
          have hvalue : ((next s).run s).1 = ((Task.act update next).run s).1 := by
            rw [run_act, hact.1]
          rw [run_act, hact.1, ih hnext, List.map_set, hvalue]
          congr 1
          apply List.ext_getElem?
          intro j
          rw [List.getElem?_set]
          split
          · next hij =>
              subst hij
              have hlt := (List.getElem?_eq_some_iff.1 hi).1
              rw [List.length_map, if_pos hlt, List.getElem?_map, hi, Option.map_some]
          · rfl
      · exact ih h

/-! ## What a task can never do -/

/-- Every action of the task, in whatever state it is scheduled, is a step of
the relation `F`. -/
def Always (F : σ → σ → Prop) : Task σ α → Prop
  | .done _ => True
  | .act update next => ∀ s, F s (update s) ∧ Always F (next s)

theorem Always.read {F : σ → σ → Prop} (hrefl : ∀ s, F s s) (f : σ → α) :
    Always F (read f) := fun s => ⟨hrefl s, trivial⟩

theorem Always.mono {F G : σ → σ → Prop} (h : ∀ s s', F s s' → G s s') {t : Task σ α}
    (ht : Always F t) : Always G t := by
  induction t with
  | done a => trivial
  | act update next ih => exact fun s => ⟨h s _ (ht s).1, ih s (ht s).2⟩

theorem Always.bind {F : σ → σ → Prop} {t : Task σ α} {f : α → Task σ β}
    (ht : Always F t) (hf : ∀ a, Always F (f a)) : Always F (t >>= f) := by
  induction t with
  | done a => exact hf a
  | act update next ih =>
      intro s
      exact ⟨(ht s).1, ih s (ht s).2⟩

theorem Always.sequence {F : σ → σ → Prop} {ts : List (Task σ α)}
    (hts : ∀ t ∈ ts, Always F t) : Always F (sequence ts) := by
  induction ts with
  | nil => trivial
  | cons t ts ih =>
      apply Always.bind (hts t List.mem_cons_self)
      intro a
      apply Always.bind (ih fun t ht => hts t (List.mem_cons_of_mem _ ht))
      intro as
      trivial

theorem Always.all {F : σ → σ → Prop} (order : List Nat)
    {ts : List (Task σ α)} (hts : ∀ t ∈ ts, Always F t) :
    Always F (all order ts) := by
  induction order generalizing ts with
  | nil => exact Always.sequence hts
  | cons i order ih =>
      rw [Task.all]
      split
      · next update next hi =>
          intro s
          have hact := hts _ (List.mem_of_getElem? hi) s
          refine ⟨hact.1, ih ?_⟩
          intro t ht
          rcases List.mem_or_eq_of_mem_set ht with hmem | rfl
          · exact hts t hmem
          · exact hact.2
      · exact ih hts

/-- Run alone, such a task relates its initial and final state by any
reflexive and transitive relation that its actions respect. -/
theorem Always.run {F : σ → σ → Prop} (hrefl : ∀ s, F s s)
    (htrans : ∀ s₁ s₂ s₃, F s₁ s₂ → F s₂ s₃ → F s₁ s₃)
    {t : Task σ α} (ht : Always F t) (s : σ) : F s (t.run s).2 := by
  induction t generalizing s with
  | done a => exact hrefl s
  | act update next ih =>
      exact htrans _ _ _ (ht s).1 (ih s (ht s).2 (update s))

/-- Whatever the task sees, the value it ends in satisfies `V`. -/
def Ends (V : α → Prop) : Task σ α → Prop
  | .done a => V a
  | .act _ next => ∀ s, Ends V (next s)

theorem Ends.bind {V : α → Prop} {W : β → Prop} {t : Task σ α} {f : α → Task σ β}
    (ht : Ends V t) (hf : ∀ a, V a → Ends W (f a)) : Ends W (t >>= f) := by
  induction t with
  | done a => exact hf a ht
  | act update next ih => exact fun s => ih s (ht s)

theorem Ends.of_forall {V : α → Prop} (hV : ∀ a, V a) (t : Task σ α) : Ends V t := by
  induction t with
  | done a => exact hV a
  | act update next ih => exact ih

theorem Ends.run {V : α → Prop} {t : Task σ α} (h : Ends V t) (s : σ) : V (t.run s).1 := by
  induction t generalizing s with
  | done a => exact h
  | act update next ih => exact ih s (h s) (update s)

theorem Ends.sequence {values : List α} {ts : List (Task σ α)}
    (h : List.Forall₂ (fun a t => Ends (· = a) t) values ts) :
    Ends (· = values) (sequence ts) := by
  induction h with
  | nil => rfl
  | cons ht _ ih =>
      refine Ends.bind ht fun a ha => Ends.bind ih fun as has => ?_
      rw [Ends, ha, has]

section Related

variable {ι κ : Type} {R : ι → κ → Prop} {as : List ι} {bs : List κ} {a a' : ι}
  {b b' : κ} {i : Nat}

theorem related_of_getElem? (h : List.Forall₂ R as bs) (ha : as[i]? = some a)
    (hb : bs[i]? = some b) : R a b := by
  obtain ⟨hi, rfl⟩ := List.getElem?_eq_some_iff.1 ha
  obtain ⟨hi', rfl⟩ := List.getElem?_eq_some_iff.1 hb
  exact h.get hi hi'

/-- Related lists stay so where related elements replace their own. -/
theorem related_set (h : List.Forall₂ R as bs) (i : Nat) (hab : R a' b') :
    List.Forall₂ R (as.set i a') (bs.set i b') := by
  induction h generalizing i with
  | nil => exact .nil
  | cons hhead htail ih =>
      cases i with
      | zero => exact .cons hab htail
      | succ i => exact .cons hhead (ih i)

end Related

/-- Tasks that each end in one value give these values in every order. -/
theorem Ends.all (order : List Nat) {values : List α} {ts : List (Task σ α)}
    (h : List.Forall₂ (fun a t => Ends (· = a) t) values ts) :
    Ends (· = values) (Task.all order ts) := by
  induction order generalizing ts with
  | nil => exact Ends.sequence h
  | cons i order ih =>
      rw [Task.all]
      split
      · next update next hi =>
          intro s
          have hlt : i < values.length := by
            rw [h.length_eq]
            exact (List.getElem?_eq_some_iff.1 hi).1
          have hact := related_of_getElem? h (List.getElem?_eq_getElem hlt) hi
          have hset := related_set h i (hact s)
          rw [List.set_getElem_self] at hset
          exact ih hset
      · exact ih h

/-- What follows a task only matters for the values it can end in. -/
theorem Always.bind_ends {F : σ → σ → Prop} {V : α → Prop} {t : Task σ α}
    {f : α → Task σ β} (ht : Always F t) (hV : Ends V t)
    (hf : ∀ a, V a → Always F (f a)) : Always F (t >>= f) := by
  induction t with
  | done a => exact hf a hV
  | act update next ih => exact fun s => ⟨(ht s).1, ih s (ht s).2 (hV s)⟩

/-! ## Rely–guarantee -/

/-- `Safe R Q t s`: from state `s`, with other tasks making `R`-steps between
any two actions of `t`, every action of `t` is itself an `R`-step, and `Q`
holds of the value and of every later state once `t` has finished. -/
def Safe (R : σ → σ → Prop) (Q : α → σ → Prop) : Task σ α → σ → Prop
  | .done a, s => ∀ s', R s s' → Q a s'
  | .act update next, s =>
      ∀ s', R s s' → R s' (update s') ∧ Safe R Q (next s') (update s')

section Rules

variable {R : σ → σ → Prop} {P : α → σ → Prop} {Q : β → σ → Prop}

/-- Steps of the environment keep a task safe. -/
theorem Safe.rely (htrans : ∀ s₁ s₂ s₃, R s₁ s₂ → R s₂ s₃ → R s₁ s₃)
    {t : Task σ α} {s s' : σ} (ht : Safe R P t s) (hs : R s s') :
    Safe R P t s' := by
  cases t with
  | done a => exact fun s'' hs' => ht s'' (htrans _ _ _ hs hs')
  | act update next => exact fun s'' hs' => ht s'' (htrans _ _ _ hs hs')

theorem Safe.bind (hrefl : ∀ s, R s s) {t : Task σ α} {f : α → Task σ β}
    {s : σ} (ht : Safe R P t s) (hf : ∀ a s', P a s' → Safe R Q (f a) s') :
    Safe R Q (t >>= f) s := by
  induction t generalizing s with
  | done a => exact hf a s (ht s (hrefl s))
  | act update next ih =>
      intro s' hs
      exact ⟨(ht s' hs).1, ih s' (ht s' hs).2⟩

theorem Safe.mono {P' : α → σ → Prop} (hP : ∀ a s, P a s → P' a s) {t : Task σ α} {s : σ}
    (ht : Safe R P t s) : Safe R P' t s := by
  induction t generalizing s with
  | done a => exact fun s' hs => hP a s' (ht s' hs)
  | act update next ih => exact fun s' hs => ⟨(ht s' hs).1, ih s' (ht s' hs).2⟩

/-- A read: continue with what any state the environment can reach shows. -/
theorem Safe.read_bind (hrefl : ∀ s, R s s) {γ : Type} {f : σ → γ} {k : γ → Task σ β}
    {s : σ} (hk : ∀ s', R s s' → Safe R Q (k (f s')) s') :
    Safe R Q (Task.read f >>= k) s :=
  fun s' hs => ⟨hrefl s', hk s' hs⟩

/-- A task whose actions stay within a frame `F ⊆ R` keeps every assertion
that is stable under `R`. -/
theorem Safe.of_always {F : σ → σ → Prop} (hF : ∀ s s', F s s' → R s s')
    {I : σ → Prop} (hI : ∀ s s', R s s' → I s → I s')
    {t : Task σ α} (ht : Always F t) {s : σ} (hs : I s) :
    Safe R (fun _ s => I s) t s := by
  induction t generalizing s with
  | done a => exact fun s' hR => hI s s' hR hs
  | act update next ih =>
      intro s' hR
      have hstep := hF _ _ (ht s').1
      exact ⟨hstep, ih s' (ht s').2 (hI _ _ hstep (hI _ _ hR hs))⟩

/-- A safe task keeps what every step keeps. -/
theorem Safe.frame {I : σ → Prop} (hI : ∀ s s', R s s' → I s → I s') {t : Task σ α}
    {s : σ} (ht : Safe R P t s) (hs : I s) : Safe R (fun a s' => P a s' ∧ I s') t s := by
  induction t generalizing s with
  | done a => exact fun s' hR => ⟨ht s' hR, hI s s' hR hs⟩
  | act update next ih =>
      intro s' hR
      have hact := ht s' hR
      exact ⟨hact.1, ih s' hact.2 (hI _ _ hact.1 (hI _ _ hR hs))⟩

/-- One update: a step of the relation that establishes what every step keeps. -/
theorem Safe.modify {I : σ → Prop} (hI : ∀ s s', R s s' → I s → I s') {update : σ → σ}
    {s : σ} (h : ∀ s', R s s' → R s' (update s') ∧ I (update s')) :
    Safe R (fun _ s' => I s') (modify update) s :=
  fun s' hR => ⟨(h s' hR).1, fun _ hR' => hI _ _ hR' (h s' hR).2⟩

/-- Run alone, a safe task ends where it promises to. -/
theorem Safe.run (hrefl : ∀ s, R s s) {t : Task σ α} {s : σ} (ht : Safe R P t s) :
    P (t.run s).1 (t.run s).2 := by
  induction t generalizing s with
  | done a => exact ht s (hrefl s)
  | act update next ih => exact ih s (ht s (hrefl s)).2

end Rules

/-- Tasks that are one function's, each promising something of its argument. -/
theorem Safe.getElem?_map {R : σ → σ → Prop} {ι : Type} {Q : ι → σ → Prop} {xs : List ι}
    {f : ι → Task σ α} {s : σ} (h : ∀ x ∈ xs, Safe R (fun _ s' => Q x s') (f x) s)
    (i : Nat) (t : Task σ α) (hi : (xs.map f)[i]? = some t) :
    Safe R (fun _ s' => ∀ x, xs[i]? = some x → Q x s') t s := by
  rw [List.getElem?_map, Option.map_eq_some_iff] at hi
  obtain ⟨x, hx, rfl⟩ := hi
  refine (h x (List.mem_of_getElem? hx)).mono ?_
  intro a s' hx' y hy
  rw [hx] at hy
  cases hy
  exact hx'

section Join

variable {R : σ → σ → Prop} (hrefl : ∀ s, R s s)
  (htrans : ∀ s₁ s₂ s₃, R s₁ s₂ → R s₂ s₃ → R s₁ s₃)

include hrefl htrans

theorem Safe.sequence {Q : Nat → σ → Prop} (hQ : ∀ i s s', R s s' → Q i s → Q i s')
    {ts : List (Task σ α)} {s : σ}
    (hts : ∀ i t, ts[i]? = some t → Safe R (fun _ s' => Q i s') t s) :
    Safe R (fun _ s' => ∀ i < ts.length, Q i s') (sequence ts) s := by
  induction ts generalizing Q s with
  | nil => exact fun s' _ i hi => absurd hi (Nat.not_lt_zero i)
  | cons t ts ih =>
      have hhead := (hts 0 t rfl).frame (fun s₁ s₂ h h' => htrans _ _ _ h' h) (hrefl s)
      apply Safe.bind hrefl hhead
      rintro a s₁ ⟨hzero, hs₁⟩
      have htail := ih (fun i => hQ (i + 1)) (s := s₁)
        (fun i u hu => (hts (i + 1) u hu).rely htrans hs₁)
      apply Safe.bind hrefl (htail.frame (hQ 0) hzero)
      rintro as s₂ ⟨hsucc, hzero₂⟩ s₃ hs₃ i hi
      cases i with
      | zero => exact hQ 0 _ _ hs₃ hzero₂
      | succ i => exact hQ (i + 1) _ _ hs₃ (hsucc i (Nat.lt_of_succ_lt_succ hi))

/-- **The join rule.**  Tasks that are safe for a common relation are safe under
`Promise.all`, in every order, and in the end each has established what it
promises, provided that every step keeps it. -/
theorem Safe.all {Q : Nat → σ → Prop} (hQ : ∀ i s s', R s s' → Q i s → Q i s')
    (order : List Nat) {ts : List (Task σ α)} {s : σ}
    (hts : ∀ i t, ts[i]? = some t → Safe R (fun _ s' => Q i s') t s) :
    Safe R (fun _ s' => ∀ i < ts.length, Q i s') (all order ts) s := by
  induction order generalizing ts s with
  | nil => exact Safe.sequence hrefl htrans hQ hts
  | cons i order ih =>
      rw [Task.all]
      split
      · next update next hi =>
          intro s' hs
          obtain ⟨hact, hnext⟩ := hts i _ hi s' hs
          refine ⟨hact, ?_⟩
          have hlength : (ts.set i (next s')).length = ts.length := List.length_set
          rw [← hlength]
          apply ih
          intro j t hj
          rcases (getElem?_set_iff hi).1 hj with ⟨rfl, rfl⟩ | ⟨_, hold⟩
          · exact hnext
          · exact (hts j t hold).rely htrans (htrans _ _ _ hs hact)
      · exact ih hts

/-- The same for the tasks of one function. -/
theorem Safe.all_map {ι : Type} {Q : ι → σ → Prop}
    (hQ : ∀ x s s', R s s' → Q x s → Q x s') (order : List Nat) {xs : List ι}
    {f : ι → Task σ α} {s : σ} (h : ∀ x ∈ xs, Safe R (fun _ s' => Q x s') (f x) s) :
    Safe R (fun _ s' => ∀ x ∈ xs, Q x s') (Task.all order (xs.map f)) s := by
  have hQ' (i : Nat) (s s' : σ) (hs : R s s') (hi : ∀ x, xs[i]? = some x → Q x s)
      (x : ι) (hx : xs[i]? = some x) : Q x s' := hQ x s s' hs (hi x hx)
  refine (Safe.all hrefl htrans hQ' order (Safe.getElem?_map h)).mono ?_
  intro as s' hall x hx
  obtain ⟨i, hi⟩ := List.mem_iff_getElem?.1 hx
  have hlt : i < (xs.map f).length := by
    rw [List.length_map]
    exact (List.getElem?_eq_some_iff.1 hi).1
  exact hall i hlt x hi

theorem Safe.sequence_results {V : α → Prop} {ts : List (Task σ α)} {s : σ}
    (hts : ∀ t ∈ ts, Safe R (fun a _ => V a) t s) :
    Safe R (fun as _ => ∀ a ∈ as, V a) (Task.sequence ts) s := by
  induction ts generalizing s with
  | nil => exact fun s' _ a ha => absurd ha List.not_mem_nil
  | cons t ts ih =>
      have hhead := (hts t List.mem_cons_self).frame (fun _ _ h h' => htrans _ _ _ h' h)
        (hrefl s)
      apply Safe.bind hrefl hhead
      rintro a s₁ ⟨ha, hs₁⟩
      apply Safe.bind hrefl
        (ih fun u hu => (hts u (List.mem_cons_of_mem _ hu)).rely htrans hs₁)
      intro as s₂ has s₃ _ b hb
      rcases List.mem_cons.1 hb with rfl | hmem
      · exact ha
      · exact has b hmem

/-- What each task promises of its value holds of all values collected. -/
theorem Safe.all_results {V : α → Prop} (order : List Nat) {ts : List (Task σ α)} {s : σ}
    (hts : ∀ t ∈ ts, Safe R (fun a _ => V a) t s) :
    Safe R (fun as _ => ∀ a ∈ as, V a) (Task.all order ts) s := by
  induction order generalizing ts s with
  | nil => exact Safe.sequence_results hrefl htrans hts
  | cons i order ih =>
      rw [Task.all]
      split
      · next update next hi =>
          intro s' hs
          obtain ⟨hact, hnext⟩ := hts _ (List.mem_of_getElem? hi) s' hs
          refine ⟨hact, ih ?_⟩
          intro t ht
          rcases List.mem_or_eq_of_mem_set ht with hmem | rfl
          · exact (hts t hmem).rely htrans (htrans _ _ _ hs hact)
          · exact hnext
      · exact ih hts

end Join

/-! ## A part of the state -/

section Focus

variable {τ : Type} (get : σ → τ) (put : σ → τ → σ)

/-- A task over a part of the state, which `get` reads and `put` writes back. -/
def focus : Task τ α → Task σ α
  | .done a => .done a
  | .act update next =>
      .act (fun s => put s (update (get s))) fun s => focus (next (get s))

/-- Run alone, it does to that part what the task does to its state. -/
theorem run_focus (hgetput : ∀ s t, get (put s t) = t) (hputget : ∀ s, put s (get s) = s)
    (hputput : ∀ s t t', put (put s t) t' = put s t') (t : Task τ α) (s : σ) :
    (t.focus get put).run s = ((t.run (get s)).1, put s (t.run (get s)).2) := by
  induction t generalizing s with
  | done a => rw [focus, run_done, run_done, hputget]
  | act update next ih => rw [focus, run_act, run_act, ih, hgetput, hputput]

/-- It is as safe as the task itself, where the relations agree on that part. -/
theorem Safe.focus {R : σ → σ → Prop} {R' : τ → τ → Prop} {Q : α → τ → Prop}
    (hget : ∀ s s', R s s' → R' (get s) (get s'))
    (hput : ∀ s t, R' (get s) t → R s (put s t)) (hgetput : ∀ s t, get (put s t) = t)
    {t : Task τ α} {s : σ} (ht : Safe R' Q t (get s)) :
    Safe R (fun a s' => Q a (get s')) (t.focus get put) s := by
  induction t generalizing s with
  | done a => exact fun s' hs => ht (get s') (hget s s' hs)
  | act update next ih =>
      intro s' hs
      obtain ⟨hact, hnext⟩ := ht (get s') (hget s s' hs)
      refine ⟨hput s' _ hact, ih (get s') ?_⟩
      rw [hgetput]
      exact hnext

end Focus

section View

variable {τ : Type} (view : σ → τ)

/-- The first task does to the state what the second does to the view of it, and they end
in related values. -/
def Simulates (R : α → β → Prop) : Task σ α → Task τ β → Prop
  | .done a, .done b => R a b
  | .act update next, .act update' next' =>
      (∀ s, view (update s) = update' (view s)) ∧
        ∀ s, Simulates R (next s) (next' (view s))
  | _, _ => False

variable {view}

theorem Simulates.bind {γ δ : Type} {R : α → β → Prop} {Q : γ → δ → Prop}
    {t : Task σ α} {t' : Task τ β} {f : α → Task σ γ} {f' : β → Task τ δ}
    (ht : Simulates view R t t') (hf : ∀ a b, R a b → Simulates view Q (f a) (f' b)) :
    Simulates view Q (t >>= f) (t' >>= f') := by
  induction t generalizing t' with
  | done a =>
      cases t' with
      | done b => exact hf a b ht
      | act update' next' => exact ht.elim
  | act update next ih =>
      cases t' with
      | done b => exact ht.elim
      | act update' next' => exact ⟨ht.1, fun s => ih s (ht.2 s)⟩

theorem Simulates.sequence {R : α → β → Prop} {ts : List (Task σ α)}
    {ts' : List (Task τ β)} (h : List.Forall₂ (Simulates view R) ts ts') :
    Simulates view (List.Forall₂ R) (Task.sequence ts) (Task.sequence ts') := by
  induction h with
  | nil => exact List.Forall₂.nil
  | cons ht _ ih =>
      exact Simulates.bind ht fun a b hab => Simulates.bind ih fun as bs hs =>
        List.Forall₂.cons hab hs

/-- Started together, in the same order. -/
theorem Simulates.all {R : α → β → Prop} (order : List Nat) {ts : List (Task σ α)}
    {ts' : List (Task τ β)} (h : List.Forall₂ (Simulates view R) ts ts') :
    Simulates view (List.Forall₂ R) (Task.all order ts) (Task.all order ts') := by
  induction order generalizing ts ts' with
  | nil => exact Simulates.sequence h
  | cons i order ih =>
      rw [Task.all, Task.all]
      cases ht : ts[i]? with
      | none =>
          have ht' : ts'[i]? = none := by
            rw [List.getElem?_eq_none_iff] at ht ⊢
            exact h.length_eq ▸ ht
          rw [ht']
          exact ih h
      | some t =>
          obtain ⟨hlt, -⟩ := List.getElem?_eq_some_iff.1 ht
          obtain ⟨t', ht'⟩ : ∃ t', ts'[i]? = some t' :=
            ⟨_, List.getElem?_eq_getElem (h.length_eq ▸ hlt)⟩
          have hrel := related_of_getElem? h ht ht'
          rw [ht']
          cases t with
          | done a =>
              cases t' with
              | done b => exact ih h
              | act update' next' => exact hrel.elim
          | act update next =>
              cases t' with
              | done b => exact hrel.elim
              | act update' next' =>
                  exact ⟨hrel.1, fun s => ih (related_set h i (hrel.2 s))⟩

theorem Simulates.run {R : α → β → Prop} {t : Task σ α} {t' : Task τ β}
    (h : Simulates view R t t') (s : σ) :
    R (t.run s).1 (t'.run (view s)).1 ∧ view (t.run s).2 = (t'.run (view s)).2 := by
  induction t generalizing t' s with
  | done a =>
      cases t' with
      | done b => exact ⟨h, rfl⟩
      | act update' next' => exact h.elim
  | act update next ih =>
      cases t' with
      | done b => exact h.elim
      | act update' next' =>
          rw [run_act, run_act, ← h.1 s]
          exact ih s (h.2 s) (update s)

end View

/-- Scheduled in `s₀` again and again, the task only reads until it satisfies
`W`. -/
def ReadsUntil (W : Task σ α → Prop) (s₀ : σ) : Task σ α → Prop
  | .done _ => False
  | .act update next =>
      W (.act update next) ∨ (update s₀ = s₀ ∧ ReadsUntil W s₀ (next s₀))

theorem ReadsUntil.read_bind {W : Task σ β → Prop} {s₀ : σ} {f : σ → α}
    {k : α → Task σ β} (h : ReadsUntil W s₀ (k (f s₀))) :
    ReadsUntil W s₀ (Task.read f >>= k) :=
  Or.inr ⟨rfl, h⟩

/-! ## Sections -/

/-- Every action of the task keeps `I`, or opens a section: it brings the task to
a point `Inside`, from which the next action restores `I` if it is taken in the
very state the first one left.  That state is the last argument of a task inside
a section. -/
def Sectioned (I : σ → Prop) (Inside : Task σ α → Prop) : Task σ α → Option σ → Prop
  | .done _, none => True
  | .done _, some _ => False
  | .act update next, none => ∀ s, I s →
      (I (update s) ∧ Sectioned I Inside (next s) none) ∨
        (Inside (next s) ∧ Sectioned I Inside (next s) (some (update s)))
  | .act update next, some s => I (update s) ∧ Sectioned I Inside (next s) none

theorem Sectioned.read_bind {I : σ → Prop} {Inside : Task σ β → Prop} {f : σ → α}
    {k : α → Task σ β} (hk : ∀ s, Sectioned I Inside (k (f s)) none) :
    Sectioned I Inside (Task.read f >>= k) none :=
  fun s hs => Or.inl ⟨hs, hk s⟩

/-- A task within a frame that keeps `I` opens no section. -/
theorem Sectioned.of_always {F : σ → σ → Prop} {I : σ → Prop}
    (hF : ∀ s s', F s s' → I s → I s') {Inside : Task σ α → Prop} {t : Task σ α}
    (ht : Always F t) : Sectioned I Inside t none := by
  induction t with
  | done a => trivial
  | act update next ih =>
      intro s hs
      exact Or.inl ⟨hF _ _ (ht s).1 hs, ih s (ht s).2⟩

end Task

end BcNode.Verified
