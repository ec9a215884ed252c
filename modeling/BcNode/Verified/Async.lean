import BcNode.Verified.Task

/-!
# Async functions that can reject

`Async σ ε α` is a task that ends in a value or an error: a promise that
resolves or rejects.  It is `ExceptT` over `Task`, so `do` blocks read as the
code they model.

`rescue` is `try ... catch` where the two parts have different errors.
`Async.exec` runs one alone, and the `Always` rules carry the frame rules of
tasks over the error branch.
-/

namespace BcNode.Verified

/-- A promise over a shared state `σ` that resolves with `α` or rejects with `ε`. -/
abbrev Async (σ ε α : Type) := ExceptT ε (Task σ) α

namespace Async

variable {σ ε α β : Type}

/-- A task that cannot reject. -/
def ofTask (t : Task σ α) : Async σ ε α :=
  ExceptT.mk (t >>= fun a => pure (.ok a))

/-- Reject or resolve at once. -/
def ofExcept (x : Except ε α) : Async σ ε α := ExceptT.mk (pure x)

/-- `try ... catch`, where the handler may reject with errors of its own. -/
def rescue {ε' : Type} (t : Async σ ε α) (handler : ε → Async σ ε' α) : Async σ ε' α :=
  ExceptT.mk (ExceptT.run t >>= fun r =>
    match r with
    | .ok a => pure (.ok a)
    | .error e => ExceptT.run (handler e))

/-- Change the error of a rejection. -/
def mapError {ε' : Type} (f : ε → ε') (t : Async σ ε α) : Async σ ε' α :=
  rescue t fun e => throw (f e)

/-- `Promise.all`: an array of all values, or a rejection once one of them rejects.  The
others go on all the same. -/
def all (order : List Nat) (ts : List (Async σ ε α)) : Async σ ε (List α) :=
  ofTask (Task.all order (ts.map ExceptT.run)) >>= fun results => ofExcept (results.mapM id)

theorem run_ofExcept_bind (x : Except ε α) (f : α → Async σ ε β) :
    ExceptT.run (ofExcept x >>= f) =
      match x with
      | .ok a => ExceptT.run (f a)
      | .error e => .done (.error e) := by
  cases x <;> rfl

theorem run_ofTask_bind (t : Task σ α) (f : α → Async σ ε β) :
    ExceptT.run (ofTask t >>= f) = t >>= fun a => ExceptT.run (f a) :=
  Task.bind_assoc t _ _

@[simp] theorem ofExcept_ok_bind (a : α) (f : α → Async σ ε β) :
    (ofExcept (.ok a) >>= f) = f a := rfl

/-! ## Running one alone -/

/-- Run to the end with nobody else scheduled. -/
def exec (t : Async σ ε α) (s : σ) : Except ε α × σ := Task.run (ExceptT.run t) s

@[simp] theorem exec_ofExcept (x : Except ε α) (s : σ) :
    exec (ofExcept x) s = (x, s) := rfl

/-- Sequencing: an error ends the run, with the state it has reached. -/
@[simp] theorem exec_bind (t : Async σ ε α) (f : α → Async σ ε β) (s : σ) :
    exec (t >>= f) s =
      match exec t s with
      | (.ok a, s') => exec (f a) s'
      | (.error e, s') => (.error e, s') := by
  rw [exec, ExceptT.run_bind, Task.run_bind, exec]
  cases h : Task.run (ExceptT.run t) s with
  | mk r s' => cases r <;> rfl

@[simp] theorem exec_pure (a : α) (s : σ) :
    exec (pure a : Async σ ε α) s = (.ok a, s) := rfl

@[simp] theorem exec_throw (e : ε) (s : σ) :
    exec (throw e : Async σ ε α) s = (.error e, s) := rfl

@[simp] theorem exec_ofTask (t : Task σ α) (s : σ) :
    exec (ofTask t : Async σ ε α) s = (.ok (t.run s).1, (t.run s).2) := by
  rw [exec, ofTask, ExceptT.run_mk, Task.run_bind]
  rfl

/-- The handler starts where the rejection has left the state. -/
@[simp] theorem exec_rescue {ε' : Type} (t : Async σ ε α) (handler : ε → Async σ ε' α)
    (s : σ) :
    exec (rescue t handler) s =
      match exec t s with
      | (.ok a, s') => (.ok a, s')
      | (.error e, s') => exec (handler e) s' := by
  rw [exec, rescue, ExceptT.run_mk, Task.run_bind, exec]
  cases h : Task.run (ExceptT.run t) s with
  | mk r s' => cases r <;> rfl

/-- `Promise.all` of promises that each end in one result ends in all of these, whatever
the order. -/
theorem exec_all (order : List Nat) {results : List (Except ε α)} {ts : List (Async σ ε α)}
    (h : List.Forall₂ (fun r t => Task.Ends (· = r) t) results (ts.map ExceptT.run))
    (s : σ) : (exec (all order ts) s).1 = results.mapM id := by
  have hresults := (Task.Ends.all order h).run s
  simp only [all, exec_bind, exec_ofTask, exec_ofExcept, hresults]

/-! ## Frames -/

/-- Every action of the promise is a step of `F`. -/
def Always (F : σ → σ → Prop) (t : Async σ ε α) : Prop := Task.Always F (ExceptT.run t)

theorem Always.ofExcept {F : σ → σ → Prop} (x : Except ε α) :
    Always F (ofExcept x : Async σ ε α) := trivial

theorem Always.ofTask {F : σ → σ → Prop} {t : Task σ α} (ht : Task.Always F t) :
    Always F (ofTask t : Async σ ε α) :=
  Task.Always.bind ht fun _ => trivial

theorem Always.bind {F : σ → σ → Prop} {t : Async σ ε α} {f : α → Async σ ε β}
    (ht : Always F t) (hf : ∀ a, Always F (f a)) : Always F (t >>= f) := by
  rw [Always, ExceptT.run_bind]
  apply Task.Always.bind ht
  intro r
  cases r with
  | ok a => exact hf a
  | error e => trivial

/-- Whatever the promise sees, what it rejects with satisfies `W`. -/
def Rejects (W : ε → Prop) (t : Async σ ε α) : Prop :=
  Task.Ends (fun r => ∀ e, r = .error e → W e) (ExceptT.run t)

theorem Rejects.pure (W : ε → Prop) (a : α) : Rejects W (pure a : Async σ ε α) :=
  fun _ h => by cases h

theorem Rejects.bind {W : ε → Prop} {t : Async σ ε α} {f : α → Async σ ε β}
    (ht : Rejects W t) (hf : ∀ a, Rejects W (f a)) : Rejects W (t >>= f) := by
  rw [Rejects, ExceptT.run_bind]
  apply Task.Ends.bind ht
  intro r hr
  cases r with
  | ok a => exact hf a
  | error e => exact fun e' h => hr e' (by cases h; rfl)

theorem Rejects.mapError {ε' : Type} {W : ε' → Prop} {f : ε → ε'} (hf : ∀ e, W (f e))
    (t : Async σ ε α) : Rejects W (mapError f t) := by
  refine Task.Ends.bind (Task.Ends.of_forall (fun _ => trivial) _) fun r _ => ?_
  cases r with
  | ok a => exact fun _ h => by cases h
  | error e => exact fun _ h => by cases h; exact hf e

/-- Whatever the promise sees, what it resolves with satisfies `V`. -/
def Resolves (V : α → Prop) (t : Async σ ε α) : Prop :=
  Task.Ends (fun r => ∀ a, r = .ok a → V a) (ExceptT.run t)

theorem Resolves.pure {V : α → Prop} {a : α} (h : V a) :
    Resolves V (pure a : Async σ ε α) :=
  fun _ heq => by cases heq; exact h

theorem Resolves.ofExcept {V : α → Prop} {x : Except ε α} (h : ∀ a, x = .ok a → V a) :
    Resolves V (ofExcept x : Async σ ε α) := h

theorem Resolves.ofTask {V : α → Prop} {t : Task σ α} (h : Task.Ends V t) :
    Resolves V (ofTask t : Async σ ε α) :=
  Task.Ends.bind h fun _ ha _ heq => by cases heq; exact ha

theorem Resolves.of_forall {V : α → Prop} (h : ∀ a, V a) (t : Async σ ε α) :
    Resolves V t :=
  Task.Ends.of_forall (fun _ a _ => h a) _

theorem Resolves.bind {V : α → Prop} {W : β → Prop} {t : Async σ ε α}
    {f : α → Async σ ε β} (ht : Resolves V t) (hf : ∀ a, V a → Resolves W (f a)) :
    Resolves W (t >>= f) := by
  rw [Resolves, ExceptT.run_bind]
  apply Task.Ends.bind ht
  intro r hr
  cases r with
  | ok a => exact hf a (hr a rfl)
  | error e => exact fun _ heq => by cases heq

theorem Always.rescue {F : σ → σ → Prop} {ε' : Type} {W : ε → Prop} {t : Async σ ε α}
    {handler : ε → Async σ ε' α} (ht : Always F t) (hW : Rejects W t)
    (hf : ∀ e, W e → Always F (handler e)) : Always F (rescue t handler) := by
  apply Task.Always.bind_ends ht hW
  intro r hr
  cases r with
  | ok a => trivial
  | error e => exact hf e (hr e rfl)

/-- A handler that keeps the frame whatever it is called with. -/
theorem Always.rescue_all {F : σ → σ → Prop} {ε' : Type} {t : Async σ ε α}
    {handler : ε → Async σ ε' α} (ht : Always F t) (hf : ∀ e, Always F (handler e)) :
    Always F (Async.rescue t handler) := by
  apply Task.Always.bind ht
  intro r
  cases r with
  | ok a => trivial
  | error e => exact hf e

theorem Always.mapError {F : σ → σ → Prop} {ε' : Type} (f : ε → ε') {t : Async σ ε α}
    (ht : Always F t) : Always F (mapError f t) := by
  apply Task.Always.bind ht
  intro r
  cases r <;> trivial

theorem Always.all {F : σ → σ → Prop} (order : List Nat) {ts : List (Async σ ε α)}
    (hts : ∀ t ∈ ts, Always F t) : Always F (all order ts) := by
  refine Always.bind (Always.ofTask (Task.Always.all order ?_)) fun _ => Always.ofExcept _
  intro t ht
  obtain ⟨t, hmem, rfl⟩ := List.mem_map.1 ht
  exact hts t hmem

theorem Always.exec {F : σ → σ → Prop} (hrefl : ∀ s, F s s)
    (htrans : ∀ s₁ s₂ s₃, F s₁ s₂ → F s₂ s₃ → F s₁ s₃)
    {t : Async σ ε α} (ht : Always F t) (s : σ) : F s (exec t s).2 :=
  Task.Always.run hrefl htrans ht s

/-! ## Runs from an invariant

What a promise does that is left alone and starts with `I`: it takes the state along `F`,
and what it resolves with satisfies `V`.
-/

/-- From any state with `I`. -/
def Triple (I : σ → Prop) (F : σ → σ → Prop) (V : α → Prop) (t : Async σ ε α) : Prop :=
  ∀ s, I s → F s (exec t s).2 ∧ ∀ a, (exec t s).1 = .ok a → V a

section Triple

variable {I : σ → Prop} {F : σ → σ → Prop} {V : α → Prop} {W : β → Prop}

theorem Triple.of_always (hrefl : ∀ s, F s s)
    (htrans : ∀ s₁ s₂ s₃, F s₁ s₂ → F s₂ s₃ → F s₁ s₃) {t : Async σ ε α}
    (ht : Always F t) : Triple I F (fun _ => True) t :=
  fun s _ => ⟨ht.exec hrefl htrans s, fun _ _ => trivial⟩

theorem Triple.pure (hrefl : ∀ s, F s s) {a : α} (h : V a) :
    Triple I F V (pure a : Async σ ε α) := by
  refine fun s _ => ⟨hrefl s, fun b hb => ?_⟩
  cases hb
  exact h

theorem Triple.ofExcept (hrefl : ∀ s, F s s) {x : Except ε α} (h : ∀ a, x = .ok a → V a) :
    Triple I F V (ofExcept x : Async σ ε α) := by
  intro s _
  rw [exec_ofExcept]
  exact ⟨hrefl s, h⟩

theorem Triple.read (hrefl : ∀ s, F s s) {f : σ → α} (h : ∀ s, I s → V (f s)) :
    Triple I F V (ofTask (Task.read f) : Async σ ε α) := by
  intro s hs
  rw [exec_ofTask, Task.run_read]
  refine ⟨hrefl s, fun a ha => ?_⟩
  cases ha
  exact h s hs

/-- The invariant has to survive what the first part does. -/
theorem Triple.bind (hI : ∀ s s', F s s' → I s → I s')
    (htrans : ∀ s₁ s₂ s₃, F s₁ s₂ → F s₂ s₃ → F s₁ s₃) {t : Async σ ε α}
    {f : α → Async σ ε β} (ht : Triple I F V t) (hf : ∀ a, V a → Triple I F W (f a)) :
    Triple I F W (t >>= f) := by
  intro s hs
  obtain ⟨hstep, hvalue⟩ := ht s hs
  rw [exec_bind]
  cases hexec : exec t s with
  | mk r s' =>
      rw [hexec] at hstep hvalue
      cases r with
      | error e => exact ⟨hstep, fun _ h => by cases h⟩
      | ok a =>
          obtain ⟨hrest, hresult⟩ := hf a (hvalue a rfl) s' (hI s s' hstep hs)
          exact ⟨htrans s s' _ hstep hrest, hresult⟩

theorem Triple.rescue (hI : ∀ s s', F s s' → I s → I s')
    (htrans : ∀ s₁ s₂ s₃, F s₁ s₂ → F s₂ s₃ → F s₁ s₃) {ε' : Type} {t : Async σ ε α}
    {handler : ε → Async σ ε' α} (ht : Triple I F V t)
    (hf : ∀ e, Triple I F V (handler e)) : Triple I F V (Async.rescue t handler) := by
  intro s hs
  obtain ⟨hstep, hvalue⟩ := ht s hs
  rw [exec_rescue]
  cases hexec : exec t s with
  | mk r s' =>
      rw [hexec] at hstep hvalue
      cases r with
      | ok a => exact ⟨hstep, fun b hb => hvalue b (by cases hb; rfl)⟩
      | error e =>
          obtain ⟨hrest, hresult⟩ := hf e s' (hI s s' hstep hs)
          exact ⟨htrans s s' _ hstep hrest, hresult⟩

end Triple

end Async

end BcNode.Verified
