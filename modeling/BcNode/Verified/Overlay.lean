import BcNode.Verified.Task

/-!
# Writes that agree

Tasks over a map that only ever write one value to a key: `targets` says which.  In
whatever order they run, the map ends as the targets on top of what it was.
-/

namespace BcNode.Verified

variable {κ ν : Type} {targets : κ → Option ν}

/-- The targets on top of a map. -/
def overlay (targets s : κ → Option ν) : κ → Option ν := fun key => (targets key).or (s key)

theorem overlay_of_some {s : κ → Option ν} {key : κ} {value : ν}
    (h : targets key = some value) : overlay targets s key = some value := by
  rw [overlay, h, Option.some_or]

theorem overlay_of_none {s : κ → Option ν} {key : κ} (h : targets key = none) :
    overlay targets s key = s key := by
  rw [overlay, h, Option.none_or]

/-- A key that changes gets its target. -/
def Towards (targets s s' : κ → Option ν) : Prop :=
  ∀ key, s' key = s key ∨ targets key ≠ none ∧ s' key = targets key

theorem Towards.refl (s : κ → Option ν) : Towards targets s s := fun _ => .inl rfl

theorem Towards.trans (s₁ s₂ s₃ : κ → Option ν) (h : Towards targets s₁ s₂)
    (h' : Towards targets s₂ s₃) : Towards targets s₁ s₃ := by
  intro key
  rcases h' key with heq | htarget
  · rw [heq]
    exact h key
  · exact .inr htarget

/-- A key that has its target keeps it. -/
theorem Towards.keeps {s s' : κ → Option ν} (h : Towards targets s s') {key : κ}
    (hkey : s key = targets key) : s' key = targets key := by
  rcases h key with heq | htarget
  · rw [heq, hkey]
  · exact htarget.2

/-- **Agreeing writes.**  Tasks that together bring every target about, and write nothing
else, leave the targets on top of the map, in every order. -/
theorem Task.all_overlay {α ι : Type} {xs : List ι} {f : ι → Task (κ → Option ν) α}
    {keys : ι → List κ}
    (hsafe : ∀ x ∈ xs, ∀ s, Task.Safe (Towards targets)
      (fun _ s' => ∀ key ∈ keys x, s' key = targets key) (f x) s)
    (hcover : ∀ key, targets key ≠ none → ∃ x ∈ xs, key ∈ keys x)
    (order : List Nat) (s : κ → Option ν) :
    ((Task.all order (xs.map f)).run s).2 = overlay targets s := by
  have hall := Task.Safe.all_map Towards.refl Towards.trans
    (fun x _ _ h hx key hkey => h.keeps (hx key hkey)) order fun x hx => hsafe x hx s
  obtain ⟨hkeys, htowards⟩ :=
    (hall.frame (fun s₁ s₂ h h' => Towards.trans _ s₁ s₂ h' h) (Towards.refl s)).run
      Towards.refl
  funext key
  cases htarget : targets key with
  | none =>
      rw [overlay_of_none htarget]
      exact (htowards key).resolve_right fun h => h.1 htarget
  | some value =>
      obtain ⟨x, hx, hkey⟩ := hcover key (by rw [htarget]; exact Option.some_ne_none value)
      rw [overlay_of_some htarget, hkeys x hx key hkey, htarget]

end BcNode.Verified
