import Mathlib.Data.List.Basic
import Mathlib.Data.List.Induction

/-!
# Hash chains

A hash chain folds a list of items into one digest: the first item is hashed by
itself (`first`), every later one together with the digest so far (`next`).  The
chain does not record how many items it has taken in.

`root_inj` says what equal roots nevertheless give away.  The items fall into a
leading part of any length and a trailing part of a length both sides share.  If
the hash has no collision between the inputs of the two chains, then the parts
are equal, the leading one with its length.  The chains are read from the end:
trailing items are matched in pairs, then leading ones, and the longer chain is
refuted where the shorter one begins, because there an input of the form `first`
would have to be one of the form `next`.

What the encoding of the inputs must provide for this is the structure `Framing`.
-/

namespace BcNode.Verified.HashChain

variable {I D T : Type}

/-- The digest after `items`, from digest `d` on. -/
def chain (H : I → D) (next : D → T → I) (d : D) (items : List T) : D :=
  items.foldl (fun d t => H (next d t)) d

/-- What is hashed on the way. -/
def inputs (H : I → D) (next : D → T → I) : D → List T → List I
  | _, [] => []
  | d, t :: items => next d t :: inputs H next (H (next d t)) items

/-- The root of a chain whose first item is `t`. -/
def root (H : I → D) (first : T → I) (next : D → T → I) (t : T) (items : List T) : D :=
  chain H next (H (first t)) items

/-- What is hashed for a root. -/
def rootInputs (H : I → D) (first : T → I) (next : D → T → I) (t : T)
    (items : List T) : List I :=
  first t :: inputs H next (H (first t)) items

/-- No input on one side collides with a different one on the other. -/
def CollisionFree (H : I → D) (left right : List I) : Prop :=
  ∀ i ∈ left, ∀ j ∈ right, H i = H j → i = j

/-- An encoding of inputs that can be read back: from a first input the item,
from a later one the item and the digest before it, and the two kinds apart for
the items in `Lead`. -/
structure Framing (H : I → D) (first : T → I) (next : D → T → I) (Lead : T → Prop) :
    Prop where
  first_inj : ∀ {t t' : T}, first t = first t' → t = t'
  next_inj : ∀ {i i' : I} {t t' : T},
    next (H i) t = next (H i') t' → H i = H i' ∧ t = t'
  first_ne_next : ∀ {t t' : T} {i : I}, Lead t → Lead t' → first t ≠ next (H i) t'

variable {H : I → D} {first : T → I} {next : D → T → I} {Lead : T → Prop}

/-! ## One item more -/

@[simp] theorem chain_nil (d : D) : chain H next d [] = d := rfl

theorem chain_concat (d : D) (items : List T) (t : T) :
    chain H next d (items ++ [t]) = H (next (chain H next d items) t) := by
  rw [chain, List.foldl_append]
  rfl

theorem inputs_append (d : D) (xs ys : List T) :
    inputs H next d (xs ++ ys) =
      inputs H next d xs ++ inputs H next (chain H next d xs) ys := by
  induction xs generalizing d with
  | nil => rfl
  | cons x xs ih =>
      simp only [List.cons_append, inputs, ih]
      rfl

theorem inputs_concat (d : D) (items : List T) (t : T) :
    inputs H next d (items ++ [t]) =
      inputs H next d items ++ [next (chain H next d items) t] :=
  inputs_append d items [t]

/-- Every digest of a chain that starts at a digest is one. -/
theorem exists_chain_eq (i : I) (items : List T) :
    ∃ k, chain H next (H i) items = H k := by
  rcases List.eq_nil_or_concat items with rfl | ⟨items, t, rfl⟩
  · exact ⟨i, rfl⟩
  · rw [List.concat_eq_append, chain_concat]
    exact ⟨_, rfl⟩

theorem CollisionFree.mono {left left' right right' : List I}
    (h : CollisionFree H left right) (hleft : ∀ i ∈ left', i ∈ left)
    (hright : ∀ i ∈ right', i ∈ right) : CollisionFree H left' right' :=
  fun i hi j hj => h i (hleft i hi) j (hright j hj)

theorem CollisionFree.symm {left right : List I} (h : CollisionFree H left right) :
    CollisionFree H right left :=
  fun i hi j hj heq => (h j hj i hi heq.symm).symm

/-! ## Reading a chain from the end -/

/-- Trailing parts of one length can be split off. -/
theorem chain_append_inj (F : Framing H first next Lead) {i j : I} {xs ys : List T}
    (us vs : List T) (hlen : us.length = vs.length)
    (hfree : CollisionFree H (inputs H next (H i) (xs ++ us))
      (inputs H next (H j) (ys ++ vs)))
    (h : chain H next (H i) (xs ++ us) = chain H next (H j) (ys ++ vs)) :
    chain H next (H i) xs = chain H next (H j) ys ∧ us = vs := by
  induction us using List.reverseRecOn generalizing vs with
  | nil =>
      obtain rfl := List.eq_nil_of_length_eq_zero hlen.symm
      rw [List.append_nil, List.append_nil] at h
      exact ⟨h, rfl⟩
  | append_singleton us u ih =>
      rcases List.eq_nil_or_concat vs with rfl | ⟨vs, v, rfl⟩
      · simp at hlen
      rw [List.concat_eq_append] at *
      rw [← List.append_assoc, ← List.append_assoc] at h hfree
      rw [chain_concat, chain_concat] at h
      rw [inputs_concat, inputs_concat] at hfree
      have hinput := hfree _ (List.mem_append_right _ (List.mem_singleton_self _)) _
        (List.mem_append_right _ (List.mem_singleton_self _)) h
      obtain ⟨k, hk⟩ := @exists_chain_eq I D T H next i (xs ++ us)
      obtain ⟨k', hk'⟩ := @exists_chain_eq I D T H next j (ys ++ vs)
      rw [hk, hk'] at hinput
      obtain ⟨hdigest, rfl⟩ := F.next_inj hinput
      rw [← hk, ← hk'] at hdigest
      obtain ⟨hxs, rfl⟩ := ih vs (by simpa using hlen)
        (hfree.mono (fun _ hi => List.mem_append_left _ hi)
          (fun _ hi => List.mem_append_left _ hi)) hdigest
      exact ⟨hxs, rfl⟩

/-- A chain of leading items does not outgrow another one with the same root. -/
theorem length_le_of_root_eq (F : Framing H first next Lead) {x y : T} {xs ys : List T}
    (hx : ∀ t ∈ xs, Lead t) (hy : Lead y)
    (hfree : CollisionFree H (rootInputs H first next x xs)
      (rootInputs H first next y ys))
    (h : root H first next x xs = root H first next y ys) :
    xs.length ≤ ys.length := by
  refine Nat.le_of_not_lt fun hlt => ?_
  have hsplit : xs.take (xs.length - ys.length) ++
      xs.drop (xs.length - ys.length) = xs := List.take_append_drop _ _
  have hdrop : (xs.drop (xs.length - ys.length)).length = ys.length := by
    rw [List.length_drop]
    omega
  have hne : xs.take (xs.length - ys.length) ≠ [] := by
    intro hnil
    have := congrArg List.length hnil
    rw [List.length_take, List.length_nil] at this
    omega
  generalize xs.take (xs.length - ys.length) = front at hsplit hne
  generalize xs.drop (xs.length - ys.length) = back at hsplit hdrop
  subst hsplit
  have htail : CollisionFree H (inputs H next (H (first x)) (front ++ back))
      (inputs H next (H (first y)) ([] ++ ys)) :=
    hfree.mono (fun _ hi => List.mem_cons_of_mem _ hi)
      (fun _ hi => List.mem_cons_of_mem _ hi)
  obtain ⟨hfront, rfl⟩ := chain_append_inj F back ys hdrop htail h
  -- the last item of `front` was hashed to the very first digest of the other side
  rcases List.eq_nil_or_concat front with rfl | ⟨front, t, rfl⟩
  · exact hne rfl
  rw [List.concat_eq_append] at *
  rw [chain_concat, chain_nil] at hfront
  have hmem : next (chain H next (H (first x)) front) t ∈
      rootInputs H first next x (front ++ [t] ++ back) := by
    refine List.mem_cons_of_mem _ ?_
    rw [inputs_append, inputs_concat]
    exact List.mem_append_left _ (List.mem_append_right _ (List.mem_singleton_self _))
  have hinput := hfree _ hmem _ List.mem_cons_self hfront
  obtain ⟨k, hk⟩ := @exists_chain_eq I D T H next (first x) front
  rw [hk] at hinput
  exact F.first_ne_next hy (hx t (by simp)) hinput.symm

/-- **A root binds its items.**  Where the inputs of two chains do not collide,
equal roots come from equal leading items and, the trailing ones being equally
many, from equal trailing items. -/
theorem root_inj (F : Framing H first next Lead) {x y : T} {xs ys us vs : List T}
    (hxs : ∀ t ∈ x :: xs, Lead t) (hys : ∀ t ∈ y :: ys, Lead t)
    (hlen : us.length = vs.length)
    (hfree : CollisionFree H (rootInputs H first next x (xs ++ us))
      (rootInputs H first next y (ys ++ vs)))
    (h : root H first next x (xs ++ us) = root H first next y (ys ++ vs)) :
    x :: xs = y :: ys ∧ us = vs := by
  have htail : CollisionFree H (inputs H next (H (first x)) (xs ++ us))
      (inputs H next (H (first y)) (ys ++ vs)) :=
    hfree.mono (fun _ hi => List.mem_cons_of_mem _ hi)
      (fun _ hi => List.mem_cons_of_mem _ hi)
  obtain ⟨hlead, rfl⟩ := chain_append_inj F us vs hlen htail h
  have hleadFree : CollisionFree H (rootInputs H first next x xs)
      (rootInputs H first next y ys) := by
    refine hfree.mono ?_ ?_ <;>
    · intro i hi
      rw [rootInputs, inputs_append]
      exact List.mem_append_left (inputs _ _ _ us) hi
  have hlengths : xs.length = ys.length := by
    refine Nat.le_antisymm ?_ ?_
    · exact length_le_of_root_eq F (fun t ht => hxs t (List.mem_cons_of_mem _ ht))
        (hys y List.mem_cons_self) hleadFree hlead
    · exact length_le_of_root_eq F (fun t ht => hys t (List.mem_cons_of_mem _ ht))
        (hxs x List.mem_cons_self) hleadFree.symm hlead.symm
  have hleadTail : CollisionFree H (inputs H next (H (first x)) ([] ++ xs))
      (inputs H next (H (first y)) ([] ++ ys)) :=
    hleadFree.mono (fun _ hi => List.mem_cons_of_mem _ hi)
      (fun _ hi => List.mem_cons_of_mem _ hi)
  obtain ⟨hdigest, rfl⟩ := chain_append_inj F xs ys hlengths hleadTail hlead
  have hinput := hfree _ List.mem_cons_self _ List.mem_cons_self hdigest
  exact ⟨by rw [F.first_inj hinput], rfl⟩

end BcNode.Verified.HashChain
