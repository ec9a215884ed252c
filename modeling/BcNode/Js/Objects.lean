import BcNode.Js.Values
import Mathlib.Data.List.Induction

/-!
# What repeated assignments keep

`obj[key] = value`, over and over on one object: a later value under the same key
takes the place of the earlier one, and a value under `__proto__` is never kept at
all.  `Obj.weigh_assignAll` accounts for every value that was assigned: it is in the
object at the end or it was displaced.

`Obj.keys` is the order in which the language lists the keys, `Obj.listed` the values in
that order, and `tallyAll` an object that counts: `tallyAll_eq` says what it holds after
a whole list.
-/

namespace BcNode.Js

open BcNode.Verified

section Objects

variable {α : Type} (weight : α → Nat)

/-- An own property is no `__proto__` and stands once. -/
structure Obj.Proper (obj : Obj α) : Prop where
  nodup : (obj.map Prod.fst).Nodup
  own : ∀ entry ∈ obj, entry.1 ≠ "__proto__"

/-- The summed weight of the values. -/
def Obj.weigh (obj : Obj α) : Nat := obj.foldr (fun entry sum => weight entry.2 + sum) 0

/-- The entries under none of `keys`. -/
def Obj.without (obj : Obj α) (keys : List String) : Obj α :=
  obj.filter fun entry => !keys.contains entry.1

/-- One assignment after the other. -/
def Obj.assignAll (obj : Obj α) (entries : List (String × α)) : Obj α :=
  entries.foldl (fun obj entry => obj.assign entry.1 entry.2) obj

/-- The weight of the values that are not in the object in the end. -/
def displaced : List (String × α) → Nat
  | [] => 0
  | entry :: rest =>
      (if entry.1 = "__proto__" ∨ entry.1 ∈ rest.map Prod.fst then weight entry.2
        else 0) + displaced rest

theorem Obj.assign_proto (obj : Obj α) (value : α) :
    obj.assign "__proto__" value = obj := if_pos rfl

variable {weight} in
theorem Obj.weigh_perm {obj obj' : Obj α} (h : obj.Perm obj') :
    obj.weigh weight = obj'.weigh weight :=
  h.foldr_eq' (fun a _ b _ _ => Nat.add_left_comm (weight b.2) (weight a.2) _) 0

theorem Obj.weigh_cons (entry : String × α) (obj : Obj α) :
    Obj.weigh weight (entry :: obj) = weight entry.2 + obj.weigh weight := rfl

/-- Replacing the value of a key is dropping the old entry and adding the new one. -/
theorem Obj.map_replace_perm {obj : Obj α} (hnodup : (obj.map Prod.fst).Nodup)
    {key : String} (hkey : obj.any fun entry => entry.1 == key) (value : α) :
    List.Perm
      (obj.map fun entry => if entry.1 == key then (key, value) else entry)
      ((key, value) :: obj.filter fun entry => entry.1 != key) := by
  induction obj with
  | nil => cases hkey
  | cons entry obj ih =>
      have hrest := List.nodup_cons.1 hnodup
      by_cases hentry : entry.1 = key
      · -- The key stands here, so it does not stand further on.
        have hother : ∀ e ∈ obj, e.1 ≠ key := fun e he h =>
          hrest.1 (hentry ▸ h ▸ List.mem_map_of_mem he)
        have hmap : (obj.map fun e => if e.1 == key then (key, value) else e) = obj := by
          refine (List.map_congr_left fun e he => ?_).trans (List.map_id obj)
          exact if_neg (by simpa using hother e he)
        have hfilter : (obj.filter fun e => e.1 != key) = obj :=
          List.filter_eq_self.2 fun e he => by simpa using hother e he
        rw [List.map_cons, List.filter_cons, hmap, hfilter]
        simp [hentry]
      · have hany : obj.any fun e => e.1 == key := by
          rw [List.any_cons] at hkey
          simpa [hentry] using hkey
        rw [List.map_cons, List.filter_cons]
        simp only [beq_eq_false_iff_ne.2 hentry, bne, Bool.not_false, if_true,
          Bool.false_eq_true, if_false]
        exact ((ih hrest.2 hany).cons entry).trans (List.Perm.swap ..)

/-- After an assignment the entries are the new one and those of the other keys. -/
theorem Obj.Proper.assign_perm {obj : Obj α} (h : obj.Proper) {key : String}
    (hkey : key ≠ "__proto__") (value : α) :
    List.Perm (obj.assign key value)
      ((key, value) :: obj.filter fun entry => entry.1 != key) := by
  rw [Obj.assign, if_neg hkey]
  split
  · next hany => exact Obj.map_replace_perm h.nodup hany value
  · next hnone =>
      have hfilter : (obj.filter fun entry => entry.1 != key) = obj := by
        refine List.filter_eq_self.2 fun entry hentry => bne_iff_ne.2 fun heq => hnone ?_
        exact List.any_eq_true.2 ⟨entry, hentry, beq_iff_eq.2 heq⟩
      rw [hfilter]
      exact List.perm_append_singleton ..

theorem Obj.Proper.assign {obj : Obj α} (h : obj.Proper) (key : String) (value : α) :
    (obj.assign key value).Proper := by
  by_cases hkey : key = "__proto__"
  · rw [hkey, Obj.assign_proto]
    exact h
  · have hperm := h.assign_perm hkey value
    have hsublist := (List.filter_sublist (l := obj) (p := fun e => e.1 != key)).map Prod.fst
    refine ⟨(hperm.map Prod.fst).nodup_iff.2 (List.nodup_cons.2 ⟨?_, ?_⟩), ?_⟩
    · intro hmem
      obtain ⟨entry, hentry, heq⟩ := List.mem_map.1 hmem
      exact bne_iff_ne.1 (List.mem_filter.1 hentry).2 heq
    · exact hsublist.nodup h.nodup
    · intro entry hentry
      rcases List.mem_cons.1 (hperm.mem_iff.1 hentry) with rfl | hentry
      · exact hkey
      · exact h.own entry (List.mem_filter.1 hentry).1

theorem Obj.Proper.nil : Obj.Proper ([] : Obj α) :=
  ⟨List.nodup_nil, fun _ h => absurd h List.not_mem_nil⟩

theorem Obj.Proper.assignAll {obj : Obj α} (h : obj.Proper)
    (entries : List (String × α)) : (obj.assignAll entries).Proper := by
  induction entries generalizing obj with
  | nil => exact h
  | cons entry rest ih => exact ih (h.assign entry.1 entry.2)

/-- Fewer keys stay proper. -/
theorem Obj.Proper.of_sublist {β : Type} {obj : Obj α} {obj' : Obj β} (h : obj.Proper)
    (hkeys : (obj'.map Prod.fst).Sublist (obj.map Prod.fst)) : obj'.Proper := by
  refine ⟨hkeys.nodup h.nodup, fun entry hentry => ?_⟩
  obtain ⟨old, hold, heq⟩ := List.mem_map.1 (hkeys.subset (List.mem_map_of_mem hentry))
  exact heq ▸ h.own old hold

/-- What one assignment adds, counted over the keys that later assignments leave
alone. -/
theorem Obj.Proper.weigh_assign {obj : Obj α} (h : obj.Proper) (entry : String × α)
    (later : List String) :
    ((obj.assign entry.1 entry.2).without later).weigh weight +
        (if entry.1 = "__proto__" ∨ entry.1 ∈ later then weight entry.2 else 0) =
      (obj.without (entry.1 :: later)).weigh weight + weight entry.2 := by
  by_cases hproto : entry.1 = "__proto__"
  · have hfilter : obj.without (entry.1 :: later) = obj.without later := by
      refine List.filter_congr fun e he => ?_
      have hne : ¬ e.1 = entry.1 := fun heq => h.own e he (heq.trans hproto)
      simp [hne]
    rw [if_pos (Or.inl hproto), hfilter, hproto, Obj.assign_proto]
  · have hperm := (h.assign_perm hproto entry.2).filter fun e => !later.contains e.1
    have hfilter : ((obj.filter fun e => e.1 != entry.1).filter
          fun e => !later.contains e.1) = obj.without (entry.1 :: later) := by
      rw [Obj.without, List.filter_filter]
      refine List.filter_congr fun e _ => ?_
      rw [List.contains_cons, Bool.not_or, Bool.and_comm]
      rfl
    rw [Obj.without, Obj.weigh_perm hperm, List.filter_cons]
    by_cases hlater : entry.1 ∈ later
    · rw [if_pos (Or.inr hlater), if_neg (by simpa using hlater), hfilter]
    · rw [if_neg (not_or_intro hproto hlater), if_pos (by simpa using hlater),
        Obj.weigh_cons, hfilter, Nat.add_zero, Nat.add_comm]

theorem Obj.Proper.weigh_assignAll_filter {obj : Obj α} (h : obj.Proper)
    (entries : List (String × α)) :
    (obj.assignAll entries).weigh weight + displaced weight entries =
      (obj.without (entries.map Prod.fst)).weigh weight +
        Obj.weigh weight entries := by
  induction entries generalizing obj with
  | nil =>
      have hfilter : obj.without [] = obj :=
        List.filter_eq_self.2 fun _ _ => rfl
      rw [List.map_nil, hfilter]
      rfl
  | cons entry rest ih =>
      have hrest := ih (h.assign entry.1 entry.2)
      have hstep := h.weigh_assign weight entry (rest.map Prod.fst)
      rw [List.map_cons, Obj.weigh_cons, displaced]
      have hrun : obj.assignAll (entry :: rest) =
          (obj.assign entry.1 entry.2).assignAll rest := rfl
      rw [hrun]
      omega

/-- **Every assigned value is in the object at the end or was displaced.** -/
theorem Obj.weigh_assignAll (entries : List (String × α)) :
    (Obj.assignAll [] entries).weigh weight + displaced weight entries =
      Obj.weigh weight entries := by
  have h := Obj.Proper.nil.weigh_assignAll_filter weight entries
  rwa [Obj.without, List.filter_nil, Nat.add_comm (Obj.weigh weight [])] at h

variable {weight} in
/-- Nothing of weight is displaced when each displaced value weighs nothing. -/
theorem displaced_eq_zero_iff {entries : List (String × α)} :
    displaced weight entries = 0 ↔
      ∀ before entry after, entries = before ++ entry :: after →
        (entry.1 = "__proto__" ∨ entry.1 ∈ after.map Prod.fst) → weight entry.2 = 0 := by
  induction entries with
  | nil =>
      refine iff_of_true rfl fun before entry after h => ?_
      exact absurd h.symm (List.append_ne_nil_of_right_ne_nil _ (List.cons_ne_nil _ _))
  | cons first rest ih =>
      rw [displaced, Nat.add_eq_zero_iff, ih]
      constructor
      · rintro ⟨hfirst, hrest⟩ before entry after hsplit hdisplaced
        cases before with
        | nil =>
            obtain ⟨rfl, rfl⟩ := List.cons.inj hsplit
            rwa [if_pos hdisplaced] at hfirst
        | cons b before =>
            exact hrest before entry after (List.cons.inj hsplit).2 hdisplaced
      · intro h
        refine ⟨?_, fun before entry after hsplit =>
          h (first :: before) entry after (congrArg (first :: ·) hsplit)⟩
        split
        · next hdisplaced => exact h [] first rest rfl hdisplaced
        · rfl

end Objects

/-! ## The order of the keys -/

/-- The index an array would take the key for. -/
def arrayIndex? (key : String) : Option Nat :=
  match Decimal.parse? key with
  | some n =>
      if 0 ≤ n ∧ n < 4294967295 ∧ toString n = key then some n.toNat else none
  | none => none

/-- `Object.keys(obj)`: the keys that are array indices in ascending order, and after
them the others, oldest first. -/
def Obj.keys {α : Type} (obj : Obj α) : List String :=
  sortAscending (fun key => (arrayIndex? key).getD 0)
      ((obj.map Prod.fst).filter fun key => (arrayIndex? key).isSome) ++
    (obj.map Prod.fst).filter fun key => !(arrayIndex? key).isSome

/-- `Object.values(obj)`, in the order of the keys. -/
def Obj.listed {α : Type} (obj : Obj α) : List α :=
  obj.keys.filterMap fun key => obj.lookup key

/-- An integer that is an array index as a key. -/
def isArrayIndex (n : Int) : Bool := 0 ≤ n && n < 4294967295

/-- Integers in the order in which they are listed as keys. -/
def keyOrder (list : List Int) : List Int :=
  sortAscending Int.toNat (list.filter isArrayIndex) ++
    list.filter fun n => !isArrayIndex n

theorem arrayIndex?_toString (n : Int) :
    arrayIndex? (toString n) = if isArrayIndex n then some n.toNat else none := by
  rw [arrayIndex?, Decimal.parse?_toString]
  simp [isArrayIndex]

theorem Obj.keys_perm {α : Type} (obj : Obj α) : obj.keys.Perm (obj.map Prod.fst) := by
  have hsort := sortAscending_perm (fun key => (arrayIndex? key).getD 0)
    ((obj.map Prod.fst).filter fun key => (arrayIndex? key).isSome)
  exact (hsort.append_right _).trans (List.filter_append_perm _ _)

theorem mem_keyOrder {list : List Int} {n : Int} : n ∈ keyOrder list ↔ n ∈ list := by
  have hsort := sortAscending_perm Int.toNat (list.filter isArrayIndex)
  exact ((hsort.append_right _).trans (List.filter_append_perm _ _)).mem_iff

/-- The keys of an object whose keys are numerals. -/
theorem Obj.keys_map_toString {α : Type} (list : List Int) (value : Int → α) :
    Obj.keys (list.map fun n => (toString n, value n)) =
      (keyOrder list).map toString := by
  have hsome : (fun n : Int => (arrayIndex? (toString n)).isSome) = isArrayIndex := by
    funext n
    rw [arrayIndex?_toString]
    cases isArrayIndex n <;> rfl
  have hkeys : (list.map fun n => (toString n, value n)).map Prod.fst =
      list.map toString := by
    rw [List.map_map]
    rfl
  have hindices : sortAscending (fun key => (arrayIndex? key).getD 0)
      ((list.filter isArrayIndex).map toString) =
      (sortAscending Int.toNat (list.filter isArrayIndex)).map toString := by
    refine (List.map_insertionSort _ _ _ _ fun a ha b hb => ?_).symm
    show a.toNat ≤ b.toNat ↔
      (arrayIndex? (toString a)).getD 0 ≤ (arrayIndex? (toString b)).getD 0
    rw [arrayIndex?_toString, arrayIndex?_toString, if_pos (List.mem_filter.1 ha).2,
      if_pos (List.mem_filter.1 hb).2]
    rfl
  rw [Obj.keys, hkeys, List.filter_map, List.filter_map, keyOrder, List.map_append,
    ← hindices, ← hsome]
  rfl

/-- Whatever their order, these are all values. -/
theorem Obj.Proper.listed_perm {α : Type} {obj : Obj α} (h : obj.Proper) :
    obj.listed.Perm obj.values := by
  have hvalues : ∀ {obj : Obj α}, (obj.map Prod.fst).Nodup →
      (obj.map Prod.fst).filterMap (fun key => obj.lookup key) = obj.values := by
    intro obj hnodup
    induction obj with
    | nil => rfl
    | cons entry obj ih =>
        obtain ⟨hfirst, hrest⟩ := List.nodup_cons.1 hnodup
        have hlater : (obj.map Prod.fst).filterMap
            (fun key => List.lookup key (entry :: obj)) =
            (obj.map Prod.fst).filterMap fun key => obj.lookup key := by
          refine List.filterMap_congr fun key hkey => ?_
          have hne : key ≠ entry.1 := fun heq => hfirst (heq ▸ hkey)
          rw [List.lookup_cons, beq_false_of_ne hne]
        rw [List.map_cons, List.filterMap_cons, hlater, ih hrest, List.lookup_cons_self]
        rfl
  exact (obj.keys_perm.filterMap _).trans (.of_eq (hvalues h.nodup))

/-! ## Counting in an object -/

/-- One more of `val`. -/
def tally (all : Obj Nat) (val : String) : Obj Nat :=
  match all.lookup val with
  | none => all.assign val 1
  | some n => all.assign val (n + 1)

/-- What a list of values leaves in the object. -/
def tallyAll (vals : List String) : Obj Nat := vals.foldl tally []

section Tally

variable {β : Type} [DecidableEq β] {text : β → String}

theorem lookup_map_text {α : Type} (hinj : ∀ a b, text a = text b → a = b)
    (value : β → α) (list : List β) (a : β) :
    (list.map fun b => (text b, value b)).lookup (text a) =
      if a ∈ list then some (value a) else none := by
  induction list with
  | nil => rfl
  | cons b list ih =>
      rw [List.map_cons, List.lookup_cons, ih]
      by_cases hab : a = b
      · rw [hab]
        simp
      · have htext : (text a == text b) = false := beq_false_of_ne fun h => hab (hinj a b h)
        rw [htext]
        simp [hab]

theorem assign_map_text {α : Type} (hinj : ∀ a b, text a = text b → a = b)
    (hproto : ∀ a, text a ≠ "__proto__") (value : β → α) (list : List β) (a : β) (v : α) :
    Obj.assign (list.map fun b => (text b, value b)) (text a) v =
      if a ∈ list then list.map fun b => (text b, if b = a then v else value b)
      else (list.map fun b => (text b, value b)) ++ [(text a, v)] := by
  have hany : ((list.map fun b => (text b, value b)).any fun entry => entry.1 == text a) ↔
      a ∈ list := by
    rw [List.any_map, List.any_eq_true]
    constructor
    · rintro ⟨b, hb, heq⟩
      exact hinj b a (beq_iff_eq.1 heq) ▸ hb
    · exact fun ha => ⟨a, ha, beq_self_eq_true (text a)⟩
  rw [Obj.assign, if_neg (hproto a)]
  by_cases ha : a ∈ list
  · rw [if_pos (hany.2 ha), if_pos ha, List.map_map]
    refine List.map_congr_left fun b _ => ?_
    by_cases hba : b = a
    · simp [hba]
    · have htext : text b ≠ text a := fun h => hba (hinj b a h)
      simp [hba, htext]
  · rw [if_neg (hany.not.2 ha), if_neg ha]

/-- **The object holds each value once, with the number of times it was counted.** -/
theorem tallyAll_eq (hinj : ∀ a b, text a = text b → a = b)
    (hproto : ∀ a, text a ≠ "__proto__") (list : List β) :
    tallyAll (list.map text) = list.eraseDups.map fun a => (text a, list.count a) := by
  induction list using List.reverseRecOn with
  | nil => rfl
  | append_singleton list a ih =>
      have hstep : tallyAll ((list ++ [a]).map text) =
          tally (tallyAll (list.map text)) (text a) := by
        rw [List.map_append, tallyAll, List.foldl_append]
        rfl
      have hcount : ∀ b, b ≠ a → (list ++ [a]).count b = list.count b := by
        intro b hba
        have hzero : [a].count b = 0 := List.count_eq_zero.2 (by simpa using hba)
        rw [List.count_append, hzero, Nat.add_zero]
      have hself : (list ++ [a]).count a = list.count a + 1 := by
        rw [List.count_append, List.count_singleton_self]
      rw [hstep, ih, tally, lookup_map_text hinj, List.eraseDups_append]
      by_cases ha : a ∈ list.eraseDups
      · have hmem := List.mem_eraseDups.1 ha
        have hrest : [a].removeAll list = [] := by simp [List.removeAll, hmem]
        rw [if_pos ha, hrest, List.eraseDups_nil, List.append_nil]
        show Obj.assign _ (text a) (list.count a + 1) = _
        rw [assign_map_text hinj hproto, if_pos ha]
        refine List.map_congr_left fun b _ => ?_
        by_cases hba : b = a
        · rw [if_pos hba, hba, hself]
        · rw [if_neg hba, hcount b hba]
      · have hmem := mt List.mem_eraseDups.2 ha
        have hrest : [a].removeAll list = [a] := by simp [List.removeAll, hmem]
        have hold : (list.eraseDups.map fun b => (text b, list.count b)) =
            list.eraseDups.map fun b => (text b, (list ++ [a]).count b) := by
          refine List.map_congr_left fun b hb => ?_
          rw [hcount b fun hba => ha (hba ▸ hb)]
        rw [if_neg ha, hrest]
        show Obj.assign _ (text a) 1 = _
        rw [assign_map_text hinj hproto, if_neg ha, List.map_append, hold]
        show _ = _ ++ [(text a, (list ++ [a]).count a)]
        rw [hself, List.count_eq_zero.2 hmem]

end Tally

end BcNode.Js
