import BcNode.Verified.Decimal
import Mathlib.Data.List.Pairwise
import Mathlib.Data.List.Sort

/-!
# The JavaScript the node is written in

What the modelled functions use of the language, of Node's `Buffer` and of
`bn.js`.

Numbers are protobuf `uint64` fields, clock readings and counters; they are
naturals here.  JavaScript holds them exactly below `2 ^ 53`, where they are `Safe`,
and `new BN` throws from there on: that is `newBN`, and `sortBN` a sort whose
comparison goes through it.  The validator, which reads the numbers of peers, is
modelled with both.  Elsewhere the numbers that reach `new BN` are the node's own (the
clock, what its rovers bring, the heights of stored blocks); they are taken to be
`Safe` there, as the functions concerned say.

`BN` values are integers.  A `BN` is mostly built from the text of a string
field, and what `bn.js` makes of text that is not a decimal numeral is left
open: `Packages.bnText` stands for it.  The other fields of `Packages` are the
packages the node calls and this repository does not contain.
-/

namespace BcNode.Js

open BcNode.Verified

/-- What a JavaScript call throws or a promise rejects with. -/
inductive JsError where
  | typeError
  | error (message : String)
  deriving DecidableEq, Repr

/-- The packages behind the modelled functions. -/
structure Packages where
  /-- The upper half of the hexadecimal blake2b digest, over `avon`. -/
  blake2bl : String → String
  /-- The summed cosine distance of two strings, times `10 ^ 15`, floored. -/
  distance : String → String → Int
  /-- `divRound` of `bn.js`. -/
  divRound : Int → Int → Int
  /-- `new BN(text)` where `text` is not a decimal numeral. -/
  bnText : String → Int
  /-- `text < 1` where `text` is not a decimal numeral. -/
  textLtOne : String → Bool

/-! ## `bn.js` -/

/-- The numbers that JavaScript holds exactly and `bn.js` takes. -/
def Safe (n : Nat) : Prop := n < 2 ^ 53

instance (n : Nat) : Decidable (Safe n) := inferInstanceAs (Decidable (_ < _))

theorem Safe.of_le {n m : Nat} (h : Safe m) (hle : n ≤ m) : Safe n :=
  Nat.lt_of_le_of_lt hle h

/-- `assert(number < 0x20000000000000)` in `new BN`. -/
def assertionFailed : JsError := .error "Assertion failed"

/-- `new BN(n)` for a number. -/
def newBN (n : Int) : Except JsError Int :=
  if Safe n.natAbs then .ok n else .error assertionFailed

/-- `n.toNumber()` for a `BN`. -/
def toNumber (n : Int) : Except JsError Int :=
  if Safe n.natAbs then .ok n
  else .error (.error "Number can only safely store up to 53 bits")

theorem newBN_safe {n : Nat} (h : Safe n) : newBN n = .ok (n : Int) := if_pos h

theorem newBN_ok {n : Nat} {m : Int} : newBN n = .ok m ↔ Safe n ∧ m = n := by
  by_cases h : Safe n
  · rw [newBN_safe h, Except.ok.injEq, and_iff_right h, eq_comm]
  · have hthrows : newBN n = .error assertionFailed := if_neg h
    rw [hthrows]
    exact iff_of_false (fun hok => nomatch hok) fun hsafe => h hsafe.1

/-- `new BN(text)`. -/
def Packages.bn (pkg : Packages) (text : String) : Int :=
  (Decimal.parse? text).getD (pkg.bnText text)

@[simp] theorem Packages.bn_toString (pkg : Packages) (n : Int) :
    pkg.bn (toString n) = n := by
  rw [Packages.bn, Decimal.parse?_toString, Option.getD_some]

/-- `a.gt(n)` where `n` is a plain number and not a `BN`.  `cmp` compares the
sign fields first; a number has none, so a non-negative receiver counts as the
greater one whatever `n` is, and a negative one goes on to read the missing
words of `n`. -/
def bnGtNumber (a : Int) (_n : Nat) : Except JsError Bool :=
  if a < 0 then throw .typeError else pure true

@[simp] theorem bnGtNumber_natCast (a n : Nat) :
    bnGtNumber (a : Int) n = .ok true := by
  have ha : ¬ ((a : Int) < 0) := by omega
  rw [bnGtNumber, if_neg ha]
  rfl

/-- `a.lt(b)` where `b` is a boolean and not a `BN`.  As with a plain number, a
non-negative receiver counts as the greater one, and a negative one goes on to read the
missing words. -/
def bnLtBoolean (a : Int) (_b : Bool) : Except JsError Bool :=
  if a < 0 then throw .typeError else pure false

/-- `new BN(a) === true`. -/
def bnIsTrue (_a : Int) : Bool := false

/-- `text < 1`: the comparison turns the text into a number. -/
def Packages.ltOne (pkg : Packages) (text : String) : Bool :=
  match Decimal.parse? text with
  | some n => decide (n < 1)
  | none => pkg.textLtOne text

/-- `new BN(a) === new BN(b)`: two fresh objects are never the same one. -/
def sameFreshObject : Bool := false

/-- `===` between a number and a string. -/
def numberIsString (_n : Nat) (_s : String) : Bool := false

/-! ## Buffers -/

/-- The value of a hexadecimal digit. -/
def hexDigit? (c : Char) : Option Nat :=
  if '0' ≤ c ∧ c ≤ '9' then some (c.toNat - '0'.toNat)
  else if 'a' ≤ c ∧ c ≤ 'f' then some (c.toNat - 'a'.toNat + 10)
  else if 'A' ≤ c ∧ c ≤ 'F' then some (c.toNat - 'A'.toNat + 10)
  else none

/-- `Buffer.from(text, 'hex')`: whole bytes up to the first pair that is not
hexadecimal. -/
def hexBytes : List Char → List Nat
  | hi :: lo :: rest =>
      match hexDigit? hi, hexDigit? lo with
      | some h, some l => (16 * h + l) :: hexBytes rest
      | _, _ => []
  | _ => []

/-- `new BN(buffer)`, most significant byte first. -/
def bnOfBuffer (bytes : List Nat) : Nat :=
  bytes.foldl (fun acc byte => 256 * acc + byte) 0

/-- `new BN(toHexBuffer(text))`. -/
def bnOfHex (text : String) : Nat := bnOfBuffer (hexBytes text.toList)

/-! ## Text in base 16 -/

/-- `new BN(text, 16)`.  `bnText16` is what `bn.js` makes of text that is no
hexadecimal numeral. -/
def bn16 (bnText16 : String → Int) (text : String) : Int :=
  match text.toList.mapM hexDigit? with
  | some (digit :: digits) => (Positional.value 16 (digit :: digits) : Int)
  | _ => bnText16 text

theorem hexDigit?_of_isDigit {c : Char} (h : c.isDigit = true) :
    hexDigit? c = some (c.toNat - '0'.toNat) := by
  have hrange := Char.isDigit_iff_toNat.1 h
  exact if_pos ⟨Char.le_def.2 hrange.1, Char.le_def.2 hrange.2⟩

theorem mapM_hexDigit? {cs : List Char} (h : ∀ c ∈ cs, c.isDigit = true) :
    cs.mapM hexDigit? = some (cs.map fun c => c.toNat - '0'.toNat) := by
  induction cs with
  | nil => rfl
  | cons c cs ih =>
      have hrest := ih fun d hd => h d (List.mem_cons_of_mem _ hd)
      rw [List.mapM_cons, hexDigit?_of_isDigit (h c List.mem_cons_self), hrest]
      rfl

/-- Decimal digits are hexadecimal ones, at another weight. -/
theorem bn16_numeral (bnText16 : String → Int) {text : String}
    (h : Decimal.Numeral text) :
    bn16 bnText16 text = (Positional.value 16 (Decimal.digitValues text) : Int) := by
  obtain ⟨digit, digits, hdigits⟩ := List.exists_cons_of_ne_nil h.canonical.ne_nil
  rw [bn16, mapM_hexDigit? h.isDigit]
  rw [Decimal.digitValues] at hdigits ⊢
  rw [hdigits]

/-! ## Objects used as maps -/

/-- The own properties of an object that serves as a map, oldest first. -/
abbrev Obj (α : Type) := List (String × α)

/-- `obj[key] = value`.  Assigning `__proto__` changes the prototype and adds
no own property. -/
def Obj.assign {α : Type} (obj : Obj α) (key : String) (value : α) : Obj α :=
  if key = "__proto__" then obj
  else if obj.any fun entry => entry.1 == key then
    obj.map fun entry => if entry.1 == key then (key, value) else entry
  else obj ++ [(key, value)]

/-- The values, oldest first. -/
def Obj.values {α : Type} (obj : Obj α) : List α := obj.map Prod.snd

/-- The keys every object answers to without owning them. -/
def objectPrototypeKeys : List String :=
  ["constructor", "__defineGetter__", "__defineSetter__", "hasOwnProperty",
    "__lookupGetter__", "__lookupSetter__", "isPrototypeOf",
    "propertyIsEnumerable", "toString", "valueOf", "__proto__", "toLocaleString"]

/-! ## Arrays and ramda -/

/-- `list.sort((a, b) => ...)` by an ascending numeric key: a stable sort. -/
def sortAscending {α : Type} (key : α → Nat) (list : List α) : List α :=
  list.insertionSort fun a b => key a ≤ key b

/-- The same by a descending key. -/
def sortDescending {α : Type} (key : α → Nat) (list : List α) : List α :=
  list.insertionSort fun a b => key b ≤ key a

/-- The ascending sort where the comparison hands the keys to `new BN`.  In a list of two
or more each element is compared with another. -/
def sortBN {α : Type} (key : α → Nat) (list : List α) : Except JsError (List α) :=
  if list.length < 2 ∨ ∀ a ∈ list, Safe (key a) then .ok (sortAscending key list)
  else .error assertionFailed

/-- `list.sort(compare)`: a stable sort. -/
def sortWith {α : Type} (compare : α → α → Int) (list : List α) : List α :=
  list.insertionSort fun a b => compare a b ≤ 0

section Sorting

variable {α : Type} (key : α → Nat) (list : List α)

theorem sortAscending_perm : (sortAscending key list).Perm list :=
  List.perm_insertionSort _ list

theorem sortDescending_perm : (sortDescending key list).Perm list :=
  List.perm_insertionSort _ list

theorem pairwise_sortAscending : (sortAscending key list).Pairwise (key · ≤ key ·) := by
  have htotal : Std.Total fun a b : α => key a ≤ key b := ⟨fun a b => Nat.le_total ..⟩
  have htrans : IsTrans α fun a b => key a ≤ key b := ⟨fun _ _ _ => Nat.le_trans⟩
  exact List.pairwise_insertionSort _ list

theorem pairwise_sortDescending :
    (sortDescending key list).Pairwise fun a b => key b ≤ key a := by
  have htotal : Std.Total fun a b : α => key b ≤ key a := ⟨fun a b => Nat.le_total ..⟩
  have htrans : IsTrans α fun a b => key b ≤ key a :=
    ⟨fun _ _ _ h h' => Nat.le_trans h' h⟩
  exact List.pairwise_insertionSort _ list

variable {list} in
/-- Of a list that is not empty the highest comes first. -/
theorem exists_sortDescending_cons (h : list ≠ []) :
    ∃ highest rest, sortDescending key list = highest :: rest ∧
      ∀ b ∈ highest :: rest, key b ≤ key highest := by
  have hpairwise := pairwise_sortDescending key list
  cases hsorted : sortDescending key list with
  | nil => exact absurd (hsorted ▸ sortDescending_perm key list).symm.eq_nil h
  | cons highest rest =>
      rw [hsorted] at hpairwise
      refine ⟨highest, rest, rfl, fun b hb => ?_⟩
      rcases List.mem_cons.1 hb with rfl | hrest
      · exact Nat.le_refl _
      · exact List.rel_of_pairwise_cons hpairwise hrest

variable {key list} in
/-- A comparison of keys sorts by the keys. -/
theorem sortWith_eq_sortAscending {compare : α → α → Int}
    (h : ∀ a ∈ list, ∀ b ∈ list, compare a b ≤ 0 ↔ key a ≤ key b) :
    sortWith compare list = sortAscending key list := by
  have hmap := List.map_insertionSort (fun a b => compare a b ≤ 0)
    (fun a b => key a ≤ key b) id list h
  rwa [List.map_id, List.map_id] at hmap

variable {key list} in
/-- The same for a comparison that puts the greater key first, on the images of a
function. -/
theorem sortWith_map_eq_sortDescending {β : Type} {f : α → β} {compare : β → β → Int}
    (h : ∀ a ∈ list, ∀ b ∈ list, compare (f a) (f b) ≤ 0 ↔ key b ≤ key a) :
    sortWith compare (list.map f) = (sortDescending key list).map f :=
  (List.map_insertionSort (fun a b => key b ≤ key a) (fun a b => compare a b ≤ 0) f list
    fun a ha b hb => (h a ha b hb).symm).symm

variable {key list} in
/-- Where no two keys are equal there is one descending order. -/
theorem eq_sortDescending {sorted : List α} (hperm : sorted.Perm list)
    (hkeys : (list.map key).Nodup) (hsorted : sorted.Pairwise fun a b => key b ≤ key a) :
    sorted = sortDescending key list := by
  refine List.Perm.eq_of_pairwise (fun a b ha hb hba hab => ?_) hsorted
    (pairwise_sortDescending key list) (hperm.trans (sortDescending_perm key list).symm)
  have hb := (sortDescending_perm key list).mem_iff.1 hb
  exact List.inj_on_of_nodup_map hkeys (hperm.mem_iff.1 ha) hb (Nat.le_antisymm hab hba)

variable {key list} in
/-- The same in ascending order. -/
theorem eq_sortAscending {sorted : List α} (hperm : sorted.Perm list)
    (hkeys : (list.map key).Nodup) (hsorted : sorted.Pairwise (key · ≤ key ·)) :
    sorted = sortAscending key list := by
  refine List.Perm.eq_of_pairwise (fun a b ha hb hab hba => ?_) hsorted
    (pairwise_sortAscending key list) (hperm.trans (sortAscending_perm key list).symm)
  have hb := (sortAscending_perm key list).mem_iff.1 hb
  exact List.inj_on_of_nodup_map hkeys (hperm.mem_iff.1 ha) hb (Nat.le_antisymm hab hba)

variable {key list} in
/-- What holds from each element of the sorted list to the later ones holds from each key
to the greater ones. -/
theorem pairwise_sortAscending_iff {r : α → α → Prop} (hkeys : (list.map key).Nodup) :
    (sortAscending key list).Pairwise r ↔
      ∀ a ∈ list, ∀ b ∈ list, key a < key b → r a b := by
  have hperm := sortAscending_perm key list
  constructor
  · intro h a ha b hb
    have hsymm : Std.Symm fun a b => (key a < key b → r a b) ∧ (key b < key a → r b a) :=
      ⟨fun _ _ => And.symm⟩
    have hboth : (sortAscending key list).Pairwise fun a b =>
        (key a < key b → r a b) ∧ (key b < key a → r b a) := by
      refine (h.and (pairwise_sortAscending key list)).imp fun {a b} hab => ?_
      exact ⟨fun _ => hab.1, fun hlt => absurd hab.2 (Nat.not_le_of_lt hlt)⟩
    exact (hboth.forall_of_forall
      (fun a _ => ⟨fun hlt => absurd hlt (Nat.lt_irrefl _),
        fun hlt => absurd hlt (Nat.lt_irrefl _)⟩)
      (hperm.mem_iff.2 ha) (hperm.mem_iff.2 hb)).1
  · intro h
    have hdistinct := List.pairwise_map.1 ((hperm.map key).nodup_iff.2 hkeys)
    refine ((pairwise_sortAscending key list).and hdistinct).imp_of_mem
      fun {a b} ha hb hab => ?_
    exact h a (hperm.mem_iff.1 ha) b (hperm.mem_iff.1 hb) (Nat.lt_of_le_of_ne hab.1 hab.2)

variable {key list} in
theorem sortBN_ok {sorted : List α} :
    sortBN key list = .ok sorted ↔
      (list.length < 2 ∨ ∀ a ∈ list, Safe (key a)) ∧ sorted = sortAscending key list := by
  unfold sortBN
  split
  · next h => rw [Except.ok.injEq, and_iff_right h, eq_comm]
  · next h => exact iff_of_false (fun hok => nomatch hok) fun hsorted => h hsorted.1

variable {key list} in
/-- Of safe keys it is the sort by the keys. -/
theorem sortBN_safe (h : ∀ a ∈ list, Safe (key a)) :
    sortBN key list = .ok (sortAscending key list) := if_pos (Or.inr h)

end Sorting

/-- ramda's `difference`: the members of the first list that the second one
lacks, without repetitions. -/
def difference (first second : List String) : List String :=
  (first.filter fun a => !second.contains a).eraseDups

/-- ramda's `aperture(2, list)`: the adjacent pairs. -/
def aperture2 {α : Type} (list : List α) : List (α × α) := list.zip list.tail

theorem mem_of_aperture2 {α : Type} {list : List α} {pair : α × α}
    (h : pair ∈ aperture2 list) : pair.1 ∈ list ∧ pair.2 ∈ list :=
  ⟨(List.of_mem_zip h).1, List.mem_of_mem_tail (List.of_mem_zip h).2⟩

/-- Something holds of all adjacent pairs where it does along the list. -/
theorem forall_mem_aperture2 {α : Type} {r : α → α → Prop} (list : List α) :
    (∀ pair ∈ aperture2 list, r pair.1 pair.2) ↔ list.IsChain r := by
  induction list with
  | nil => exact iff_of_true (List.forall_mem_nil _) .nil
  | cons first rest ih =>
      cases rest with
      | nil => exact iff_of_true (List.forall_mem_nil _) (.singleton first)
      | cons second rest =>
          rw [List.isChain_cons_cons, ← ih, aperture2, List.tail_cons,
            List.zip_cons_cons, List.forall_mem_cons]
          rfl

/-- A check of the adjacent pairs. -/
theorem aperture2_all_iff {α : Type} (r : α → α → Bool) (list : List α) :
    (aperture2 list).all (fun pair => r pair.1 pair.2) ↔
      list.IsChain fun a b => r a b := by
  rw [← forall_mem_aperture2, List.all_eq_true]

/-- The last element of a sorted list exists as soon as the list has one. -/
theorem getLast?_sortAscending_isSome {α : Type} (key : α → Nat) {list : List α}
    (h : list ≠ []) : ∃ a ∈ list, (sortAscending key list).getLast? = some a := by
  have hperm := sortAscending_perm key list
  have hne : sortAscending key list ≠ [] := fun hnil => h (hnil ▸ hperm).symm.eq_nil
  exact ⟨(sortAscending key list).getLast hne, hperm.mem_iff.1 (List.getLast_mem hne),
    List.getLast?_eq_some_getLast hne⟩

/-- A sequence of two steps returns exactly when both do. -/
theorem bind_ok {α β : Type} {x : Except JsError α} {f : α → Except JsError β} {b : β} :
    (x >>= f) = .ok b ↔ ∃ a, x = .ok a ∧ f a = .ok b := by
  cases x with
  | error e => simp [bind, Except.bind]
  | ok a => simp [bind, Except.bind]

/-- Past an early `return` of another value. -/
theorem ite_return_ok {α : Type} {c : Prop} [Decidable c] {a b : α}
    {rest : Except JsError α} (hne : a ≠ b) :
    (if c then pure a else rest) = .ok b ↔ ¬ c ∧ rest = .ok b := by
  by_cases hc : c
  · have hab : (pure a : Except JsError α) ≠ .ok b := fun h => hne (Except.ok.inj h)
    simp [hc, hab]
  · simp [hc]

/-- A fold that can throw, step by step. -/
theorem foldlM_cons_ok {α β : Type} {f : β → α → Except JsError β} {a : α}
    {list : List α} {s s' : β} :
    (a :: list).foldlM f s = .ok s' ↔
      ∃ t, f s a = .ok t ∧ list.foldlM f t = .ok s' := by
  rw [List.foldlM_cons]
  exact bind_ok

/-- A `map` that throws nowhere. -/
theorem mapM_ok {α β : Type} {f : α → Except JsError β} {list : List α}
    (h : ∀ a ∈ list, ∃ b, f a = .ok b) :
    list.mapM f = .ok (list.filterMap fun a => (f a).toOption) := by
  induction list with
  | nil => rfl
  | cons a list ih =>
      obtain ⟨b, hb⟩ := h a List.mem_cons_self
      have hrest := ih fun c hc => h c (List.mem_cons_of_mem _ hc)
      rw [List.mapM_cons, hb, hrest, List.filterMap_cons_some (b := b) (by rw [hb]; rfl)]
      rfl

/-- It returns exactly where it throws nowhere. -/
theorem mapM_isOk_iff {α β : Type} {f : α → Except JsError β} {list : List α} :
    (∃ values, list.mapM f = .ok values) ↔ ∀ a ∈ list, ∃ b, f a = .ok b := by
  refine ⟨?_, fun h => ⟨_, mapM_ok h⟩⟩
  induction list with
  | nil => exact fun _ => List.forall_mem_nil _
  | cons a list ih =>
      rintro ⟨values, h⟩
      rw [List.mapM_cons] at h
      obtain ⟨b, hb, h⟩ := bind_ok.1 h
      obtain ⟨rest, hrest, -⟩ := bind_ok.1 h
      exact List.forall_mem_cons.2 ⟨⟨b, hb⟩, ih ⟨rest, hrest⟩⟩

/-- A list of results without an error. -/
theorem mapM_id_ok {α : Type} {results : List (Except JsError α)} :
    (∃ values, results.mapM id = .ok values) ↔ ∀ r ∈ results, ∃ a, r = .ok a :=
  mapM_isOk_iff

/-- What a `map` that can throw returns comes from its list. -/
theorem mem_of_mapM_ok {α β : Type} {f : α → Except JsError β} {list : List α} :
    ∀ {list' : List β}, list.mapM f = .ok list' →
      ∀ b ∈ list', ∃ a ∈ list, f a = .ok b := by
  induction list with
  | nil =>
      intro list' h b hb
      cases h
      cases hb
  | cons a list ih =>
      intro list' h b hb
      rw [List.mapM_cons] at h
      obtain ⟨first, hfirst, h⟩ := bind_ok.1 h
      obtain ⟨rest, hrest, h⟩ := bind_ok.1 h
      cases h
      rcases List.mem_cons.1 hb with rfl | hmem
      · exact ⟨a, List.mem_cons_self, hfirst⟩
      · obtain ⟨c, hc, hvalue⟩ := ih hrest b hmem
        exact ⟨c, List.mem_cons_of_mem _ hc, hvalue⟩

end BcNode.Js
