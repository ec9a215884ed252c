import BcNode.Js.Text
import BcNode.Persistence.Store

/-!
# The database, key by key

`putPending`, `stepFrom` and `flushFrom` do not look single keys up by their parts; they
build them, or take what an iterator over the database gives them, and look at the text.
Here the database is a map from texts, of which `Database.store` is the view the other
modules have.

`putPending` goes on only after a pending key.  At any other key, and at the end, it
neither calls itself nor settles: `putPending_exec`.
-/

namespace BcNode.Persistence

open BcNode.Verified BcNode.Js

/-! ## Texts as keys -/

/-- The entries of the database. -/
abbrev Database := String → Option Value

namespace Database

def set (db : Database) (key : String) (value : Value) : Database :=
  Function.update db key (some value)

def erase (db : Database) (key : String) : Database := Function.update db key none

/-- What is stored under the keys that are made of parts. -/
def store (db : Database) : Store := fun key => db key.text

@[simp] theorem store_set (db : Database) (key : Key) (value : Value) :
    (db.set key.text value).store = db.store.set key value := by
  funext other
  by_cases h : other = key
  · rw [h, Store.set_self, store, set, Function.update_self]
  · rw [Store.set_ne _ h, store, set,
      Function.update_of_ne fun htext => h (Key.text_injective htext)]
    rfl

@[simp] theorem store_erase (db : Database) (key : Key) :
    (db.erase key.text).store = db.store.erase key := by
  funext other
  by_cases h : other = key
  · rw [h, Store.erase_self, store, erase, Function.update_self]
  · rw [Store.erase_ne _ h, store, erase,
      Function.update_of_ne fun htext => h (Key.text_injective htext)]
    rfl

end Database

/-- What an iterator gives: every key there is, once, in ascending order. -/
structure Yields (db : Database) (keys : List String) : Prop where
  mem : ∀ key, key ∈ keys ↔ db key ≠ none
  ascending : keys.Pairwise (· < ·)

/-- What has become of a promise. -/
inductive Promise (α : Type) where
  | pending
  | resolved (a : α)
  | rejected (e : JsError)
  deriving DecidableEq, Repr

/-! ## Promoting pending blocks -/

/-- `key.indexOf('pending.' + blockchain) > -1`. -/
def isPending (blockchain key : String) : Bool := includes key ("pending." ++ blockchain)

/-- `putPending`, for the keys the iterator has left.  The last call is for no key. -/
def putPending (blockchain : String) : List String → Database → Promise Bool × Database
  | [], db => (.pending, db)
  | key :: keys, db =>
      if isPending blockchain key then
        match db key with
        | none => (.rejected (.error s!"NotFound:  - {key}"), db)
        | some res =>
            let stringKey := String.ofList (removeFirst "pending.".toList key.toList)
            putPending blockchain keys (db.set stringKey res)
      else (.pending, db)

/-- The pending blocks are promoted, and the promise resolves. -/
structure PromotesPending (blockchain : String) (before : Database)
    (result : Promise Bool × Database) : Prop where
  resolves : ∃ answer, result.1 = .resolved answer
  promoted : ∀ k value, before ("pending." ++ blockchain ++ "." ++ k) = some value →
    result.2 (blockchain ++ "." ++ k) = some value
  kept : ∀ key, (∀ k, key = blockchain ++ "." ++ k →
    before ("pending." ++ blockchain ++ "." ++ k) = none) → result.2 key = before key

/-- The value of a key goes under the key without `pending.`. -/
def promote (db : Database) (key : String) : Database :=
  match db key with
  | none => db
  | some res => db.set (String.ofList (removeFirst "pending.".toList key.toList)) res

/-- Promoting removes no key. -/
theorem promote_ne_none {db : Database} {key other : String} (h : db other ≠ none) :
    promote db key other ≠ none := by
  rw [promote]
  cases db key with
  | none => exact h
  | some res =>
      by_cases hother : other = String.ofList (removeFirst "pending.".toList key.toList)
      · simp only [Database.set, hother, Function.update_self]
        exact Option.some_ne_none res
      · simpa only [Database.set, Function.update_of_ne hother] using h

/-- The pending keys that come before any other key are promoted, and that is all. -/
theorem putPending_exec (blockchain : String) {keys : List String} {db : Database}
    (hkeys : ∀ key ∈ keys, db key ≠ none) :
    putPending blockchain keys db =
      (.pending, (keys.takeWhile (isPending blockchain)).foldl promote db) := by
  induction keys generalizing db with
  | nil => rfl
  | cons key keys ih =>
      by_cases hpending : isPending blockchain key = true
      · obtain ⟨res, hres⟩ := Option.ne_none_iff_exists'.1 (hkeys key List.mem_cons_self)
        have hpromote : promote db key =
            db.set (String.ofList (removeFirst "pending.".toList key.toList)) res := by
          rw [promote, hres]
        have hrest : ∀ other ∈ keys, promote db key other ≠ none :=
          fun other hother => promote_ne_none (hkeys other (List.mem_cons_of_mem _ hother))
        simp only [putPending, if_pos hpending, hres]
        rw [List.takeWhile_cons_of_pos hpending, List.foldl_cons, ← ih hrest, hpromote]
      · rw [putPending, if_neg hpending, List.takeWhile_cons_of_neg hpending]
        rfl

/-- **`putPending` never settles.**  Whatever the database holds, its promise stays
pending. -/
theorem putPending_promotes_never (blockchain : String) {db : Database}
    {keys : List String} (hkeys : Yields db keys) :
    ¬ PromotesPending blockchain db (putPending blockchain keys db) := by
  rw [putPending_exec blockchain fun key => (hkeys.mem key).1]
  rintro ⟨⟨answer, hanswer⟩, -, -⟩
  cases hanswer

/-- One pending block and nothing else. -/
def samplePending : Database :=
  Database.set (fun _ => none) "pending.bc.block.2" (.bcBlock { height := 2 })

theorem samplePending_yields : Yields samplePending ["pending.bc.block.2"] := by
  refine ⟨fun key => ?_, List.pairwise_singleton _ _⟩
  rw [List.mem_singleton, samplePending, Database.set, Function.update_apply]
  split <;> simp [*]

theorem putPending_promotes_never_sample :
    ¬ PromotesPending "bc" samplePending
      (putPending "bc" ["pending.bc.block.2"] samplePending) :=
  putPending_promotes_never "bc" samplePending_yields

/-- The only block is promoted, and the call hangs. -/
theorem putPending_hangs :
    ¬ ∀ (db : Database) (keys : List String), Yields db keys →
      PromotesPending "bc" db (putPending "bc" keys db) := by
  intro hall
  obtain ⟨answer, hanswer⟩ := (hall samplePending _ samplePending_yields).resolves
  cases hanswer

/-! ## Steps and flushes -/

/-- `stepFrom`, at most `fuel` steps far. -/
def stepFrom (db : Database) (blockchain : String) : Nat → Nat → Promise Nat
  | 0, _ => .pending
  | fuel + 1, n =>
      match db (blockchain ++ "." ++ toString n) with
      | some _ => stepFrom db blockchain fuel (n + 1)
      | none => .resolved (n - 1)

/-- Whether `flushFrom` deletes a key.  Its third argument, `until`, is off if it is
zero. -/
def flushes (blockchain : String) (start untilHeight : Nat) (key : String) : Bool :=
  let height := number (lastPart key.toList)
  let pass := if untilHeight > 0 then includes key "." && height.lt untilHeight else true
  includes key blockchain && pass && height.gt start

/-- `flushFrom`, for the keys the iterator has left. -/
def flushFrom (blockchain : String) (start untilHeight : Nat) :
    List String → Database → Promise Bool × Database
  | [], db => (.resolved true, db)
  | key :: keys, db =>
      if flushes blockchain start untilHeight key then
        flushFrom blockchain start untilHeight keys (db.erase key)
      else flushFrom blockchain start untilHeight keys db

/-- It ends where the numbers stop. -/
theorem stepFrom_resolves {db : Database} {blockchain : String} {limit : Nat}
    (hlimit : db (blockchain ++ "." ++ toString (limit + 1)) = none) {fuel n : Nat}
    (hstored : ∀ i, n ≤ i → i ≤ limit → db (blockchain ++ "." ++ toString i) ≠ none)
    (hn : n ≤ limit + 1) (hfuel : limit + 1 < fuel + n) :
    stepFrom db blockchain fuel n = .resolved limit := by
  induction fuel generalizing n with
  | zero => omega
  | succ fuel ih =>
      rw [stepFrom]
      rcases Nat.lt_or_eq_of_le hn with hlt | rfl
      · obtain ⟨value, hvalue⟩ :=
          Option.ne_none_iff_exists'.1 (hstored n (Nat.le_refl n) (by omega))
        rw [hvalue]
        exact ih (fun i hi => hstored i (by omega)) (by omega) (by omega)
      · rw [hlimit]
        rfl

/-- Of the keys the iterator gives, those go that it is to delete. -/
theorem flushFrom_exec (blockchain : String) (start untilHeight : Nat) (keys : List String)
    (db : Database) :
    flushFrom blockchain start untilHeight keys db = (.resolved true, fun key =>
      if key ∈ keys ∧ flushes blockchain start untilHeight key = true then none
      else db key) := by
  induction keys generalizing db with
  | nil => simp [flushFrom]
  | cons first keys ih =>
      rw [flushFrom, ih, ih]
      by_cases hfirst : flushes blockchain start untilHeight first = true
      · rw [if_pos hfirst]
        congr 1
        funext key
        by_cases hkey : key = first
        · simp [hkey, hfirst, Database.erase]
        · simp [hkey, Database.erase]
      · rw [if_neg hfirst]
        congr 1
        funext key
        by_cases hkey : key = first
        · simp [hkey, hfirst]
        · simp [hkey]

/-- From an iterator over the whole database, all of those. -/
theorem flushFrom_of_yields {db : Database} {keys : List String} (hkeys : Yields db keys)
    (blockchain : String) (start untilHeight : Nat) :
    flushFrom blockchain start untilHeight keys db = (.resolved true, fun key =>
      if flushes blockchain start untilHeight key = true then none else db key) := by
  rw [flushFrom_exec]
  congr 1
  funext key
  by_cases hkey : db key = none
  · simp [hkey]
  · simp [(hkeys.mem key).2 hkey]

end BcNode.Persistence
