import BcNode.Mining.Agreement
import BcNode.Persistence.Store

/-!
# One block by its height

`storeHeight` answers to `state.block.height`.  Without force it stores a block next
to the one below it, if that is its parent and lighter, and as an orphan if there is
none below it.

The comparison of the weights sits inside the argument of `lt`, which so receives
`false` and not a `BN`.  A parent that was found is refused for it, unless its total
distance is negative: then `lt` throws, and the `catch` takes the child for an orphan.
`storeHeight_stores_iff` says which blocks come out right all the same.
-/

namespace BcNode.Engine

open BcNode.Verified BcNode.Js BcNode.Protos BcNode.Persistence
open BcNode.Mining (samplePackages)

/-- `value.getHash()`. -/
def hashOf : Value → Except JsError String
  | .bcBlock b => .ok b.hash
  | .block b => .ok b.hash
  | .header h => .ok h.hash
  | _ => .error .typeError

/-- `value.getTotalDistance()`. -/
def totalDistanceOf : Value → Except JsError String
  | .bcBlock b => .ok b.totalDistance
  | _ => .error .typeError

/-- The message of `state.block.height`. -/
structure HeightMsg where
  data : BcBlock
  force : Bool := false

/-- What `storeHeight` resolves with. -/
inductive StoredHeight where
  | undefined
  | block (block : BcBlock)
  | true
  deriving DecidableEq, Repr

/-- The key of the block one height below. -/
def belowKey (block : BcBlock) : Key := .block .bc (.height (block.height - 1))

def heightKey (block : BcBlock) : Key := .block .bc (.height block.height)

/-- The condition of `storeHeight`.  `=== true` is applied to the `BN`. -/
def blockStateMatches (pkg : Packages) (prev : Value) (block : BcBlock) :
    Except JsError Bool := do
  let hash ← hashOf prev
  if hash = block.previousHash then do
    let totalDistance ← totalDistanceOf prev
    bnLtBoolean (pkg.bn totalDistance) (bnIsTrue (pkg.bn block.totalDistance))
  else return false

/-- `storeHeight`.  Above genesis `prev` is always read.  The rejection in the `try` is
returned and not awaited, so the `catch` does not see it. -/
def storeHeight (pkg : Packages) (msg : HeightMsg) : StoreM StoredHeight :=
  let block := msg.data
  if block.height < 2 then return .undefined
  else if msg.force then do
    putBlock (heightKey block) block
    return .block block
  else do
    let answer ← Async.rescue
      (do
        let prev ← get (belowKey block)
        let isMatch ← Async.ofExcept (blockStateMatches pkg prev block)
        if isMatch then do
          putBlock (heightKey block) block
          return .ok .true
        else return .error (.error "block state did not match"))
      fun _ => do
        putBlock (heightKey block) block
        return .ok .true
    Async.ofExcept answer

/-! ## What should happen -/

/-- The block below is the parent, and lighter. -/
def HasLighterParent (pkg : Packages) (store : Store) (block : BcBlock) : Prop :=
  ∃ prev, store (belowKey block) = some (.bcBlock prev) ∧
    prev.hash = block.previousHash ∧
    pkg.bn prev.totalDistance < pkg.bn block.totalDistance

/-- Children and orphans are stored, anything else is rejected. -/
structure StoresHeight (pkg : Packages) (block : BcBlock) (before : Store)
    (result : Except JsError StoredHeight × Store) : Prop where
  child : HasLighterParent pkg before block →
    result = (.ok .true, before.set (heightKey block) (.bcBlock block))
  orphan : before (belowKey block) = none →
    result = (.ok .true, before.set (heightKey block) (.bcBlock block))
  other : ¬ HasLighterParent pkg before block → before (belowKey block) ≠ none →
    (∃ e, result.1 = .error e) ∧ result.2 = before

/-- There is nothing one height below, or something with another hash, or a block that
is not lighter; one with a negative total distance must be lighter instead. -/
def ToldApart (pkg : Packages) (store : Store) (block : BcBlock) : Prop :=
  ∀ value ∈ store (belowKey block),
    (∃ hash, hashOf value = .ok hash ∧ hash ≠ block.previousHash) ∨
    ∃ prev, value = .bcBlock prev ∧
      (pkg.bn prev.totalDistance < 0 ↔
        pkg.bn prev.totalDistance < pkg.bn block.totalDistance)

/-! ## What happens -/

/-- The block is stored, unless the one below was read and does not match. -/
theorem storeHeight_exec (pkg : Packages) {block : BcBlock} (hheight : 2 ≤ block.height)
    (store : Store) :
    Async.exec (storeHeight pkg { data := block }) store =
      match getIn store (belowKey block) >>= (blockStateMatches pkg · block) with
      | .ok false => (.error (.error "block state did not match"), store)
      | _ => (.ok .true, store.set (heightKey block) (.bcBlock block)) := by
  have habove : ¬ block.height < 2 := by omega
  simp only [storeHeight, if_neg habove, Bool.false_eq_true, if_false, Async.exec_bind,
    Async.exec_rescue, exec_get]
  cases getIn store (belowKey block) with
  | error e => rfl
  | ok prev =>
      simp only [Async.exec_ofExcept, bind, Except.bind]
      cases blockStateMatches pkg prev block with
      | error e => rfl
      | ok isMatch => cases isMatch <;> rfl

/-- With nothing below, the block is an orphan. -/
theorem storeHeight_orphan (pkg : Packages) {block : BcBlock} (hheight : 2 ≤ block.height)
    {store : Store} (hnone : store (belowKey block) = none) :
    Async.exec (storeHeight pkg { data := block }) store =
      (.ok .true, store.set (heightKey block) (.bcBlock block)) := by
  rw [storeHeight_exec pkg hheight, getIn, hnone]
  rfl

/-- Where something is below, the condition decides. -/
theorem storeHeight_below (pkg : Packages) {block : BcBlock} (hheight : 2 ≤ block.height)
    {store : Store} {value : Value} (hvalue : store (belowKey block) = some value) :
    Async.exec (storeHeight pkg { data := block }) store =
      if blockStateMatches pkg value block = .ok false then
        (.error (.error "block state did not match"), store)
      else (.ok .true, store.set (heightKey block) (.bcBlock block)) := by
  rw [storeHeight_exec pkg hheight, getIn_ok.2 hvalue]
  show (match blockStateMatches pkg value block with
    | .ok false => _
    | _ => _) = _
  split
  · next h => rw [if_pos h]
  · next h => rw [if_neg h]

/-- A value is refused exactly if it has another hash or is a block whose total distance
is not negative. -/
theorem blockStateMatches_eq_false (pkg : Packages) {value : Value} {block : BcBlock} :
    blockStateMatches pkg value block = .ok false ↔
      (∃ hash, hashOf value = .ok hash ∧ hash ≠ block.previousHash) ∨
      ∃ prev, value = .bcBlock prev ∧ prev.hash = block.previousHash ∧
        ¬ pkg.bn prev.totalDistance < 0 := by
  constructor
  · intro h
    obtain ⟨hash, hhash, hrest⟩ := bind_ok.1 h
    by_cases heq : hash = block.previousHash
    · rw [if_pos heq] at hrest
      obtain ⟨totalDistance, htotal, hlt⟩ := bind_ok.1 hrest
      cases value with
      | bcBlock prev =>
          cases hhash
          cases htotal
          refine .inr ⟨prev, rfl, heq, fun hneg => ?_⟩
          rw [bnLtBoolean, if_pos hneg] at hlt
          cases hlt
      | _ => cases htotal
    · exact .inl ⟨hash, hhash, heq⟩
  · rintro (⟨hash, hhash, hne⟩ | ⟨prev, rfl, hhash, hneg⟩)
    · rw [blockStateMatches, hhash]
      exact if_neg hne
    · simp only [blockStateMatches, hashOf, totalDistanceOf, bind, Except.bind,
        if_pos hhash]
      exact if_neg hneg

/-- So the block is dealt with rightly exactly if what is below is refused for not being
a lighter parent, and for nothing else. -/
theorem storesHeight_iff_refused (pkg : Packages) {block : BcBlock}
    (hheight : 2 ≤ block.height) (store : Store) :
    StoresHeight pkg block store
        (Async.exec (storeHeight pkg { data := block }) store) ↔
      ∀ value, store (belowKey block) = some value →
        (blockStateMatches pkg value block = .ok false ↔
          ¬ HasLighterParent pkg store block) := by
  constructor
  · intro h value hvalue
    rw [storeHeight_below pkg hheight hvalue] at h
    constructor
    · intro hrefused hlighter
      have hstored := h.child hlighter
      rw [if_pos hrefused] at hstored
      cases hstored
    · intro hlighter
      obtain ⟨⟨e, herror⟩, -⟩ := h.other hlighter fun hnone => by
        rw [hnone] at hvalue
        cases hvalue
      by_contra hne
      rw [if_neg hne] at herror
      cases herror
  · intro h
    refine ⟨?_, storeHeight_orphan pkg hheight, ?_⟩
    · rintro ⟨prev, hprev, hparent⟩
      rw [storeHeight_below pkg hheight hprev, if_neg]
      exact fun hrefused => (h _ hprev).1 hrefused ⟨prev, hprev, hparent⟩
    · intro hlighter hsome
      obtain ⟨value, hvalue⟩ := Option.ne_none_iff_exists'.1 hsome
      rw [storeHeight_below pkg hheight hvalue, if_pos ((h value hvalue).2 hlighter)]
      exact ⟨⟨_, rfl⟩, rfl⟩

/-- **The slip in the comparison shows exactly at a parent.**  Without force, whatever is
stored, children, orphans and strangers are told apart if and only if what is stored one
height below has another hash, or is a block that has a negative total distance exactly
if it is lighter. -/
theorem storeHeight_stores_iff (pkg : Packages) {block : BcBlock}
    (hheight : 2 ≤ block.height) (store : Store) :
    StoresHeight pkg block store
        (Async.exec (storeHeight pkg { data := block }) store) ↔
      ToldApart pkg store block := by
  rw [storesHeight_iff_refused pkg hheight]
  refine forall_congr' fun value => imp_congr_right fun hvalue => ?_
  rw [blockStateMatches_eq_false]
  have hlighter {prev : BcBlock} (hprev : value = .bcBlock prev) :
      HasLighterParent pkg store block ↔ prev.hash = block.previousHash ∧
        pkg.bn prev.totalDistance < pkg.bn block.totalDistance := by
    constructor
    · rintro ⟨prev', hprev', hparent⟩
      cases hprev.symm.trans (Option.some.inj (hvalue.symm.trans hprev'))
      exact hparent
    · exact fun hparent => ⟨prev, hvalue.trans (congrArg some hprev), hparent⟩
  constructor
  · intro hrefused
    by_cases h : HasLighterParent pkg store block
    · obtain ⟨prev, hprev, hhash, hlt⟩ := h
      have hprev := Option.some.inj (hvalue.symm.trans hprev)
      refine .inr ⟨prev, hprev, iff_of_true ?_ hlt⟩
      by_contra hneg
      exact hrefused.1 (.inr ⟨prev, hprev, hhash, hneg⟩) ((hlighter hprev).2 ⟨hhash, hlt⟩)
    · rcases hrefused.2 h with hother | ⟨prev, hprev, hhash, hneg⟩
      · exact .inl hother
      · exact .inr ⟨prev, hprev, iff_of_false hneg fun hlt =>
          h ((hlighter hprev).2 ⟨hhash, hlt⟩)⟩
  · rintro (⟨hash, hhash, hne⟩ | ⟨prev, hprev, hiff⟩)
    · refine iff_of_true (.inl ⟨hash, hhash, hne⟩) ?_
      rintro ⟨prev, hprev, hhash', _⟩
      cases hvalue.symm.trans hprev
      cases hhash
      exact hne hhash'
    · rw [hlighter hprev]
      subst hprev
      simp only [hashOf, Except.ok.injEq, Value.bcBlock.injEq, exists_eq_left', hiff]
      tauto

/-- A block at height two, over one of total distance five. -/
def sampleOverFive (previousHash : String) : BcBlock where
  hash := "b2"
  previousHash
  height := 2
  totalDistance := "6"

def sampleStoreOfFive : Store :=
  Store.empty.set (.block .bc (.height 1))
    (.bcBlock { hash := "b1", height := 1, totalDistance := "5" })

theorem storeHeight_stores_iff_sample :
    StoresHeight samplePackages (sampleOverFive "c1") sampleStoreOfFive
      (Async.exec (storeHeight samplePackages { data := sampleOverFive "c1" })
        sampleStoreOfFive) := by
  refine (storeHeight_stores_iff samplePackages (by decide) _).2 fun value hvalue => ?_
  cases hvalue
  exact .inl ⟨"b1", rfl, by decide⟩

/-- The child of the stored block is refused. -/
theorem child_refused :
    ¬ ∀ (pkg : Packages) (block : BcBlock) (store : Store), 2 ≤ block.height →
      StoresHeight pkg block store
        (Async.exec (storeHeight pkg { data := block }) store) := by
  intro hall
  have hstores := hall samplePackages (sampleOverFive "b1") sampleStoreOfFive (by decide)
  have hstored := congrArg Prod.fst
    (hstores.child ⟨_, rfl, by decide, by decide +kernel⟩)
  exact absurd hstored (by decide +kernel)

end BcNode.Engine
