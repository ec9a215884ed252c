import BcNode.Bc.Multiverse
import BcNode.Verified.Memo

/-!
# The cache of validation verdicts

`isValidBlockCached` memoises `isValidBlock` in the store, under the hash the
block claims to have.  Nothing in `isValidBlock` ties that hash to the rest of
the block, so two blocks can share it.  A validation that throws is not memoised, and
a height from `2 ^ 53` on makes it throw before the store is asked.

The function is an instance of `Memo`: `validity` is the memoised function,
`verdicts` reads its table off a store, and `isValidBlockCached_run` is the
refinement.  What a run of calls can get wrong then follows from
`Memo.run_values_iff`.
-/

namespace BcNode.Bc

open BcNode.Verified BcNode.Js BcNode.Protos BcNode.Mining BcNode.Persistence

/-- The first `catch` of `isValidBlockCached`: the block is validated, and the verdict
stored. -/
def validateAndCache (pkg : Packages) (newBlock : BcBlock) : Task Store Bool :=
  match isValidBlock pkg newBlock with
  | .ok valid =>
      put (.valid newBlock.hash) (.string (toString valid)) >>= fun _ => return valid
  | .error _ => return false

/-- `isValidBlockCached`.  A height that `new BN` does not take goes the way of a hash that
is not found. -/
def isValidBlockCached (pkg : Packages) (newBlock : BcBlock) : Task Store Bool :=
  match newBN newBlock.height with
  | .error _ => validateAndCache pkg newBlock
  | .ok height =>
      if height < UNCHECKED_HEIGHT then return true
      else
        Task.read (fun store => getIn store (.valid newBlock.hash)) >>= fun cached =>
          match cached with
          | .ok cached => return cached == .string "true"
          | .error _ => validateAndCache pkg newBlock

/-- `isValidBlock`, with an exception counting as `false`. -/
def verdict (pkg : Packages) (newBlock : BcBlock) : Bool :=
  (isValidBlock pkg newBlock).toOption.getD false

/-! ## As a memo table -/

/-- The verdict of the block is looked up: it is not valid unseen, and its height can be
compared. -/
def LookedUp (b : BcBlock) : Prop := UNCHECKED_HEIGHT ≤ b.height ∧ Safe b.height

instance (b : BcBlock) : Decidable (LookedUp b) := inferInstanceAs (Decidable (_ ∧ _))

/-- `isValidBlock` as a function memoised under the hash. -/
def validity (pkg : Packages) : Memo BcBlock String Bool where
  key b := if LookedUp b then some b.hash else none
  compute b := (isValidBlock pkg b).toOption
  fallback := false

theorem validity_key_eq_some {pkg : Packages} {b : BcBlock} {hash : String} :
    (validity pkg).key b = some hash ↔ LookedUp b ∧ b.hash = hash := by
  simp only [validity]
  split
  · next h => simp [h]
  · next h => simp [h]

theorem validity_compute (pkg : Packages) (b : BcBlock) :
    (validity pkg).compute b = (isValidBlock pkg b).toOption := rfl

theorem validity_value (pkg : Packages) (b : BcBlock) :
    (validity pkg).value b = verdict pkg b := rfl

/-- The verdicts a store holds. -/
def verdicts (store : Store) : Memo.Table String Bool := fun hash =>
  (store (.valid hash)).map (· == .string "true")

theorem verdicts_set (store : Store) (hash : String) (valid : Bool) :
    verdicts (store.set (.valid hash) (.string (toString valid))) =
      Function.update (verdicts store) hash (some valid) := by
  funext hash'
  by_cases h : hash' = hash
  · subst h
    rw [Function.update_self, verdicts, Store.set_self]
    cases valid <;> rfl
  · have hkey : Key.valid hash' ≠ Key.valid hash := by simpa using h
    rw [Function.update_of_ne h, verdicts, Store.set_ne store hkey, verdicts]

/-- A block below the threshold is valid unseen. -/
theorem isValidBlock_unchecked {pkg : Packages} {newBlock : BcBlock}
    (h : newBlock.height < UNCHECKED_HEIGHT) : isValidBlock pkg newBlock = .ok true := by
  have hsafe : Safe newBlock.height := by
    unfold Safe UNCHECKED_HEIGHT at *
    omega
  have hbelow : (newBlock.height : Int) < UNCHECKED_HEIGHT := Int.ofNat_lt.2 h
  exact bind_ok.2 ⟨_, newBN_safe hsafe, if_pos hbelow⟩

/-- A block whose height is too large for `bn.js` makes the validation throw. -/
theorem isValidBlock_unsafe {pkg : Packages} {newBlock : BcBlock}
    (h : ¬ Safe newBlock.height) : isValidBlock pkg newBlock = .error assertionFailed := by
  have hthrows : newBN newBlock.height = .error assertionFailed := if_neg h
  rw [isValidBlock, hthrows]
  rfl

/-- A block that is not looked up gets its own verdict, and the store stays as it is. -/
theorem isValidBlockCached_run_of_not (pkg : Packages) {newBlock : BcBlock}
    (h : ¬ LookedUp newBlock) (store : Store) :
    (isValidBlockCached pkg newBlock).run store = (verdict pkg newBlock, store) := by
  unfold isValidBlockCached
  by_cases hsafe : Safe newBlock.height
  · have hbelow : newBlock.height < UNCHECKED_HEIGHT :=
      Nat.lt_of_not_le fun hle => h ⟨hle, hsafe⟩
    have hbelow' : (newBlock.height : Int) < UNCHECKED_HEIGHT := Int.ofNat_lt.2 hbelow
    simp only [newBN_safe hsafe, if_pos hbelow']
    rw [verdict, isValidBlock_unchecked hbelow]
    rfl
  · have hthrows : newBN newBlock.height = .error assertionFailed := if_neg hsafe
    simp only [hthrows, validateAndCache, isValidBlock_unsafe hsafe, verdict]
    rfl

/-- **Refinement.**  One call answers as the memo table of the store does, and
leaves the table the memo call leaves. -/
theorem isValidBlockCached_run (pkg : Packages) (newBlock : BcBlock) (store : Store) :
    ((isValidBlockCached pkg newBlock).run store).1 =
        ((validity pkg).call (verdicts store) newBlock).1 ∧
      verdicts ((isValidBlockCached pkg newBlock).run store).2 =
        ((validity pkg).call (verdicts store) newBlock).2 := by
  by_cases hlooked : LookedUp newBlock
  · have hkey : (validity pkg).key newBlock = some newBlock.hash := if_pos hlooked
    have habove : ¬ (newBlock.height : Int) < UNCHECKED_HEIGHT :=
      not_lt.2 (Int.ofNat_le.2 hlooked.1)
    unfold isValidBlockCached
    simp only [newBN_safe hlooked.2, if_neg habove, Task.run_bind, Task.run_read, getIn,
      validateAndCache]
    cases hstore : store (.valid newBlock.hash) with
    | some cached =>
        have htable : verdicts store newBlock.hash = some (cached == .string "true") := by
          rw [verdicts, hstore, Option.map_some]
        rw [(validity pkg).call_hit hkey htable]
        exact ⟨rfl, rfl⟩
    | none =>
        have htable : verdicts store newBlock.hash = none := by
          rw [verdicts, hstore, Option.map_none]
        cases hvalid : isValidBlock pkg newBlock with
        | error e =>
            have hcompute : (validity pkg).compute newBlock = none := by
              rw [validity_compute, hvalid]
              rfl
            rw [(validity pkg).call_failed hkey htable hcompute]
            exact ⟨rfl, rfl⟩
        | ok valid =>
            have hcompute : (validity pkg).compute newBlock = some valid := by
              rw [validity_compute, hvalid]
              rfl
            rw [(validity pkg).call_miss hkey htable hcompute]
            exact ⟨rfl, verdicts_set store newBlock.hash valid⟩
  · have hkey : (validity pkg).key newBlock = none := if_neg hlooked
    rw [(validity pkg).call_unkeyed hkey, isValidBlockCached_run_of_not pkg hlooked store,
      validity_value]
    exact ⟨rfl, rfl⟩

/-- A run of calls, one after another. -/
def validateAll (pkg : Packages) (blocks : List BcBlock) : Task Store (List Bool) :=
  Task.sequence (blocks.map (isValidBlockCached pkg))

theorem validateAll_run (pkg : Packages) (blocks : List BcBlock) (store : Store) :
    ((validateAll pkg blocks).run store).1 =
      ((validity pkg).run (verdicts store) blocks).1 := by
  induction blocks generalizing store with
  | nil => rfl
  | cons block blocks ih =>
      obtain ⟨hverdict, htable⟩ := isValidBlockCached_run pkg block store
      simp only [validateAll, List.map_cons, Task.sequence, Task.run_bind, Task.run_done]
      rw [Memo.run_cons_fst, ← hverdict, ← htable, ← ih]
      rfl

/-! ## When the cache is right -/

/-- The earlier block's verdict, if its validation returned one, is the later
block's verdict too, wherever both are looked up under one hash. -/
def SameVerdict (pkg : Packages) (earlier later : BcBlock) : Prop :=
  LookedUp earlier → LookedUp later → earlier.hash = later.hash →
    ∀ valid, isValidBlock pkg earlier = .ok valid → valid = verdict pkg later

theorem compatible_iff_sameVerdict (pkg : Packages) (earlier later : BcBlock) :
    (validity pkg).Compatible earlier later ↔ SameVerdict pkg earlier later := by
  have hcompute (b : BcBlock) (valid : Bool) : (validity pkg).compute b = some valid ↔
      isValidBlock pkg b = .ok valid := by
    rw [validity_compute]
    cases isValidBlock pkg b <;> simp [Except.toOption]
  constructor
  · intro h hearlier hlater hhash valid hvalid
    exact h later.hash (validity_key_eq_some.2 ⟨hearlier, hhash⟩)
      (validity_key_eq_some.2 ⟨hlater, rfl⟩) valid ((hcompute _ _).2 hvalid)
  · intro h hash hkey hkey' valid hvalid
    obtain ⟨hearlier, rfl⟩ := validity_key_eq_some.1 hkey
    obtain ⟨hlater, hhash⟩ := validity_key_eq_some.1 hkey'
    exact h hearlier hlater hhash.symm valid ((hcompute _ _).1 hvalid)

/-- **Coherence of the cache.**  Starting without verdicts, every call of a run
returns the verdict of its own block exactly when no block shares its hash with
an earlier one of another verdict. -/
theorem validateAll_eq_iff (pkg : Packages) {store : Store}
    (hstore : ∀ hash, store (.valid hash) = none) (blocks : List BcBlock) :
    ((validateAll pkg blocks).run store).1 = blocks.map (verdict pkg) ↔
      blocks.Pairwise (SameVerdict pkg) := by
  have hempty : ∀ b ∈ blocks, (validity pkg).Right (verdicts store) b := by
    intro b _ hash _ valid hvalid
    rw [verdicts, hstore, Option.map_none] at hvalid
    cases hvalid
  have hpairs : blocks.Pairwise (validity pkg).Compatible ↔
      blocks.Pairwise (SameVerdict pkg) :=
    List.Pairwise.iff (fun {a b} => compatible_iff_sameVerdict pkg a b)
  rw [validateAll_run, ← hpairs]
  exact ((validity pkg).run_values_iff (verdicts store) blocks).trans
    (and_iff_right hempty)

/-- A valid block at the height from which blocks are checked. -/
def sampleCheckedBlock : BcBlock :=
  completeTemplate samplePackages
    { newTemplate samplePackages
        { samplePrevious with height := 151499, difficulty := "290112262029012" }
        (sampleHeaders 1000000 1000000 11) [] "0xaa" "290112262029012" "69362571"
        "2485967246374" 5 with timestamp := 1000 }
    { sampleSolution with timestamp := 1000 }

/-- The same block with another chain root, under the same hash. -/
def sampleForgedBlock : BcBlock := { sampleCheckedBlock with chainRoot := "0" }

theorem validateAll_eq_iff_sample :
    ((validateAll samplePackages
        [sampleCheckedBlock, sampleForgedBlock]).run Store.empty).1 =
        [sampleCheckedBlock, sampleForgedBlock].map (verdict samplePackages) ↔
      [sampleCheckedBlock, sampleForgedBlock].Pairwise (SameVerdict samplePackages) :=
  validateAll_eq_iff samplePackages (fun _ => rfl) [sampleCheckedBlock, sampleForgedBlock]

/-- The forged block alone is rejected; after the honest one it is reported
valid, and before it the honest one is reported invalid. -/
theorem forged_block_shares_verdict :
    [sampleCheckedBlock, sampleForgedBlock].map (verdict samplePackages) = [true, false] ∧
    ((validateAll samplePackages
        [sampleCheckedBlock, sampleForgedBlock]).run Store.empty).1 =
      [true, true] ∧
    ((validateAll samplePackages
        [sampleForgedBlock, sampleCheckedBlock]).run Store.empty).1 =
      [false, false] := by
  refine ⟨?_, ?_, ?_⟩
  · decide +kernel
  · decide +kernel
  · decide +kernel

end BcNode.Bc
