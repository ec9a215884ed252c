import BcNode.Persistence.Store

/-!
# The balance of a miner

`scanBlockGrants` goes through the stored blocks of a range and counts 1600000000 for
each one the address has mined: as confirmed if the block lies more than 99 below the end
of the range, as unconfirmed if it lies less than 99 below.  A block exactly 99 below
counts as neither.
-/

namespace BcNode.Persistence

open BcNode.Verified BcNode.Js BcNode.Protos

/-- What every block is worth. -/
def reward : Nat := 1600000000

structure AccountBalances where
  confirmed : Nat := 0
  unconfirmed : Nat := 0
  deriving DecidableEq, Repr

/-- `setNrgGrant` where the grant is another one. -/
def forceReward (block : BcBlock) : BcBlock :=
  if block.nrgGrant ≠ reward then { block with nrgGrant := reward } else block

@[simp] theorem forceReward_nrgGrant (block : BcBlock) :
    (forceReward block).nrgGrant = reward := by
  unfold forceReward
  split
  · rfl
  · next h => exact not_not.1 h

/-- The body of the loop in `scanBlockGrants`. -/
def scanBlock (address : String) (endBlock i : Nat) (balances : AccountBalances)
    (block : BcBlock) : AccountBalances :=
  if block.miner = address then
    let block := forceReward block
    if endBlock - i > 99 then
      { balances with confirmed := balances.confirmed + block.nrgGrant }
    else if endBlock - i < 99 then
      { balances with unconfirmed := balances.unconfirmed + block.nrgGrant }
    else balances
  else balances

/-- The loop.  An error becomes the result. -/
def scanBlocks (address : String) (endBlock : Nat) :
    List Nat → AccountBalances → StoreM (Except JsError AccountBalances)
  | [], balances => return .ok balances
  | i :: heights, balances => do
      let read ← Async.ofTask (Task.read fun store =>
        getBlockIn store (.block .bc (.height i)))
      match read with
      | .ok block =>
          scanBlocks address endBlock heights (scanBlock address endBlock i balances block)
      | .error err => return .error err

/-- `scanBlockGrants`. -/
def scanBlockGrants (address : String) (startBlock endBlock : Nat) :
    StoreM (Except JsError AccountBalances) :=
  scanBlocks address endBlock (List.range' startBlock (endBlock - startBlock)) {}

/-- `/^(0x){1}[0-9a-fA-F]{40}$/i.test(address)`. -/
def isAddress (address : String) : Bool :=
  match address.toList with
  | '0' :: x :: digits =>
      (x == 'x' || x == 'X') && digits.length == 40 &&
        digits.all fun c => (hexDigit? c).isSome
  | _ => false

/-- The latest block, as `getBtAddressBalance` asks for it. -/
def latestValueIn (store : Store) : Except JsError Value :=
  match store (.block .bc .latest) with
  | some value => .ok value
  | none => .error (.error ("NotFound:  --> local Block Collider ledger not found, " ++
      "sychronize machine with network"))

/-- `getBtAddressBalance`. -/
def getBtAddressBalance (address : Option String) :
    StoreM (Except JsError AccountBalances) := do
  match address with
  | none => throw (.error "no address provided")
  | some address =>
      if isAddress address = false then throw (.error "malformed address")
      else do
        let value ← ExceptT.mk (Task.read latestValueIn)
        match value.getHeight with
        | .ok height => scanBlockGrants address 1 height
        | .error _ => throw (.error "Could not deserialize value")

/-! ## What is counted -/

/-- The block at height `i` was mined by the address. -/
def minedBy (store : Store) (address : String) (i : Nat) : Bool :=
  match store (.block .bc (.height i)) with
  | some (.bcBlock block) => block.miner == address
  | _ => false

/-- How many blocks of the range the address has mined, of those whose depth satisfies
`p`. -/
def minedCount (store : Store) (address : String) (startBlock endBlock : Nat)
    (p : Nat → Bool) : Nat :=
  (List.range' startBlock (endBlock - startBlock)).countP fun i =>
    minedBy store address i && p (endBlock - i)

/-- Every block mined by the address counts once: as confirmed above some depth, as
unconfirmed up to it. -/
structure NoRewardLost (store : Store) (address : String) (startBlock endBlock : Nat)
    (balances : AccountBalances) : Prop where
  total : balances.confirmed + balances.unconfirmed =
    reward * minedCount store address startBlock endBlock fun _ => true
  byDepth : ∃ depth,
    balances.confirmed = reward * minedCount store address startBlock endBlock (depth < ·) ∧
    balances.unconfirmed = reward * minedCount store address startBlock endBlock (· ≤ depth)

/-- One block counts where it should, or not at all. -/
theorem scanBlock_eq (address : String) (endBlock i : Nat) (balances : AccountBalances)
    (block : BcBlock) :
    scanBlock address endBlock i balances block =
      { confirmed := balances.confirmed +
          if block.miner = address ∧ 99 < endBlock - i then reward else 0
        unconfirmed := balances.unconfirmed +
          if block.miner = address ∧ endBlock - i < 99 then reward else 0 } := by
  unfold scanBlock
  by_cases hminer : block.miner = address
  · by_cases hdeep : endBlock - i > 99
    · have hshallow : ¬ endBlock - i < 99 := by omega
      simp [hminer, hdeep, hshallow]
    · by_cases hshallow : endBlock - i < 99 <;> simp [hminer, hdeep, hshallow]
  · simp [hminer]

theorem scanBlocks_exec {store : Store} (address : String) (endBlock : Nat)
    {heights : List Nat} (balances : AccountBalances)
    (hstored : ∀ i ∈ heights,
      ∃ block, store (.block .bc (.height i)) = some (.bcBlock block)) :
    Async.exec (scanBlocks address endBlock heights balances) store =
      (.ok (.ok
        { confirmed := balances.confirmed + reward *
            heights.countP fun i => minedBy store address i && decide (99 < endBlock - i)
          unconfirmed := balances.unconfirmed + reward *
            heights.countP fun i => minedBy store address i && decide (endBlock - i < 99) }),
        store) := by
  induction heights generalizing balances with
  | nil => rfl
  | cons i heights ih =>
      obtain ⟨block, hblock⟩ := hstored i List.mem_cons_self
      have hrest := fun balances => ih balances fun j hj =>
        hstored j (List.mem_cons_of_mem i hj)
      have hminer : minedBy store address i = decide (block.miner = address) := by
        rw [minedBy, hblock]
        rfl
      simp only [scanBlocks, Async.exec_bind, Async.exec_ofTask, Task.run_read,
        getBlockIn_of_some hblock, hrest, scanBlock_eq, List.countP_cons, hminer,
        Bool.and_eq_true, decide_eq_true_eq, Nat.mul_add]
      split_ifs <;> simp <;> omega

section Counts

variable (store : Store) (address : String) (startBlock endBlock : Nat)

/-- Depths of two kinds add up. -/
theorem minedCount_add {p q r : Nat → Prop} [DecidablePred p] [DecidablePred q]
    [DecidablePred r] (hor : ∀ d, r d ↔ p d ∨ q d) (hdisjoint : ∀ d, p d → ¬ q d) :
    minedCount store address startBlock endBlock (r ·) =
      minedCount store address startBlock endBlock (p ·) +
        minedCount store address startBlock endBlock (q ·) := by
  unfold minedCount
  induction List.range' startBlock (endBlock - startBlock) with
  | nil => rfl
  | cons i heights ih =>
      rw [List.countP_cons, List.countP_cons, List.countP_cons, ih]
      by_cases hp : p (endBlock - i)
      · simp only [hor, hp, hdisjoint _ hp, true_or, decide_true, decide_false,
          Bool.and_true, Bool.and_false, Bool.false_eq_true, if_false]
        omega
      · simp only [hor, hp, false_or, decide_false, Bool.and_false, Bool.false_eq_true,
          if_false]
        omega

/-- At depth 99 there is one block, if the range goes that far down. -/
theorem minedCount_eq_zero_iff :
    minedCount store address startBlock endBlock (· = 99) = 0 ↔
      ¬ (startBlock + 99 ≤ endBlock ∧ minedBy store address (endBlock - 99) = true) := by
  simp only [minedCount, List.countP_eq_zero, List.mem_range'_1, Bool.and_eq_true,
    decide_eq_true_eq, not_and]
  constructor
  · intro h hrange hmined
    exact h (endBlock - 99) (by omega) hmined (by omega)
  · intro h i hi hmined hdepth
    obtain rfl : endBlock - 99 = i := by omega
    exact h (by omega) hmined

end Counts

variable {store : Store} {address : String} {startBlock endBlock : Nat}

theorem scanBlockGrants_exec
    (hstored : ∀ i, startBlock ≤ i → i < endBlock →
      ∃ block, store (.block .bc (.height i)) = some (.bcBlock block)) :
    Async.exec (scanBlockGrants address startBlock endBlock) store =
      (.ok (.ok
        { confirmed := reward * minedCount store address startBlock endBlock (99 < ·)
          unconfirmed := reward * minedCount store address startBlock endBlock (· < 99) }),
        store) := by
  rw [scanBlockGrants, scanBlocks_exec]
  · simp only [minedCount, Nat.zero_add]
  · intro i hi
    rw [List.mem_range'_1] at hi
    exact hstored i hi.1 (by omega)

/-- **The balance is short by the block at depth 99.**  Over a range of stored blocks the
scan returns a balance in which no reward of the address is lost if and only if the
address has not mined the block exactly 99 below the end, or the range starts above it. -/
theorem scanBlockGrants_noRewardLost_iff
    (hstored : ∀ i, startBlock ≤ i → i < endBlock →
      ∃ block, store (.block .bc (.height i)) = some (.bcBlock block)) :
    (∃ balances, Async.exec (scanBlockGrants address startBlock endBlock) store =
        (.ok (.ok balances), store) ∧
      NoRewardLost store address startBlock endBlock balances) ↔
    ¬ (startBlock + 99 ≤ endBlock ∧ minedBy store address (endBlock - 99) = true) := by
  rw [scanBlockGrants_exec hstored, ← minedCount_eq_zero_iff]
  have hshallow : minedCount store address startBlock endBlock (· ≤ 99) =
      minedCount store address startBlock endBlock (· < 99) +
        minedCount store address startBlock endBlock (· = 99) :=
    minedCount_add _ _ _ _ (fun d => by omega) fun d => by omega
  have hall : minedCount store address startBlock endBlock (fun _ => true) =
      minedCount store address startBlock endBlock (99 < ·) +
        minedCount store address startBlock endBlock (· ≤ 99) :=
    minedCount_add (r := fun _ => True) _ _ _ _
      (fun d => iff_of_true trivial (Nat.lt_or_ge 99 d)) fun d => by omega
  constructor
  · rintro ⟨balances, hexec, htotal, -⟩
    cases hexec
    rw [← Nat.mul_add, Nat.mul_right_inj (by decide)] at htotal
    omega
  · intro hnone
    refine ⟨_, rfl, ?_, 99, rfl, ?_⟩
    · rw [← Nat.mul_add, hall, hshallow, hnone, Nat.add_zero]
    · rw [hshallow, hnone, Nat.add_zero]

/-- Of a well-formed address, the balance is the scan up to the latest block. -/
theorem getBtAddressBalance_exec {latest : Value} {height : Nat}
    (haddress : isAddress address = true)
    (hlatest : store (.block .bc .latest) = some latest)
    (hheight : latest.getHeight = .ok height) :
    Async.exec (getBtAddressBalance (some address)) store =
      Async.exec (scanBlockGrants address 1 height) store := by
  have hread : Async.exec (ExceptT.mk (Task.read latestValueIn)) store =
      (.ok latest, store) := by
    rw [Async.exec, ExceptT.run_mk, Task.run_read, latestValueIn, hlatest]
  simp only [getBtAddressBalance, haddress, Bool.true_eq_false, if_false, Async.exec_bind,
    hread, hheight]

/-- Blocks at every height, of which the address has mined two. -/
def sampleTwoMined : Store
  | .block .bc (.height i) =>
      some (.bcBlock { height := i, miner := if i = 1 ∨ i = 50 then "0xaa" else "0xbb" })
  | _ => none

/-- One of them is deeper than 99 at height 102, the other is not. -/
theorem scanBlockGrants_noRewardLost_iff_sample :
    ∃ balances, Async.exec (scanBlockGrants "0xaa" 1 102) sampleTwoMined =
        (.ok (.ok balances), sampleTwoMined) ∧
      NoRewardLost sampleTwoMined "0xaa" 1 102 balances :=
  (scanBlockGrants_noRewardLost_iff fun _ _ _ => ⟨_, rfl⟩).2 (by decide)

/-- Blocks at every height, of which the address has mined the first. -/
def sampleFirstMined : Store
  | .block .bc (.height i) =>
      some (.bcBlock { height := i, miner := if i = 1 then "0xaa" else "0xbb" })
  | _ => none

/-- At a tip of height 100, the block at height one is lost. -/
theorem reward_lost :
    ¬ ∀ (store : Store) (address : String) (startBlock endBlock : Nat),
      startBlock ≤ endBlock →
      (∀ i, startBlock ≤ i → i < endBlock →
        ∃ block, store (.block .bc (.height i)) = some (.bcBlock block)) →
      ∃ balances, Async.exec (scanBlockGrants address startBlock endBlock) store =
          (.ok (.ok balances), store) ∧
        NoRewardLost store address startBlock endBlock balances := by
  intro hall
  have hstored (i : Nat) (_ : 1 ≤ i) (_ : i < 100) :
      ∃ block, sampleFirstMined (.block .bc (.height i)) = some (.bcBlock block) := ⟨_, rfl⟩
  obtain ⟨balances, hexec, htotal, -⟩ :=
    hall sampleFirstMined "0xaa" 1 100 (by decide) hstored
  rw [scanBlockGrants_exec hstored] at hexec
  cases hexec
  exact absurd htotal (by decide +kernel)

end BcNode.Persistence
