import BcNode.Bc.Multiverse

/-!
# The decision of the engine's helper

`shouldBlockBeAddedToMultiverse` asks four questions about a block, one after the
other, and returns before anything it has started has settled.  The second question is
asked by adding the block: the answer is a promise, which in a condition counts as
`true`.  So for a recent block the last two questions are never asked, and the block is
added once for the question and once for the answer.

`Calls` is what the function has done by the time it returns.

`blockByTotalDistanceSorter` is the other function here: it reads the decimal total
distances in base 16, and the order is the right one all the same.
-/

namespace BcNode.Engine

open BcNode.Verified BcNode.Js BcNode.Protos BcNode.Mining BcNode.Bc

/-- `_chain` and the store, the promises of the calls of `addNextBlock`, and how often
`triggerSync` was called. -/
structure Calls where
  node : Node
  promises : List (Except JsError Bool ⊕ Call) := []
  syncs : Nat := 0

/-- `multiverse.addNextBlock(newBlock)`: the call runs to its first `await`. -/
def Calls.addNextBlock (pkg : Packages) (now : Nat) (newBlock : BcBlock) (calls : Calls) :
    Calls :=
  let (node, promise) := Call.resume pkg now calls.node (.called newBlock)
  { calls with node, promises := calls.promises ++ [promise] }

/-- `triggerSync()`. -/
def Calls.triggerSync (calls : Calls) : Calls := { calls with syncs := calls.syncs + 1 }

/-- `multiverse.toFlatArray()`. -/
def Calls.toFlatArray (calls : Calls) : List BcBlock := calls.node.chain

/-- `isTimestampWithin`, at a reading of `Date.now()`; the difference is taken in
milliseconds. -/
def isTimestampWithin (clock : Nat) (newBlock : BcBlock) (seconds : Nat) : Bool :=
  (clock : Int) - 1000 * newBlock.timestamp < 1000 * seconds

/-- `timestampIsSignificantSecondsBelowLocalTime`. -/
def timestampIsSignificantSecondsBelowLocalTime (clock : Nat) (newBlock : BcBlock) : Bool :=
  isTimestampWithin clock newBlock 12 == false

/-- A promise in the place of a condition. -/
def promiseIsTruthy : Bool := true

/-- `doesNewBlockPreviousHashReferenceBlockInMultiverse`. -/
def doesNewBlockPreviousHashReferenceBlockInMultiverse (pkg : Packages) (now : Nat)
    (newBlock : BcBlock) (calls : Calls) : Bool × Calls :=
  (promiseIsTruthy, calls.addNextBlock pkg now newBlock)

/-- A callback whose `return false` ends the callback and not the loop around it. -/
def forEachReturningFalse (stops : BcBlock → Bool) (blocks : List BcBlock) : Bool :=
  let _results : List (Option Bool) :=
    blocks.map fun block => if stops block then some false else none
  true

/-- `isNewBlockHeightLowerThanLowestInMultiverse`. -/
def isNewBlockHeightLowerThanLowestInMultiverse (newBlock : BcBlock)
    (blocks : List BcBlock) : Bool :=
  forEachReturningFalse (fun block => block.height ≤ newBlock.height) blocks

/-- `isNewBlockTimestampGreaterThanHighestInMultiverse`. -/
def isNewBlockTimestampGreaterThanHighestInMultiverse (newBlock : BcBlock)
    (blocks : List BcBlock) : Bool :=
  forEachReturningFalse (fun block => block.timestamp ≥ newBlock.timestamp) blocks

/-- `shouldBlockBeAddedToMultiverse`: what it returns, and what it has done. -/
def shouldBlockBeAddedToMultiverse (pkg : Packages) (clock now : Nat) (newBlock : BcBlock)
    (node : Node) : Bool × Calls :=
  if timestampIsSignificantSecondsBelowLocalTime clock newBlock then
    (false, Calls.triggerSync { node })
  else
    match doesNewBlockPreviousHashReferenceBlockInMultiverse pkg now newBlock { node } with
    | (true, calls) => (true, calls.addNextBlock pkg now newBlock)
    | (false, calls) =>
        if isNewBlockHeightLowerThanLowestInMultiverse newBlock calls.toFlatArray then
          (false, calls.triggerSync)
        else if isNewBlockTimestampGreaterThanHighestInMultiverse newBlock
            calls.toFlatArray then
          (false, calls.triggerSync)
        else (true, calls.addNextBlock pkg now newBlock)

/-! ## What the decision should be -/

/-- The block is less than twelve seconds old. -/
def Recent (clock : Nat) (newBlock : BcBlock) : Prop :=
  (clock : Int) < 1000 * (newBlock.timestamp + 12)

/-- The block is out of reach: below all blocks, or after all of them. -/
def OutOfReach (newBlock : BcBlock) (blocks : List BcBlock) : Prop :=
  (∀ block ∈ blocks, newBlock.height < block.height) ∨
    ∀ block ∈ blocks, block.timestamp < newBlock.timestamp

/-- What the caller may expect of the decision, given what the promises of the calls
settle with in the end. -/
structure Decides (pkg : Packages) (clock now : Nat) (newBlock : BcBlock) (node : Node)
    (settled : List (Except JsError Bool)) : Prop where
  once : (shouldBlockBeAddedToMultiverse pkg clock now newBlock node).2.promises.length ≤ 1
  accepted : (shouldBlockBeAddedToMultiverse pkg clock now newBlock node).1 = true →
    .ok true ∈ settled
  syncs : Recent clock newBlock →
    (∀ block ∈ node.chain, newBlock.previousHash ≠ block.hash) →
      (0 < (shouldBlockBeAddedToMultiverse pkg clock now newBlock node).2.syncs ↔
        OutOfReach newBlock node.chain)

theorem recent_iff {clock : Nat} {newBlock : BcBlock} :
    timestampIsSignificantSecondsBelowLocalTime clock newBlock = false ↔
      Recent clock newBlock := by
  rw [timestampIsSignificantSecondsBelowLocalTime, isTimestampWithin, Recent]
  simp only [beq_eq_false_iff_ne, ne_eq, Bool.not_eq_false, decide_eq_true_eq]
  omega

/-- For a recent block the first two questions are asked, and no more. -/
theorem shouldBlockBeAddedToMultiverse_recent (pkg : Packages) {clock : Nat} (now : Nat)
    {newBlock : BcBlock} (node : Node) (h : Recent clock newBlock) :
    shouldBlockBeAddedToMultiverse pkg clock now newBlock node =
      (true, (Calls.addNextBlock pkg now newBlock { node }).addNextBlock pkg now
        newBlock) := by
  rw [shouldBlockBeAddedToMultiverse, recent_iff.2 h]
  rfl

/-- For any other block only the first one is. -/
theorem shouldBlockBeAddedToMultiverse_late (pkg : Packages) {clock : Nat} (now : Nat)
    {newBlock : BcBlock} (node : Node) (h : ¬ Recent clock newBlock) :
    shouldBlockBeAddedToMultiverse pkg clock now newBlock node =
      (false, Calls.triggerSync { node }) := by
  have hlate : timestampIsSignificantSecondsBelowLocalTime clock newBlock = true :=
    Bool.not_eq_false _ ▸ fun hfalse => h (recent_iff.1 hfalse)
  rw [shouldBlockBeAddedToMultiverse, if_pos hlate]

/-- **A recent block is added twice.**  The decision is as expected exactly for the
blocks that are not recent, whatever becomes of the calls. -/
theorem decides_iff (pkg : Packages) (clock now : Nat) (newBlock : BcBlock) (node : Node)
    (settled : List (Except JsError Bool)) :
    Decides pkg clock now newBlock node settled ↔ ¬ Recent clock newBlock := by
  constructor
  · intro h hrecent
    have honce := h.once
    rw [shouldBlockBeAddedToMultiverse_recent pkg now node hrecent] at honce
    exact absurd honce (by simp [Calls.addNextBlock])
  · intro hlate
    have hrun := shouldBlockBeAddedToMultiverse_late pkg now node hlate
    refine ⟨?_, ?_, fun hrecent => absurd hrecent hlate⟩
    · rw [hrun]
      exact Nat.zero_le 1
    · rw [hrun]
      exact nofun

/-! ## The sorter -/

/-- `blockByTotalDistanceSorter`. -/
def blockByTotalDistanceSorter (bnText16 : String → Int) (a b : BcBlock) : Int :=
  let aTotalDistance := bn16 bnText16 a.totalDistance
  let bTotalDistance := bn16 bnText16 b.totalDistance
  if bTotalDistance < aTotalDistance then 1
  else if aTotalDistance < bTotalDistance then -1
  else 0

/-- The total distance as the decimal number it is written as; zero where the field
is no decimal number. -/
def decimalTotalDistance (block : BcBlock) : Int :=
  (Decimal.parse? block.totalDistance).getD 0

theorem decimalTotalDistance_eq {block : BcBlock}
    (h : Decimal.Numeral block.totalDistance) :
    decimalTotalDistance block =
      (Positional.value 10 (Decimal.digitValues block.totalDistance) : Int) := by
  rw [decimalTotalDistance, h.parse?_eq, Option.getD_some]

/-- In base 16 the numbers are others, and they are in the same order. -/
theorem bn16_lt_iff (bnText16 : String → Int) {a b : BcBlock}
    (ha : Decimal.Numeral a.totalDistance) (hb : Decimal.Numeral b.totalDistance) :
    bn16 bnText16 a.totalDistance < bn16 bnText16 b.totalDistance ↔
      decimalTotalDistance a < decimalTotalDistance b := by
  rw [bn16_numeral bnText16 ha, bn16_numeral bnText16 hb, decimalTotalDistance_eq ha,
    decimalTotalDistance_eq hb, Int.ofNat_lt, Int.ofNat_lt]
  exact ha.canonical.value_lt_value_iff (by decide) hb.canonical

theorem blockByTotalDistanceSorter_eq_sign (bnText16 : String → Int) {a b : BcBlock}
    (ha : Decimal.Numeral a.totalDistance) (hb : Decimal.Numeral b.totalDistance) :
    blockByTotalDistanceSorter bnText16 a b =
      (decimalTotalDistance a - decimalTotalDistance b).sign := by
  have hba := bn16_lt_iff bnText16 hb ha
  have hab := bn16_lt_iff bnText16 ha hb
  rcases Int.lt_trichotomy (decimalTotalDistance a) (decimalTotalDistance b) with
    hlt | heq | hgt
  · have hnot : ¬ decimalTotalDistance b < decimalTotalDistance a := by omega
    rw [blockByTotalDistanceSorter, if_neg (hba.not.2 hnot), if_pos (hab.2 hlt)]
    exact (Int.sign_eq_neg_one_of_neg (by omega)).symm
  · have hnot : ¬ decimalTotalDistance b < decimalTotalDistance a := by omega
    have hnot' : ¬ decimalTotalDistance a < decimalTotalDistance b := by omega
    rw [blockByTotalDistanceSorter, if_neg (hba.not.2 hnot), if_neg (hab.not.2 hnot'),
      heq, Int.sub_self]
    rfl
  · rw [blockByTotalDistanceSorter, if_pos (hba.2 hgt)]
    exact (Int.sign_eq_one_of_pos (by omega)).symm

/-- **The sorter compares the decimal numbers.**  On canonical total distances it is
the sign of their difference, and a list sorted with it is in the order of the
numbers. -/
theorem sorted_by_totalDistance (bnText16 : String → Int) {blocks : List BcBlock}
    (h : ∀ block ∈ blocks, Decimal.Numeral block.totalDistance) :
    (∀ a ∈ blocks, ∀ b ∈ blocks, blockByTotalDistanceSorter bnText16 a b =
        (decimalTotalDistance a - decimalTotalDistance b).sign) ∧
      (sortWith (blockByTotalDistanceSorter bnText16) blocks).Perm blocks ∧
      (sortWith (blockByTotalDistanceSorter bnText16) blocks).Pairwise fun a b =>
        decimalTotalDistance a ≤ decimalTotalDistance b := by
  have hsign : ∀ a ∈ blocks, ∀ b ∈ blocks, blockByTotalDistanceSorter bnText16 a b =
      (decimalTotalDistance a - decimalTotalDistance b).sign := fun a ha b hb =>
    blockByTotalDistanceSorter_eq_sign bnText16 (h a ha) (h b hb)
  have hsort : sortWith (blockByTotalDistanceSorter bnText16) blocks =
      sortAscending (fun block => (decimalTotalDistance block).toNat) blocks := by
    refine sortWith_eq_sortAscending fun a ha b hb => ?_
    rw [hsign a ha b hb, Int.sign_nonpos_iff, decimalTotalDistance_eq (h a ha),
      decimalTotalDistance_eq (h b hb), Int.toNat_natCast, Int.toNat_natCast]
    omega
  have hperm := sortAscending_perm (fun block => (decimalTotalDistance block).toNat) blocks
  refine ⟨hsign, ?_, ?_⟩
  · rw [hsort]
    exact hperm
  · rw [hsort]
    refine (pairwise_sortAscending _ _).imp_of_mem fun {a b} ha hb hab => ?_
    have ha := decimalTotalDistance_eq (h a (hperm.mem_iff.1 ha))
    have hb := decimalTotalDistance_eq (h b (hperm.mem_iff.1 hb))
    omega

/-- Two total distances, one a digit longer than the other. -/
def sampleDistances : List BcBlock :=
  [{ totalDistance := toString 10 }, { totalDistance := toString 9 }]

/-- The ten is read as sixteen and the nine as nine. -/
theorem sampleDistances_sorted :
    (∀ a ∈ sampleDistances, ∀ b ∈ sampleDistances,
        blockByTotalDistanceSorter (fun _ => 0) a b =
          (decimalTotalDistance a - decimalTotalDistance b).sign) ∧
      (sortWith (blockByTotalDistanceSorter fun _ => 0) sampleDistances).Perm
        sampleDistances ∧
      (sortWith (blockByTotalDistanceSorter fun _ => 0) sampleDistances).Pairwise
        fun a b => decimalTotalDistance a ≤ decimalTotalDistance b := by
  refine sorted_by_totalDistance (fun _ => 0) fun block hblock => ?_
  rcases List.mem_cons.1 hblock with rfl | hblock
  · exact Decimal.numeral_toString 10
  · rcases List.mem_cons.1 hblock with rfl | hblock
    · exact Decimal.numeral_toString 9
    · cases hblock

/-- A recent block that is below all others and that refers to none of them. -/
def sampleStray : BcBlock where
  hash := "c3"
  previousHash := "c2"
  height := 3
  timestamp := 1000

/-- It is added twice and refused twice, `true` is returned, and no sync is triggered. -/
theorem sampleStray_added :
    Recent 1005000 sampleStray ∧ OutOfReach sampleStray [samplePrevious] ∧
      (let (returned, calls) := shouldBlockBeAddedToMultiverse samplePackages 1005000 1005
        sampleStray (sampleNode sampleParent)
      returned = true ∧ calls.promises.length = 2 ∧ calls.syncs = 0) ∧
      (addNextBlock samplePackages 1005 sampleStray (sampleNode sampleParent)).1 =
        .ok false ∧
      ¬ Decides samplePackages 1005000 1005 sampleStray (sampleNode sampleParent)
        [.ok false, .ok false] := by
  have hrecent : Recent 1005000 sampleStray := by
    rw [Recent, sampleStray]
    decide
  have hreach : OutOfReach sampleStray [samplePrevious] := by
    left
    decide
  refine ⟨hrecent, hreach, ⟨rfl, rfl, rfl⟩, by decide +kernel, fun h => ?_⟩
  have honce := h.once
  rw [shouldBlockBeAddedToMultiverse_recent samplePackages 1005 _ hrecent] at honce
  exact absurd honce (by decide)

end BcNode.Engine
