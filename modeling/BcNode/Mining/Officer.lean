import BcNode.Bc.Validation

/-!
# From template to mined block

The officer prepares a template and the work derived from it, a thread of the
worker pool mines that work with its own difficulty calculator, and the
officer completes the template with the solution.  This file follows one piece
of work through the three of them.

`prepareTemplate` is the middle of `startMining`, from `prepareNewBlock` to the
message for the workers; `completeTemplate` is the run of `set` calls in
`_handleWorkerFinishedMessage`.
-/

namespace BcNode.Mining

open BcNode.Js BcNode.Protos BcNode.Bc

/-- The message `startMining` sends to the worker pool. -/
structure WorkData where
  workId : String
  currentTimestamp : Nat
  work : String
  minerKey : String
  merkleRoot : String
  newestChildBlock : Block
  difficulty : String
  lastPreviousBlock : BcBlock
  newBlockHeaders : BlockchainHeaders
  deriving DecidableEq, Repr

/-- `startMining` from `prepareNewBlock` on: the template with its timestamp,
and the work for the pool. -/
def prepareTemplate (pkg : Packages) (workId : String) (currentTimestamp : Nat)
    (lastPreviousBlock : BcBlock) (currentBlocks : List Block) (block : Block)
    (minerKey : String) (unfinishedBlock : Option BcBlock) :
    Except JsError (BcBlock × WorkData) := do
  let (newBlock, finalTimestamp) ← prepareNewBlock pkg currentTimestamp
    lastPreviousBlock currentBlocks block [] minerKey unfinishedBlock
  let newBlockHeaders ← newBlock.getBlockchainHeaders
  let work := prepareWork pkg lastPreviousBlock.hash newBlockHeaders
  return ({ newBlock with timestamp := finalTimestamp },
    { workId
      currentTimestamp
      work
      minerKey
      merkleRoot := newBlock.merkleRoot
      newestChildBlock := block
      difficulty := newBlock.difficulty
      lastPreviousBlock
      newBlockHeaders })

/-- `difficultyCalculator` of a mining thread. -/
def difficultyCalculator (pkg : Packages) (data : WorkData) (timestamp : Nat) :
    Except JsError String := do
  let lastHeaders ← data.lastPreviousBlock.getBlockchainHeaders
  let newBlockCount := getNewBlockCount lastHeaders data.newBlockHeaders
  difficultyNumbers timestamp data.lastPreviousBlock.timestamp
    data.newestChildBlock.timestamp data.lastPreviousBlock.height
  return templateDifficulty pkg timestamp data.lastPreviousBlock
    data.newestChildBlock.timestamp newBlockCount

/-- The message handler of a mining thread, for one sequence of clock and
random readings. -/
def mineWork (pkg : Packages) (data : WorkData) (tsStart : Nat) (ticks : List Tick) :
    Except JsError MineOutcome :=
  mine pkg data.currentTimestamp data.work data.minerKey data.merkleRoot
    data.difficulty (some (difficultyCalculator pkg data)) tsStart ticks

/-- The `set` calls of `_handleWorkerFinishedMessage`. -/
def completeTemplate (pkg : Packages) (unfinishedBlock : BcBlock) (solution : Solution) :
    BcBlock :=
  let chainWeight := unfinishedBlock.distance
  { unfinishedBlock with
    nonce := solution.nonce
    distance := solution.distance
    totalDistance := toString (pkg.bn unfinishedBlock.totalDistance +
      pkg.bn chainWeight + pkg.bn unfinishedBlock.difficulty)
    timestamp := solution.timestamp }

/-! ## The officer's book-keeping -/

/-- An entry of `_unfinished`. -/
structure Unfinished where
  workId : String
  unfinishedBlock : BcBlock
  deriving DecidableEq, Repr

/-- The fields of the mining officer that templates pass through. -/
structure Officer where
  unfinishedBlock : Option BcBlock := none
  unfinished : List Unfinished := []
  deriving DecidableEq, Repr

/-- `_handleWorkerFinishedMessage`.  The worker pool only forwards solutions
that carry a work id.  The value is what gets published under
`miner.block.new`. -/
def Officer.handleWorkerFinishedMessage (pkg : Packages) (officer : Officer)
    (workId : String) (solution : Solution) :
    Officer × Except JsError (Option BcBlock) :=
  match officer.unfinished.filter (·.workId = workId) with
  | [] => (officer, .ok none)
  | candidate :: _ =>
      let remainingUnfinished := officer.unfinished.filter (·.workId ≠ workId)
      let unfinishedBlock := completeTemplate pkg candidate.unfinishedBlock solution
      match isValidBlock pkg unfinishedBlock with
      | .error e => ({ officer with unfinished := remainingUnfinished }, .error e)
      | .ok false =>
          ({ unfinishedBlock := none, unfinished := remainingUnfinished }, .ok none)
      | .ok true =>
          ({ unfinishedBlock := none, unfinished := remainingUnfinished },
            .ok (some unfinishedBlock))

/-- Whatever the officer publishes for a work id is a template registered under
that id, completed with the solution, and valid. -/
theorem Officer.published_eq {pkg : Packages} {officer officer' : Officer}
    {workId : String} {solution : Solution} {block : BcBlock}
    (h : officer.handleWorkerFinishedMessage pkg workId solution =
      (officer', .ok (some block))) :
    ∃ entry ∈ officer.unfinished, entry.workId = workId ∧
      block = completeTemplate pkg entry.unfinishedBlock solution ∧
      isValidBlock pkg block = .ok true := by
  unfold Officer.handleWorkerFinishedMessage at h
  split at h
  · cases h
  · next candidate rest hfilter =>
      have hmem : candidate ∈ officer.unfinished.filter (·.workId = workId) := by
        rw [hfilter]
        exact List.mem_cons_self
      rw [List.mem_filter, decide_eq_true_eq] at hmem
      dsimp only at h
      split at h
      · cases h
      · cases h
      · next hvalid =>
          cases h
          exact ⟨candidate, hmem.1, hmem.2, rfl, hvalid⟩

/-! ## The template and its work -/

/-- What a successful `prepareTemplate` returns. -/
theorem prepareTemplate_ok {pkg : Packages} {workId : String} {currentTimestamp : Nat}
    {lastPreviousBlock : BcBlock} {currentBlocks : List Block} {block : Block}
    {minerKey : String} {unfinishedBlock : Option BcBlock} {template : BcBlock}
    {data : WorkData}
    (h : prepareTemplate pkg workId currentTimestamp lastPreviousBlock currentBlocks
      block minerKey unfinishedBlock = .ok (template, data)) :
    ∃ headers lastHeaders root difficulty,
      prepareHeaders lastPreviousBlock currentBlocks unfinishedBlock = .ok headers ∧
      lastPreviousBlock.getBlockchainHeaders = .ok lastHeaders ∧
      difficulty = templateDifficulty pkg currentTimestamp lastPreviousBlock
        block.timestamp (getNewBlockCount lastHeaders headers) ∧
      createMerkleRoot pkg (merkleItems
        (getChildrenBlocksHashes pkg (blockchainMapToList headers)) []
        difficulty minerKey (lastPreviousBlock.height + 1) Genesis.version
        Genesis.schemaVersion Genesis.nrgGrant) none = .ok root ∧
      template =
        { newTemplate pkg lastPreviousBlock headers [] minerKey difficulty
            (root.getD "") (chainWeightOf pkg lastPreviousBlock)
            currentBlocks.length with
          timestamp := currentTimestamp } ∧
      data =
        { workId, currentTimestamp
          work := prepareWork pkg lastPreviousBlock.hash headers
          minerKey
          merkleRoot := root.getD ""
          newestChildBlock := block
          difficulty
          lastPreviousBlock
          newBlockHeaders := headers } := by
  unfold prepareTemplate at h
  cases hprep : prepareNewBlock pkg currentTimestamp lastPreviousBlock currentBlocks
      block [] minerKey unfinishedBlock with
  | error e => rw [hprep] at h; cases h
  | ok result =>
      obtain ⟨newBlock, finalTimestamp⟩ := result
      rw [hprep] at h
      obtain ⟨headers, lastHeaders, root, difficulty, hheaders, hlast, hdiff, hroot,
        rfl, rfl⟩ := prepareNewBlock_ok hprep
      cases h
      exact ⟨headers, lastHeaders, root, difficulty, hheaders, hlast, hdiff, hroot,
        rfl, rfl⟩

end BcNode.Mining
