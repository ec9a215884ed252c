import BcNode.Mining.Difficulty

/-!
# Mining primitives

The parts of `mining/primitives` that turn a previous block and rovered child
blocks into a template, and a template into a solution: the digests of the
child headers, the merkle root, the work string, the header map with its
confirmation counts, `prepareNewBlock` and the mining loop.

The loop reads a clock and a random engine on every pass.  Those readings are
its input here, one `Tick` a pass, so `mine` is a structural recursion over
them; a list that ends before the loop does leaves it `mining`.
-/

namespace BcNode.Mining

open BcNode.Js BcNode.Protos

/-! ## Digests -/

/-- An element of the list `createMerkleRoot` folds. -/
inductive MerkleItem where
  | str (s : String)
  | num (n : Nat)
  | tx (t : BcTransaction)
  deriving DecidableEq, Repr

/-- The element as string concatenation sees it. -/
def MerkleItem.text : MerkleItem → String
  | .str s => s
  | .num n => toString n
  | .tx t => t.hash

/-- The element as `Buffer.from` takes it: only a string will do. -/
def MerkleItem.buffer : MerkleItem → Except JsError String
  | .str s => .ok s
  | .num _ => .error .typeError
  | .tx _ => .error .typeError

/-- `createMerkleRoot`; `none` is `undefined`. -/
def createMerkleRoot (pkg : Packages) :
    List MerkleItem → Option String → Except JsError (Option String)
  | [], prev => .ok prev
  | item :: list, some prev =>
      createMerkleRoot pkg list (some (pkg.blake2bl (prev ++ item.text)))
  | item :: list, none =>
      match item.buffer with
      | .ok s => createMerkleRoot pkg list (some (pkg.blake2bl s))
      | .error e => .error e

/-- `blockHash` of a header: the digest of its hash and merkle root. -/
def blockHash (pkg : Packages) (header : BlockchainHeader) : String :=
  pkg.blake2bl (header.hash ++ header.merkleRoot)

/-- `getChildrenBlocksHashes`. -/
def getChildrenBlocksHashes (pkg : Packages) (headers : List BlockchainHeader) :
    List String :=
  headers.map (blockHash pkg)

/-- `blockchainMapToList`. -/
def blockchainMapToList (headersMap : BlockchainHeaders) : List BlockchainHeader :=
  headersMap.lists.foldl (fun acc curr => acc ++ curr) []

/-- `getChildrenRootHash`. -/
def getChildrenRootHash (hashes : List String) : Nat :=
  hashes.foldl (fun all hash => all ^^^ bnOfHex hash) 0

/-- `prepareWork`. -/
def prepareWork (pkg : Packages) (previousBlockHash : String)
    (childrenCurrentBlocks : BlockchainHeaders) : String :=
  let newChainRoot := getChildrenRootHash
    (getChildrenBlocksHashes pkg (blockchainMapToList childrenCurrentBlocks))
  pkg.blake2bl (toString (newChainRoot ^^^ bnOfHex previousBlockHash))

/-! ## Counting new child blocks -/

/-- `getChildBlockDiff`: chain by chain, the header hashes of `a` that `b`
lacks. -/
def getChildBlockDiff (a b : BlockchainHeaders) : Nat :=
  Chain.all.foldl (fun total key =>
    total + (difference ((a.get key).map (·.hash)) ((b.get key).map (·.hash))).length) 0

/-- `getNewBlockCount`. -/
def getNewBlockCount (previousBlockHeaders currentBlockHeaders : BlockchainHeaders) :
    Nat :=
  getChildBlockDiff previousBlockHeaders currentBlockHeaders

/-- `getNewPreExpDifficulty`; `blockWhichTriggeredMining` enters through its
timestamp. -/
def getNewPreExpDifficulty (pkg : Packages) (currentTimestamp : Nat)
    (lastPreviousBlock : BcBlock) (triggerTimestamp newBlockCount : Nat) : Int :=
  getDiff pkg currentTimestamp lastPreviousBlock.timestamp
    lastPreviousBlock.difficulty MINIMUM_DIFFICULTY newBlockCount triggerTimestamp

/-! ## The header map of a template -/

/-- `copyHeader` of a rovered block. -/
def copyBlock (block : Block) (confirmations : Nat) : BlockchainHeader where
  blockchain := block.blockchain
  hash := block.hash
  previousHash := block.previousHash
  timestamp := block.timestamp
  height := block.height
  merkleRoot := block.merkleRoot
  blockchainConfirmationsInParentCount := confirmations

/-- `copyHeader` of a header. -/
def copyHeader (header : BlockchainHeader) (confirmations : Nat) : BlockchainHeader :=
  { header with blockchainConfirmationsInParentCount := confirmations }

/-- `newMap[method](list)`, with the method named after a chain label. -/
def setByLabel (map : BlockchainHeaders) (label : String)
    (list : List BlockchainHeader) : Except JsError BlockchainHeaders :=
  match chainOfLabel? label with
  | some chain => .ok (map.set chain list)
  | none => .error .typeError

/-- `prepareChildBlockHeadersMapForGenesis`. -/
def prepareChildBlockHeadersMapForGenesis (currentBlockchainHeaders : List Block) :
    Except JsError BlockchainHeaders :=
  currentBlockchainHeaders.foldlM (fun newMap header =>
    setByLabel newMap header.blockchain [copyBlock header 1]) {}

/-- `groupBy(block => block.getBlockchain(), blocks)`, then `toPairs`. -/
def groupByBlockchain (blocks : List Block) : List (String × List Block) :=
  let labels := (blocks.map (·.blockchain)).eraseDups
  (labels.filter (· ≠ "__proto__")).map fun label =>
    (label, blocks.filter (·.blockchain = label))

/-- The first half of `prepareChildBlockHeadersMap`: the new child headers,
each chain's list with confirmation count 1. -/
def setNewChildHeaders (newChildHeaders : List Block) :
    Except JsError BlockchainHeaders :=
  (groupByBlockchain newChildHeaders).foldlM (fun newMap entry =>
    setByLabel newMap entry.1 (entry.2.map (copyBlock · 1))) {}

/-- The second half, for one chain: an empty list takes the last header of the
previous block with one confirmation more. -/
def carryLastHeader (previousBlock : BcBlock) (newMap : BlockchainHeaders)
    (chain : Chain) : Except JsError BlockchainHeaders :=
  match newMap.get chain with
  | _ :: _ => .ok newMap
  | [] => do
      let previousHeaders ← previousBlock.getBlockchainHeaders
      match (previousHeaders.get chain).getLast? with
      | some last =>
          .ok (newMap.set chain
            [copyHeader last (last.blockchainConfirmationsInParentCount + 1)])
      | none =>
          .error (.error s!"Previous BC block {previousBlock.height} does not have any \"{chain.name}\" headers")

/-- `prepareChildBlockHeadersMap`.  The source also passes the block that
triggered mining and does not look at it. -/
def prepareChildBlockHeadersMap (previousBlock : BcBlock)
    (newChildHeaders : List Block) : Except JsError BlockchainHeaders := do
  let newMap ← setNewChildHeaders newChildHeaders
  Chain.all.foldlM (carryLastHeader previousBlock) newMap

/-! ## `prepareNewBlock` -/

/-- The header map `prepareNewBlock` builds. -/
def prepareHeaders (lastPreviousBlock : BcBlock) (newChildHeaders : List Block)
    (unfinishedBlock : Option BcBlock) : Except JsError BlockchainHeaders :=
  if lastPreviousBlock.height = Genesis.height then
    prepareChildBlockHeadersMapForGenesis newChildHeaders
  else
    prepareChildBlockHeadersMap (unfinishedBlock.getD lastPreviousBlock)
      newChildHeaders

/-- The weight of the previous block, as text. -/
def chainWeightOf (pkg : Packages) (block : BcBlock) : String :=
  toString (pkg.divRound (pkg.bn block.distance - pkg.bn block.difficulty) 8)

/-- The list `prepareNewBlock` and the validator fold into a merkle root. -/
def merkleItems (blockHashes : List String) (txs : List BcTransaction)
    (difficulty miner : String) (height version schemaVersion nrgGrant : Nat) :
    List MerkleItem :=
  blockHashes.map .str ++ txs.map .tx ++
    [.str difficulty, .str miner, .num height, .num version, .num schemaVersion,
      .num nrgGrant, .str Genesis.blockchainFingerprintsRoot]

/-- The difficulty of a template as text, for numbers that are `Safe`. -/
def templateDifficulty (pkg : Packages) (currentTimestamp : Nat)
    (lastPreviousBlock : BcBlock) (triggerTimestamp newBlockCount : Nat) : String :=
  let preExpDiff := getNewPreExpDifficulty pkg currentTimestamp lastPreviousBlock
    triggerTimestamp newBlockCount
  toString (getExpFactorDiff preExpDiff lastPreviousBlock.height)

/-- The run of `set` calls at the end of `prepareNewBlock`. -/
def newTemplate (pkg : Packages) (lastPreviousBlock : BcBlock)
    (childBlockHeaders : BlockchainHeaders) (newTransactions : List BcTransaction)
    (minerAddress finalDifficulty newMerkleRoot chainWeight : String)
    (headersCount : Nat) : BcBlock where
  hash := pkg.blake2bl (lastPreviousBlock.hash ++ newMerkleRoot)
  previousHash := lastPreviousBlock.hash
  version := 1
  schemaVersion := 1
  height := lastPreviousBlock.height + 1
  miner := minerAddress
  difficulty := finalDifficulty
  merkleRoot := newMerkleRoot
  chainRoot := pkg.blake2bl (toString (getChildrenRootHash
    (getChildrenBlocksHashes pkg (blockchainMapToList childBlockHeaders))))
  -- set to its proper value after successful mining
  distance := chainWeight
  totalDistance := lastPreviousBlock.totalDistance
  nrgGrant := Genesis.nrgGrant
  targetHash := Genesis.targetHash
  targetHeight := Genesis.targetHeight
  targetMiner := Genesis.targetMiner
  targetSignature := Genesis.targetSignature
  twn := Genesis.twn
  twsList := Genesis.twsList
  emblemWeight := Genesis.emblemWeight
  emblemChainBlockHash := Genesis.emblemChainBlockHash
  emblemChainFingerprintRoot := Genesis.emblemChainFingerprintRoot
  emblemChainAddress := Genesis.emblemChainAddress
  txCount := 0
  txsList := newTransactions
  blockchainHeadersCount := headersCount
  blockchainFingerprintsRoot := Genesis.blockchainFingerprintsRoot
  txFeeBase := Genesis.txFeeBase
  txDistanceSumLimit := Genesis.txDistanceSumLimit
  blockchainHeaders := some childBlockHeaders

/-- `prepareNewBlock`.  The numbers the difficulty takes are those of the clock, of a
rovered block and of the node's own latest block; they are taken to be `Safe`. -/
def prepareNewBlock (pkg : Packages) (currentTimestamp : Nat)
    (lastPreviousBlock : BcBlock) (newChildHeaders : List Block)
    (blockWhichTriggeredMining : Block) (newTransactions : List BcTransaction)
    (minerAddress : String) (unfinishedBlock : Option BcBlock) :
    Except JsError (BcBlock × Nat) := do
  let childBlockHeaders ←
    prepareHeaders lastPreviousBlock newChildHeaders unfinishedBlock
  let blockHashes :=
    getChildrenBlocksHashes pkg (blockchainMapToList childBlockHeaders)
  let lastPreviousHeaders ← lastPreviousBlock.getBlockchainHeaders
  let newBlockCount := getNewBlockCount lastPreviousHeaders childBlockHeaders
  let finalDifficulty := templateDifficulty pkg currentTimestamp lastPreviousBlock
    blockWhichTriggeredMining.timestamp newBlockCount
  let newHeight := lastPreviousBlock.height + 1
  let newMerkleRoot ← createMerkleRoot pkg (merkleItems blockHashes newTransactions
    finalDifficulty minerAddress newHeight Genesis.version Genesis.schemaVersion
    Genesis.nrgGrant) none
  -- `2` is a plain number in the source, not a `BN`
  let weighted ← bnGtNumber lastPreviousBlock.height 2
  let chainWeight := if weighted then chainWeightOf pkg lastPreviousBlock else "0"
  -- the list above is never empty, so neither is the root `undefined`
  return (newTemplate pkg lastPreviousBlock childBlockHeaders newTransactions
    minerAddress finalDifficulty (newMerkleRoot.getD "") chainWeight
    newChildHeaders.length, currentTimestamp)

/-- What a successful `prepareNewBlock` returns, with its ingredients named. -/
theorem prepareNewBlock_ok {pkg : Packages} {currentTimestamp : Nat}
    {lastPreviousBlock : BcBlock} {newChildHeaders : List Block}
    {blockWhichTriggeredMining : Block} {newTransactions : List BcTransaction}
    {minerAddress : String} {unfinishedBlock : Option BcBlock} {newBlock : BcBlock}
    {finalTimestamp : Nat}
    (h : prepareNewBlock pkg currentTimestamp lastPreviousBlock newChildHeaders
      blockWhichTriggeredMining newTransactions minerAddress unfinishedBlock =
        .ok (newBlock, finalTimestamp)) :
    ∃ headers lastHeaders root difficulty,
      prepareHeaders lastPreviousBlock newChildHeaders unfinishedBlock = .ok headers ∧
      lastPreviousBlock.getBlockchainHeaders = .ok lastHeaders ∧
      difficulty = templateDifficulty pkg currentTimestamp lastPreviousBlock
        blockWhichTriggeredMining.timestamp (getNewBlockCount lastHeaders headers) ∧
      createMerkleRoot pkg (merkleItems
        (getChildrenBlocksHashes pkg (blockchainMapToList headers)) newTransactions
        difficulty minerAddress (lastPreviousBlock.height + 1) Genesis.version
        Genesis.schemaVersion Genesis.nrgGrant) none = .ok root ∧
      newBlock = newTemplate pkg lastPreviousBlock headers newTransactions
        minerAddress difficulty (root.getD "") (chainWeightOf pkg lastPreviousBlock)
        newChildHeaders.length ∧
      finalTimestamp = currentTimestamp := by
  unfold prepareNewBlock at h
  cases hheaders : prepareHeaders lastPreviousBlock newChildHeaders unfinishedBlock with
  | error e => rw [hheaders] at h; cases h
  | ok headers =>
      cases hlast : lastPreviousBlock.getBlockchainHeaders with
      | error e => rw [hheaders, hlast] at h; cases h
      | ok lastHeaders =>
          rw [hheaders, hlast] at h
          cases hroot : createMerkleRoot pkg (merkleItems
            (getChildrenBlocksHashes pkg (blockchainMapToList headers)) newTransactions
            (templateDifficulty pkg currentTimestamp lastPreviousBlock
              blockWhichTriggeredMining.timestamp (getNewBlockCount lastHeaders headers))
            minerAddress (lastPreviousBlock.height + 1) Genesis.version
            Genesis.schemaVersion Genesis.nrgGrant) none with
          | error e =>
              simp only [bind, Except.bind, hroot] at h
              cases h
          | ok root =>
              simp only [bind, Except.bind, hroot, bnGtNumber_natCast, pure,
                Except.pure, if_true, Except.ok.injEq, Prod.mk.injEq] at h
              exact ⟨headers, lastHeaders, root, _, rfl, rfl, rfl, hroot, h.1.symm,
                h.2.symm⟩

/-! ## The mining loop -/

/-- What one pass of the mining loop reads from outside: the clock in
milliseconds and in seconds, the random number, and the clock once more. -/
structure Tick where
  now : Nat
  nowSeconds : Nat
  random : Nat
  after : Nat
  deriving DecidableEq, Repr

/-- The object `mine` returns. -/
structure Solution where
  distance : String
  nonce : String
  timestamp : Nat
  difficulty : String
  iterations : Nat
  timeDiff : Int
  deriving DecidableEq, Repr

/-- How far the mining loop got: a solution, `null` after the timeout, or still
running when the readings end. -/
inductive MineOutcome where
  | solution (result : Solution)
  | null
  | mining
  deriving DecidableEq, Repr

/-- `MAX_TIMEOUT_SECONDS`. -/
def MAX_TIMEOUT_SECONDS : Nat := 300

/-- `difficultyCalculator`, when one is passed. -/
abbrev DifficultyCalculator := Option (Nat → Except JsError String)

/-- The clock part of a pass: each new second moves the timestamp and has the
difficulty recalculated. -/
def advance (difficultyCalculator : DifficultyCalculator)
    (currentLoopTimestamp : Nat) (difficulty : String) (now : Nat) :
    Except JsError (Nat × String) :=
  match difficultyCalculator with
  | some calculator =>
      if currentLoopTimestamp < now then do
        let recalculated ← calculator now
        return (now, recalculated)
      else return (currentLoopTimestamp, difficulty)
  | none => return (currentLoopTimestamp, difficulty)

/-- The string a pass measures against the work. -/
def proofText (pkg : Packages) (miner merkleRoot nonce : String) (timestamp : Nat) :
    String :=
  pkg.blake2bl (miner ++ merkleRoot ++ pkg.blake2bl nonce ++ toString timestamp)

/-- The loop of `mine`, from the pass after `iterations` others. -/
def mineLoop (pkg : Packages) (work miner merkleRoot : String)
    (difficultyCalculator : DifficultyCalculator) (tsStart : Nat) :
    Nat → String → Nat → List Tick → Except JsError MineOutcome
  | _, _, _, [] => return .mining
  | currentLoopTimestamp, difficulty, iterations, tick :: ticks =>
      if tsStart + MAX_TIMEOUT_SECONDS * 1000 < tick.now then return .null
      else do
        let (timestamp, difficulty) ←
          advance difficultyCalculator currentLoopTimestamp difficulty tick.nowSeconds
        let nonce := toString tick.random
        let result := pkg.distance work (proofText pkg miner merkleRoot nonce timestamp)
        if result > pkg.bn difficulty then
          return .solution
            { distance := toString result
              nonce
              timestamp
              difficulty
              iterations := iterations + 1
              timeDiff := (tick.after : Int) - tsStart }
        else
          mineLoop pkg work miner merkleRoot difficultyCalculator tsStart timestamp
            difficulty (iterations + 1) ticks

/-- `mine`. -/
def mine (pkg : Packages) (currentTimestamp : Nat)
    (work miner merkleRoot threshold : String)
    (difficultyCalculator : DifficultyCalculator) (tsStart : Nat)
    (ticks : List Tick) : Except JsError MineOutcome :=
  mineLoop pkg work miner merkleRoot difficultyCalculator tsStart currentTimestamp
    threshold 0 ticks

/-- How the loop's timestamp and difficulty came about: both still the initial
ones, or both set by the calculator at a later second. -/
def Calculated (difficultyCalculator : DifficultyCalculator) (currentTimestamp : Nat)
    (threshold : String) (timestamp : Nat) (difficulty : String) : Prop :=
  (timestamp = currentTimestamp ∧ difficulty = threshold) ∨
    (currentTimestamp < timestamp ∧ ∃ calculator,
      difficultyCalculator = some calculator ∧ calculator timestamp = .ok difficulty)

theorem advance_calculated {difficultyCalculator : DifficultyCalculator}
    {currentTimestamp loopTimestamp now timestamp : Nat}
    {threshold loopDifficulty difficulty : String}
    (hloop : Calculated difficultyCalculator currentTimestamp threshold
      loopTimestamp loopDifficulty)
    (h : advance difficultyCalculator loopTimestamp loopDifficulty now =
      .ok (timestamp, difficulty)) :
    Calculated difficultyCalculator currentTimestamp threshold timestamp difficulty := by
  cases difficultyCalculator with
  | none =>
      cases h
      exact hloop
  | some calculator =>
      simp only [advance] at h
      split at h
      · next hlt =>
          cases hnow : calculator now with
          | error e => rw [hnow] at h; cases h
          | ok recalculated =>
              rw [hnow] at h
              cases h
              have hle : currentTimestamp ≤ loopTimestamp := by
                rcases hloop with ⟨rfl, _⟩ | ⟨hlt, _⟩ <;> omega
              exact Or.inr ⟨by omega, calculator, rfl, hnow⟩
      · cases h
        exact hloop

/-- The result of the loop: the distance of its own proof string, above its own
difficulty, at a timestamp the difficulty was calculated for. -/
structure Solves (pkg : Packages) (work miner merkleRoot threshold : String)
    (difficultyCalculator : DifficultyCalculator) (currentTimestamp : Nat)
    (r : Solution) : Prop where
  distance : r.distance =
    toString (pkg.distance work (proofText pkg miner merkleRoot r.nonce r.timestamp))
  above : pkg.bn r.difficulty <
    pkg.distance work (proofText pkg miner merkleRoot r.nonce r.timestamp)
  calculated : Calculated difficultyCalculator currentTimestamp threshold
    r.timestamp r.difficulty

/-- What one pass of the loop did when the loop returns a solution: the pass found it,
or a later one does. -/
theorem mineLoop_solution {pkg : Packages} {work miner merkleRoot difficulty : String}
    {difficultyCalculator : DifficultyCalculator} {tsStart timestamp iterations : Nat}
    {tick : Tick} {ticks : List Tick} {r : Solution}
    (h : mineLoop pkg work miner merkleRoot difficultyCalculator tsStart timestamp
      difficulty iterations (tick :: ticks) = .ok (.solution r)) :
    ∃ timestamp' difficulty',
      advance difficultyCalculator timestamp difficulty tick.nowSeconds =
        .ok (timestamp', difficulty') ∧
      ((pkg.bn difficulty' < pkg.distance work
            (proofText pkg miner merkleRoot (toString tick.random) timestamp') ∧
          r = { distance := toString (pkg.distance work
                  (proofText pkg miner merkleRoot (toString tick.random) timestamp'))
                nonce := toString tick.random
                timestamp := timestamp'
                difficulty := difficulty'
                iterations := iterations + 1
                timeDiff := (tick.after : Int) - tsStart }) ∨
        mineLoop pkg work miner merkleRoot difficultyCalculator tsStart timestamp'
          difficulty' (iterations + 1) ticks = .ok (.solution r)) := by
  rw [mineLoop] at h
  split at h
  · cases h
  · cases hadv : advance difficultyCalculator timestamp difficulty tick.nowSeconds with
    | error e => rw [hadv] at h; cases h
    | ok next =>
        obtain ⟨timestamp', difficulty'⟩ := next
        rw [hadv] at h
        simp only [bind, Except.bind] at h
        refine ⟨timestamp', difficulty', rfl, ?_⟩
        split at h
        · next habove =>
            cases h
            exact Or.inl ⟨habove, rfl⟩
        · exact Or.inr h

theorem mineLoop_solves {pkg : Packages} {work miner merkleRoot threshold : String}
    {difficultyCalculator : DifficultyCalculator} {currentTimestamp tsStart : Nat}
    {r : Solution} (ticks : List Tick) :
    ∀ (timestamp : Nat) (difficulty : String) (iterations : Nat),
      Calculated difficultyCalculator currentTimestamp threshold timestamp difficulty →
      mineLoop pkg work miner merkleRoot difficultyCalculator tsStart timestamp
        difficulty iterations ticks = .ok (.solution r) →
      Solves pkg work miner merkleRoot threshold difficultyCalculator
        currentTimestamp r := by
  induction ticks with
  | nil =>
      intro timestamp difficulty iterations _ h
      cases h
  | cons tick ticks ih =>
      intro timestamp difficulty iterations hcalc h
      obtain ⟨timestamp', difficulty', hadv, hfound | hlater⟩ := mineLoop_solution h
      · obtain ⟨habove, rfl⟩ := hfound
        exact ⟨rfl, habove, advance_calculated hcalc hadv⟩
      · exact ih timestamp' difficulty' (iterations + 1) (advance_calculated hcalc hadv)
          hlater

/-- Every solution `mine` returns solves its own problem. -/
theorem mine_solves {pkg : Packages} {currentTimestamp : Nat}
    {work miner merkleRoot threshold : String}
    {difficultyCalculator : DifficultyCalculator} {tsStart : Nat} {ticks : List Tick}
    {r : Solution}
    (h : mine pkg currentTimestamp work miner merkleRoot threshold
      difficultyCalculator tsStart ticks = .ok (.solution r)) :
    Solves pkg work miner merkleRoot threshold difficultyCalculator
      currentTimestamp r :=
  mineLoop_solves ticks currentTimestamp threshold 0 (Or.inl ⟨rfl, rfl⟩) h

/-! ## One pass of the loop -/

/-- One of the passes read a second after `currentTimestamp`, and there is a calculator
to be asked about it. -/
def Ticked (difficultyCalculator : DifficultyCalculator) (currentTimestamp : Nat)
    (passes : List Tick) : Prop :=
  difficultyCalculator.isSome ∧ ∃ tick ∈ passes, currentTimestamp < tick.nowSeconds

theorem ticked_cons {difficultyCalculator : DifficultyCalculator}
    {currentTimestamp : Nat} {tick : Tick} {passes : List Tick} :
    Ticked difficultyCalculator currentTimestamp (tick :: passes) ↔
      (difficultyCalculator.isSome ∧ currentTimestamp < tick.nowSeconds) ∨
        Ticked difficultyCalculator currentTimestamp passes := by
  rw [Ticked, Ticked, List.exists_mem_cons_iff, and_or_left]

/-- The loop's timestamp is past the initial one as soon as a pass has ticked. -/
theorem advance_ticked {difficultyCalculator : DifficultyCalculator}
    {currentTimestamp loopTimestamp now timestamp : Nat}
    {loopDifficulty difficulty : String} (hle : currentTimestamp ≤ loopTimestamp)
    (h : advance difficultyCalculator loopTimestamp loopDifficulty now =
      .ok (timestamp, difficulty)) :
    currentTimestamp ≤ timestamp ∧
      (currentTimestamp < timestamp ↔ currentTimestamp < loopTimestamp ∨
        difficultyCalculator.isSome ∧ currentTimestamp < now) := by
  cases difficultyCalculator with
  | none =>
      cases h
      simpa using hle
  | some calculator =>
      simp only [advance] at h
      split at h
      · cases hnow : calculator now with
        | error e => rw [hnow] at h; cases h
        | ok recalculated =>
            rw [hnow] at h
            cases h
            simp only [Option.isSome_some, true_and]
            omega
      · cases h
        simp only [Option.isSome_some, true_and]
        omega

/-- The solution stands for its last pass: the nonce was drawn in it, and the timestamp
tells whether it or one before it ticked. -/
theorem mineLoop_pass {pkg : Packages} {work miner merkleRoot : String}
    {difficultyCalculator : DifficultyCalculator} {currentTimestamp tsStart : Nat}
    {r : Solution} (ticks : List Tick) :
    ∀ (timestamp : Nat) (difficulty : String) (iterations : Nat),
      currentTimestamp ≤ timestamp →
      mineLoop pkg work miner merkleRoot difficultyCalculator tsStart timestamp
        difficulty iterations ticks = .ok (.solution r) →
      ∃ before tick after, ticks = before ++ tick :: after ∧
        r.iterations = iterations + before.length + 1 ∧
        r.nonce = toString tick.random ∧ currentTimestamp ≤ r.timestamp ∧
        (currentTimestamp < r.timestamp ↔ currentTimestamp < timestamp ∨
          Ticked difficultyCalculator currentTimestamp (before ++ [tick])) := by
  induction ticks with
  | nil =>
      intro timestamp difficulty iterations _ h
      cases h
  | cons tick ticks ih =>
      intro timestamp difficulty iterations hle h
      obtain ⟨timestamp', difficulty', hadv, hfound | hlater⟩ := mineLoop_solution h
      · obtain ⟨hle', hticked⟩ := advance_ticked hle hadv
        obtain ⟨-, rfl⟩ := hfound
        refine ⟨[], tick, ticks, rfl, rfl, rfl, hle', ?_⟩
        rw [List.nil_append, ticked_cons, hticked]
        simp [Ticked]
      · obtain ⟨hle', hticked⟩ := advance_ticked hle hadv
        obtain ⟨before, last, after, rfl, hiterations, hnonce, hler, hr⟩ :=
          ih timestamp' difficulty' (iterations + 1) hle' hlater
        refine ⟨tick :: before, last, after, rfl, ?_, hnonce, hler, ?_⟩
        · rw [hiterations, List.length_cons]
          omega
        · rw [hr, hticked, List.cons_append, ticked_cons, or_assoc]

/-- **What `mine` returns belongs together.**  The distance is the one of the returned
nonce and timestamp, it is above the returned difficulty, and this is the threshold as
long as no pass has ticked, and what the calculator says of the returned timestamp from
then on. -/
theorem mine_result {pkg : Packages} {currentTimestamp : Nat}
    {work miner merkleRoot threshold : String}
    {difficultyCalculator : DifficultyCalculator} {tsStart : Nat} {ticks : List Tick}
    {r : Solution}
    (h : mine pkg currentTimestamp work miner merkleRoot threshold
      difficultyCalculator tsStart ticks = .ok (.solution r)) :
    r.distance = toString (pkg.distance work (pkg.blake2bl
        (miner ++ merkleRoot ++ pkg.blake2bl r.nonce ++ toString r.timestamp))) ∧
      pkg.bn r.difficulty < pkg.bn r.distance ∧
      (∃ tick, ticks[r.iterations - 1]? = some tick ∧ r.nonce = toString tick.random) ∧
      (¬ Ticked difficultyCalculator currentTimestamp (ticks.take r.iterations) →
        r.difficulty = threshold ∧ r.timestamp = currentTimestamp) ∧
      (Ticked difficultyCalculator currentTimestamp (ticks.take r.iterations) →
        ∃ calculator, difficultyCalculator = some calculator ∧
          calculator r.timestamp = .ok r.difficulty) ∧
      currentTimestamp ≤ r.timestamp := by
  have hsolves := mine_solves h
  obtain ⟨before, tick, after, hticks, hiterations, hnonce, hle, hticked⟩ :=
    mineLoop_pass ticks currentTimestamp threshold 0 (Nat.le_refl currentTimestamp) h
  have hindex : r.iterations = before.length + 1 := by omega
  have htake : ticks.take r.iterations = before ++ [tick] := by
    rw [hticks, hindex, List.take_append, List.take_of_length_le (Nat.le_succ _),
      Nat.add_sub_cancel_left]
    rfl
  have hget : ticks[r.iterations - 1]? = some tick := by
    rw [hticks, hindex, Nat.add_sub_cancel, List.getElem?_append_right (Nat.le_refl _),
      Nat.sub_self]
    rfl
  rw [htake]
  refine ⟨hsolves.distance, ?_, ⟨tick, hget, hnonce⟩, fun hnot => ?_, fun hyes => ?_, hle⟩
  · rw [hsolves.distance, Packages.bn_toString]
    exact hsolves.above
  · rcases hsolves.calculated with ⟨htimestamp, hdifficulty⟩ | ⟨hlt, -⟩
    · exact ⟨hdifficulty, htimestamp⟩
    · exact absurd (hticked.1 hlt) (not_or_intro (Nat.lt_irrefl _) hnot)
  · rcases hsolves.calculated with ⟨htimestamp, -⟩ | ⟨-, hcalculator⟩
    · have hlt := hticked.2 (Or.inr hyes)
      omega
    · exact hcalculator

/-- Packages with which every proof is at distance 60. -/
def sampleSixty : Packages where
  blake2bl := id
  distance _ _ := 60
  divRound := Int.tdiv
  bnText _ := 0
  textLtOne _ := false

/-- Every second has half the difficulty of the template. -/
def sampleCalculator : DifficultyCalculator := some fun _ => .ok "50"

/-- Two passes; a new second begins before the other one. -/
def samplePasses : List Tick :=
  [{ now := 10000, nowSeconds := 10, random := 7, after := 10001 },
    { now := 11000, nowSeconds := 11, random := 8, after := 11001 }]

def sampleRecalculated : Solution where
  distance := "60"
  nonce := "8"
  timestamp := 11
  difficulty := "50"
  iterations := 2
  timeDiff := 1001

/-- The other pass finds a solution, at the recalculated difficulty. -/
theorem sampleRecalculated_result :
    sampleRecalculated.distance = toString (sampleSixty.distance "w" (sampleSixty.blake2bl
        ("m" ++ "r" ++ sampleSixty.blake2bl sampleRecalculated.nonce ++
          toString sampleRecalculated.timestamp))) ∧
      sampleSixty.bn sampleRecalculated.difficulty <
        sampleSixty.bn sampleRecalculated.distance ∧
      (∃ tick, samplePasses[sampleRecalculated.iterations - 1]? = some tick ∧
        sampleRecalculated.nonce = toString tick.random) ∧
      (¬ Ticked sampleCalculator 10 (samplePasses.take sampleRecalculated.iterations) →
        sampleRecalculated.difficulty = "100" ∧ sampleRecalculated.timestamp = 10) ∧
      (Ticked sampleCalculator 10 (samplePasses.take sampleRecalculated.iterations) →
        ∃ calculator, sampleCalculator = some calculator ∧
          calculator sampleRecalculated.timestamp = .ok sampleRecalculated.difficulty) ∧
      10 ≤ sampleRecalculated.timestamp := by
  have hmine : mine sampleSixty 10 "w" "m" "r" "100" sampleCalculator 10000 samplePasses =
      .ok (.solution sampleRecalculated) := by
    decide +kernel
  exact mine_result hmine

end BcNode.Mining
