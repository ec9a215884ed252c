import BcNode.Mining.Officer

/-!
# Miner and validator

A block is put together in three places (`prepareNewBlock`, `mine`,
`_handleWorkerFinishedMessage`) and taken apart again in `bc/validation`.
This file compares the two sides, quantity by quantity:

* the chain root, the merkle root and the distance are the same on both sides;
* so is the total distance, although the chain weight travels through the
  template's `distance` field;
* the difficulty is computed from the block that triggered mining on one side
  and from the newest header on the other, and it is not recomputed for the
  timestamp of the solution.  Here the two sides agree exactly when the step
  factors of `getDiff` do, and `SameStep` says when that is.
-/

namespace BcNode.Mining

open BcNode.Verified BcNode.Js BcNode.Protos BcNode.Bc

/-! ## The header map of a template is full -/

/-- A fold that can throw keeps what each of its turns keeps. -/
private theorem foldlM_keeps {α β : Type} {f : β → α → Except JsError β}
    (P : β → Prop) (list : List α) :
    ∀ {s s' : β}, (∀ t t', ∀ a ∈ list, f t a = .ok t' → P t → P t') →
      list.foldlM f s = .ok s' → P s → P s' := by
  induction list with
  | nil =>
      intro s s' _ hfold hs
      cases hfold
      exact hs
  | cons a list ih =>
      intro s s' hstep hfold hs
      obtain ⟨t, hat, hrest⟩ := foldlM_cons_ok.1 hfold
      exact ih (fun u u' b hb => hstep u u' b (List.mem_cons_of_mem _ hb)) hrest
        (hstep s t a List.mem_cons_self hat hs)

/-- If the turn for one element establishes what every turn keeps, the whole
fold establishes it. -/
private theorem foldlM_reaches {α β : Type} {f : β → α → Except JsError β}
    (P : β → Prop) {a : α} (list : List α) (ha : a ∈ list) :
    ∀ {s s' : β}, (∀ t t', f t a = .ok t' → P t') →
      (∀ t t', ∀ b ∈ list, f t b = .ok t' → P t → P t') →
      list.foldlM f s = .ok s' → P s' := by
  induction list with
  | nil => cases ha
  | cons b list ih =>
      intro s s' hgain hkeep hfold
      obtain ⟨t, hbt, hrest⟩ := foldlM_cons_ok.1 hfold
      have hkeep' : ∀ t t', ∀ c ∈ list, f t c = .ok t' → P t → P t' :=
        fun t t' c hc => hkeep t t' c (List.mem_cons_of_mem _ hc)
      rcases List.mem_cons.1 ha with rfl | hmem
      · exact foldlM_keeps P list hkeep' hrest (hgain s t hbt)
      · exact ih hmem hgain hkeep' hrest

/-- Setting some chain's list to a nonempty one never empties another. -/
theorem setByLabel_keeps {map map' : BlockchainHeaders} {label : String}
    {list : List BlockchainHeader} {chain : Chain} (hlist : list ≠ [])
    (h : setByLabel map label list = .ok map') (hmap : map.get chain ≠ []) :
    map'.get chain ≠ [] := by
  unfold setByLabel at h
  split at h
  · next c _ =>
      cases h
      by_cases hc : chain = c
      · subst hc
        rw [BlockchainHeaders.get_set_self]
        exact hlist
      · rw [BlockchainHeaders.get_set_ne _ hc]
        exact hmap
  · cases h

/-- Setting a chain by its own name gives it that list. -/
theorem setByLabel_name {map map' : BlockchainHeaders} {list : List BlockchainHeader}
    {chain : Chain} (h : setByLabel map chain.name list = .ok map') :
    map'.get chain = list := by
  rw [setByLabel, chainOfLabel?_name] at h
  cases h
  exact BlockchainHeaders.get_set_self map chain list

/-- A turn of the second half leaves its own chain with a header. -/
theorem carryLastHeader_fills {previousBlock : BcBlock}
    {map map' : BlockchainHeaders} {chain : Chain}
    (h : carryLastHeader previousBlock map chain = .ok map') :
    map'.get chain ≠ [] := by
  unfold carryLastHeader at h
  split at h
  · next hget =>
      cases h
      rw [hget]
      exact List.cons_ne_nil _ _
  · cases hprev : previousBlock.getBlockchainHeaders with
    | error e => rw [hprev] at h; cases h
    | ok previousHeaders =>
        simp only [hprev, bind, Except.bind] at h
        split at h
        · cases h
          rw [BlockchainHeaders.get_set_self]
          exact List.cons_ne_nil _ _
        · cases h

/-- And takes no header from another chain. -/
theorem carryLastHeader_keeps {previousBlock : BcBlock}
    {map map' : BlockchainHeaders} {chain other : Chain}
    (h : carryLastHeader previousBlock map chain = .ok map')
    (hmap : map.get other ≠ []) : map'.get other ≠ [] := by
  by_cases hne : other = chain
  · subst hne
    exact carryLastHeader_fills h
  · unfold carryLastHeader at h
    split at h
    · cases h
      exact hmap
    · cases hprev : previousBlock.getBlockchainHeaders with
      | error e => rw [hprev] at h; cases h
      | ok previousHeaders =>
          simp only [hprev, bind, Except.bind] at h
          split at h
          · cases h
            rw [BlockchainHeaders.get_set_ne _ hne]
            exact hmap
          · cases h

/-- Above genesis every chain ends up with a header: its own new ones or the
last one of the previous block. -/
theorem prepareChildBlockHeadersMap_nonempty {previousBlock : BcBlock}
    {newChildHeaders : List Block} {headers : BlockchainHeaders}
    (h : prepareChildBlockHeadersMap previousBlock newChildHeaders = .ok headers) :
    headers.Nonempty := by
  intro chain
  unfold prepareChildBlockHeadersMap at h
  cases hnew : setNewChildHeaders newChildHeaders with
  | error e => rw [hnew] at h; cases h
  | ok newMap =>
      simp only [hnew, bind, Except.bind] at h
      refine foldlM_reaches (fun map => map.get chain ≠ []) Chain.all
        (Chain.mem_all chain) ?_ ?_ h
      · intro map map' hstep
        exact carryLastHeader_fills hstep
      · intro map map' other _ hstep hmap
        exact carryLastHeader_keeps hstep hmap

/-- On genesis a chain has a header as soon as a child block carries its name. -/
theorem prepareChildBlockHeadersMapForGenesis_nonempty {blocks : List Block}
    {headers : BlockchainHeaders}
    (h : prepareChildBlockHeadersMapForGenesis blocks = .ok headers)
    (hchains : ∀ chain : Chain, ∃ block ∈ blocks, block.blockchain = chain.name) :
    headers.Nonempty := by
  intro chain
  obtain ⟨block, hmem, hname⟩ := hchains chain
  refine foldlM_reaches (fun map => map.get chain ≠ []) blocks hmem ?_ ?_ h
  · intro map map' hset
    rw [hname] at hset
    rw [setByLabel_name hset]
    exact List.cons_ne_nil _ _
  · intro map map' b _ hset hmap
    exact setByLabel_keeps (List.cons_ne_nil _ _) hset hmap

/-- With a child block of every chain the header map is full, on genesis and
above. -/
theorem prepareHeaders_nonempty {lastPreviousBlock : BcBlock} {blocks : List Block}
    {unfinishedBlock : Option BcBlock} {headers : BlockchainHeaders}
    (h : prepareHeaders lastPreviousBlock blocks unfinishedBlock = .ok headers)
    (hchains : ∀ chain : Chain, ∃ block ∈ blocks, block.blockchain = chain.name) :
    headers.Nonempty := by
  unfold prepareHeaders at h
  split at h
  · exact prepareChildBlockHeadersMapForGenesis_nonempty h hchains
  · exact prepareChildBlockHeadersMap_nonempty h

/-! ## A sample of mining

Small inputs at which the results below are instantiated: a previous block at
second 990, one child block of each chain a second before the template, and a
solution found twenty seconds after it. -/

/-- A short digest. -/
def sampleDigest (text : String) : String :=
  toString (text.toList.foldl (fun acc c => (31 * acc + c.toNat) % 99999989) 7)

def samplePackages : Packages where
  blake2bl := sampleDigest
  distance := fun _ _ => 299200000000000
  divRound := fun a b => (2 * a + b).tdiv (2 * b)
  bnText := fun _ => 0
  textLtOne := fun _ => false

def sampleChild (chain : Chain) (timestamp height : Nat) : Block where
  blockchain := chain.name
  hash := sampleDigest (chain.name ++ toString height)
  previousHash := sampleDigest (chain.name ++ toString (height - 1))
  timestamp := timestamp
  height := height
  merkleRoot := sampleDigest (toString timestamp)

/-- One child block of each chain; the one of `btc` has its own timestamp. -/
def sampleChildren (btcTimestamp timestamp height : Nat) : List Block :=
  [sampleChild .btc btcTimestamp height, sampleChild .eth timestamp height,
    sampleChild .lsk timestamp height, sampleChild .neo timestamp height,
    sampleChild .wav timestamp height]

def sampleHeaders (btcTimestamp timestamp height : Nat) : BlockchainHeaders where
  btcList := [copyBlock (sampleChild .btc btcTimestamp height) 1]
  ethList := [copyBlock (sampleChild .eth timestamp height) 1]
  lskList := [copyBlock (sampleChild .lsk timestamp height) 1]
  neoList := [copyBlock (sampleChild .neo timestamp height) 1]
  wavList := [copyBlock (sampleChild .wav timestamp height) 1]

def samplePrevious : BcBlock where
  hash := "a0"
  previousHash := "9f"
  height := 5
  difficulty := "300000000000000"
  timestamp := 990
  distance := "310000000000000"
  totalDistance := "2000000000000000"
  blockchainHeaders := some (sampleHeaders 980000 980000 10)

/-- What `prepareNewBlock` makes of those children. -/
def sampleNewBlock (btcTimestamp : Nat) (difficulty merkleRoot : String) : BcBlock :=
  newTemplate samplePackages samplePrevious (sampleHeaders btcTimestamp 1000000 11) []
    "0xaa" difficulty merkleRoot "1250000000000" 5

def sampleTemplate : BcBlock :=
  { sampleNewBlock 1000000 "299263803680982" "59207330" with timestamp := 1000 }

def sampleWork : WorkData where
  workId := "w"
  currentTimestamp := 1000
  work := "64538556"
  minerKey := "0xaa"
  merkleRoot := "59207330"
  newestChildBlock := sampleChild .wav 1000000 11
  difficulty := "299263803680982"
  lastPreviousBlock := samplePrevious
  newBlockHeaders := sampleHeaders 1000000 1000000 11

/-- One pass of the loop, twenty seconds after the template. -/
def sampleTicks : List Tick :=
  [{ now := 1020000, nowSeconds := 1020, random := 42, after := 1020001 }]

def sampleSolution : Solution where
  distance := "299200000000000"
  nonce := "42"
  timestamp := 1020
  difficulty := "295214723926383"
  iterations := 1
  timeDiff := 20001

theorem sampleNewBlock_prepared :
    prepareNewBlock samplePackages 1000 samplePrevious (sampleChildren 1000000 1000000 11)
        (sampleChild .wav 1000000 11) [] "0xaa" none =
      .ok (sampleNewBlock 1000000 "299263803680982" "59207330", 1000) := by
  decide +kernel

theorem sampleTemplate_prepared :
    prepareTemplate samplePackages "w" 1000 samplePrevious
        (sampleChildren 1000000 1000000 11) (sampleChild .wav 1000000 11) "0xaa" none =
      .ok (sampleTemplate, sampleWork) := by
  have hwork : prepareWork samplePackages samplePrevious.hash
      (sampleHeaders 1000000 1000000 11) = "64538556" := by decide +kernel
  rw [prepareTemplate, sampleNewBlock_prepared]
  exact congrArg (fun work => Except.ok (sampleTemplate, { sampleWork with work })) hwork

theorem sampleSolution_mined :
    mineWork samplePackages sampleWork 1000000 sampleTicks =
      .ok (.solution sampleSolution) := by
  decide +kernel

/-! ## The hashes -/

/-- The root of a list that does not end in `none` is not `undefined`. -/
theorem createMerkleRoot_isSome {pkg : Packages} (list : List MerkleItem) :
    ∀ {prev : Option String} {root : Option String},
      (list ≠ [] ∨ prev.isSome) → createMerkleRoot pkg list prev = .ok root →
      root.isSome := by
  induction list with
  | nil =>
      intro prev root hsome h
      cases h
      exact hsome.resolve_left fun hnil => hnil rfl
  | cons item list ih =>
      intro prev root _ h
      cases prev with
      | some prev => exact ih (Or.inr rfl) h
      | none =>
          rw [createMerkleRoot] at h
          cases hbuffer : item.buffer with
          | error e => rw [hbuffer] at h; cases h
          | ok s =>
              rw [hbuffer] at h
              exact ih (Or.inr rfl) h

theorem merkleItems_ne_nil (blockHashes : List String) (txs : List BcTransaction)
    (difficulty miner : String) (height version schemaVersion nrgGrant : Nat) :
    merkleItems blockHashes txs difficulty miner height version schemaVersion
      nrgGrant ≠ [] := by
  unfold merkleItems
  exact List.append_ne_nil_of_right_ne_nil _ (List.cons_ne_nil _ _)

/-- **The hashes agree.**  A template completed with a solution of its own work
carries the chain root, the merkle root and the distance the validator
computes, whatever the digest and the distance functions are. -/
theorem completed_hashes_valid {pkg : Packages} {workId : String}
    {currentTimestamp : Nat} {lastPreviousBlock : BcBlock} {currentBlocks : List Block}
    {block : Block} {minerKey : String} {unfinishedBlock : Option BcBlock}
    {template : BcBlock} {data : WorkData} {tsStart : Nat} {ticks : List Tick}
    {r : Solution}
    (hprep : prepareTemplate pkg workId currentTimestamp lastPreviousBlock
      currentBlocks block minerKey unfinishedBlock = .ok (template, data))
    (hmine : mineWork pkg data tsStart ticks = .ok (.solution r)) :
    isChainRootCorrectlyCalculated pkg (completeTemplate pkg template r) = .ok true ∧
      isMerkleRootCorrectlyCalculated pkg (completeTemplate pkg template r) = .ok true ∧
      isDistanceCorrectlyCalculated pkg (completeTemplate pkg template r) = .ok true := by
  obtain ⟨headers, lastHeaders, root, difficulty, _, _, _, hroot, rfl, rfl⟩ :=
    prepareTemplate_ok hprep
  obtain ⟨root, rfl⟩ := Option.isSome_iff_exists.1
    (createMerkleRoot_isSome _ (Or.inl (merkleItems_ne_nil _ _ _ _ _ _ _ _)) hroot)
  have hsolves := mine_solves hmine
  refine ⟨?_, ?_, ?_⟩
  · simp only [isChainRootCorrectlyCalculated, completeTemplate, newTemplate,
      BcBlock.getBlockchainHeaders, bind, Except.bind, pure, Except.pure, beq_self_eq_true]
  · -- the template's version fields are the literals of `newTemplate`
    change createMerkleRoot pkg (merkleItems
      (getChildrenBlocksHashes pkg (blockchainMapToList headers)) [] difficulty minerKey
      (lastPreviousBlock.height + 1) 1 1 Genesis.nrgGrant) none = .ok (some root) at hroot
    simp only [isMerkleRootCorrectlyCalculated, completeTemplate, newTemplate,
      BcBlock.getBlockchainHeaders, bind, Except.bind, pure, Except.pure, hroot,
      Option.getD_some, beq_self_eq_true]
  · simp only [isDistanceCorrectlyCalculated, completeTemplate, newTemplate,
      BcBlock.getBlockchainHeaders, bind, Except.bind, pure, Except.pure,
      hsolves.distance, beq_self_eq_true]

theorem completed_hashes_valid_sample :
    isChainRootCorrectlyCalculated samplePackages
        (completeTemplate samplePackages sampleTemplate sampleSolution) = .ok true ∧
      isMerkleRootCorrectlyCalculated samplePackages
        (completeTemplate samplePackages sampleTemplate sampleSolution) = .ok true ∧
      isDistanceCorrectlyCalculated samplePackages
        (completeTemplate samplePackages sampleTemplate sampleSolution) = .ok true :=
  completed_hashes_valid sampleTemplate_prepared sampleSolution_mined

/-! ## The total distance -/

/-- **The total distance agrees.**  The weight `prepareNewBlock` leaves in the
template's `distance` is the one the validator recomputes: its guard
`height.gt(2)` compares with a plain number and never fails. -/
theorem completed_totalDistance_valid {pkg : Packages} {currentTimestamp : Nat}
    {lastPreviousBlock : BcBlock} {newChildHeaders : List Block}
    {blockWhichTriggeredMining : Block} {newTransactions : List BcTransaction}
    {minerAddress : String} {unfinishedBlock : Option BcBlock} {newBlock : BcBlock}
    {finalTimestamp : Nat}
    (h : prepareNewBlock pkg currentTimestamp lastPreviousBlock newChildHeaders
      blockWhichTriggeredMining newTransactions minerAddress unfinishedBlock =
        .ok (newBlock, finalTimestamp))
    (solution : Solution) :
    validateSequenceTotalDistance pkg lastPreviousBlock
      (completeTemplate pkg newBlock solution) = true := by
  obtain ⟨headers, lastHeaders, root, difficulty, _, _, _, _, rfl, _⟩ :=
    prepareNewBlock_ok h
  unfold validateSequenceTotalDistance
  dsimp only
  split
  · rfl
  · simp only [completeTemplate, newTemplate, beq_self_eq_true]

theorem completed_totalDistance_valid_sample :
    validateSequenceTotalDistance samplePackages samplePrevious
      (completeTemplate samplePackages (sampleNewBlock 1000000 "299263803680982" "59207330")
        sampleSolution) = true :=
  @completed_totalDistance_valid samplePackages 1000 samplePrevious
    (sampleChildren 1000000 1000000 11) (sampleChild .wav 1000000 11) [] "0xaa" none
    (sampleNewBlock 1000000 "299263803680982" "59207330") 1000 sampleNewBlock_prepared
    sampleSolution

/-! ## The difficulty -/

theorem validateSequenceDifficulty_iff {pkg : Packages} {previousBlock newBlock : BcBlock}
    {newBlockCount newestTimestamp : Nat}
    (h : sequenceInputs previousBlock newBlock = .ok (newBlockCount, newestTimestamp))
    (hsafe : SafeDifficulty newBlock.timestamp previousBlock.timestamp newestTimestamp
      previousBlock.height) :
    validateSequenceDifficulty pkg previousBlock newBlock = .ok true ↔
      newBlock.difficulty = expectedDifficulty pkg previousBlock newBlockCount
        newBlock.timestamp newestTimestamp := by
  rw [validateSequenceDifficulty_of_inputs h hsafe, Except.ok.injEq, beq_iff_eq]

/-- The miner's difficulty is the validator's, taken at the timestamp of the
block that triggered mining. -/
theorem templateDifficulty_eq (pkg : Packages) (currentTimestamp : Nat)
    (lastPreviousBlock : BcBlock) (triggerTimestamp newBlockCount : Nat) :
    templateDifficulty pkg currentTimestamp lastPreviousBlock triggerTimestamp
        newBlockCount =
      expectedDifficulty pkg lastPreviousBlock newBlockCount currentTimestamp
        triggerTimestamp := rfl

/-- A full list of headers has a newest one. -/
theorem exists_newest {headers : BlockchainHeaders} (h : headers.Nonempty) :
    ∃ newest ∈ headers.lists.flatten,
      ∀ other ∈ headers.lists.flatten, other.timestamp ≤ newest.timestamp := by
  have hne : headers.lists.flatten ≠ [] := by
    rw [BlockchainHeaders.lists_eq, List.flatten_cons]
    exact List.append_ne_nil_of_left_ne_nil (h .btc) _
  obtain ⟨newest, hnewest⟩ := exists_lastGreatest (·.timestamp) hne
  exact ⟨newest, hnewest.mem, fun other hother => hnewest.le hother⟩

/-- **Template difficulty.**  With a child block of every chain the validator
recomputes the template's difficulty exactly when no number it reads is too large for
`bn.js` and the block that triggered mining makes the same step as the newest header. -/
theorem template_difficulty_valid_iff {pkg : Packages} {currentTimestamp : Nat}
    {lastPreviousBlock : BcBlock} {newChildHeaders : List Block}
    {blockWhichTriggeredMining : Block} {newTransactions : List BcTransaction}
    {minerAddress : String} {unfinishedBlock : Option BcBlock} {newBlock : BcBlock}
    {finalTimestamp : Nat}
    (hchains : ∀ chain : Chain,
      ∃ header ∈ newChildHeaders, header.blockchain = chain.name)
    (h : prepareNewBlock pkg currentTimestamp lastPreviousBlock newChildHeaders
      blockWhichTriggeredMining newTransactions minerAddress unfinishedBlock =
        .ok (newBlock, finalTimestamp)) :
    ∃ lastHeaders headers newest,
      lastPreviousBlock.getBlockchainHeaders = .ok lastHeaders ∧
      newBlock.getBlockchainHeaders = .ok headers ∧
      newest ∈ headers.lists.flatten ∧
      (∀ other ∈ headers.lists.flatten, other.timestamp ≤ newest.timestamp) ∧
      (validateSequenceDifficulty pkg lastPreviousBlock
          { newBlock with timestamp := finalTimestamp } = .ok true ↔
        SafePair lastPreviousBlock { newBlock with timestamp := finalTimestamp } ∧
        SameStep (pkg.bn lastPreviousBlock.difficulty) MINIMUM_DIFFICULTY
          (stepFactor currentTimestamp lastPreviousBlock.timestamp
            (getNewBlockCount lastHeaders headers) blockWhichTriggeredMining.timestamp)
          (stepFactor currentTimestamp lastPreviousBlock.timestamp
            (getNewBlockCount lastHeaders headers) newest.timestamp)) := by
  obtain ⟨headers, lastHeaders, root, difficulty, hheaders, hlast, rfl, _, hnew, rfl⟩ :=
    prepareNewBlock_ok h
  have hfull := prepareHeaders_nonempty hheaders hchains
  have hcarried : newBlock.blockchainHeaders = some headers := by
    rw [hnew]
    rfl
  obtain ⟨newest, hmem, hnewest⟩ := exists_newest hfull
  refine ⟨lastHeaders, headers, newest, hlast, BcBlock.getBlockchainHeaders_some hcarried,
    hmem, hnewest, ?_⟩
  have hstep (hsafe : SafePair lastPreviousBlock
      { newBlock with timestamp := finalTimestamp }) :
      validateSequenceDifficulty pkg lastPreviousBlock
          { newBlock with timestamp := finalTimestamp } = .ok true ↔
        SameStep (pkg.bn lastPreviousBlock.difficulty) MINIMUM_DIFFICULTY
          (stepFactor finalTimestamp lastPreviousBlock.timestamp
            (getNewBlockCount lastHeaders headers) blockWhichTriggeredMining.timestamp)
          (stepFactor finalTimestamp lastPreviousBlock.timestamp
            (getNewBlockCount lastHeaders headers) newest.timestamp) := by
    obtain ⟨found, hfound, hgreatest, hverdict⟩ :=
      hsafe.validateSequenceDifficulty_eq pkg hlast hcarried hfull
    have hsame : found.timestamp = newest.timestamp :=
      Nat.le_antisymm (hnewest found hfound) (hgreatest newest hmem)
    rw [hverdict, hsame, Except.ok.injEq, beq_iff_eq, ← expectedDifficulty_eq_iff,
      ← templateDifficulty_eq, hnew]
    rfl
  constructor
  · intro hvalid
    have hsafe := SafePair.of_ok hvalid
    exact ⟨hsafe, (hstep hsafe).1 hvalid⟩
  · rintro ⟨hsafe, hsame⟩
    exact (hstep hsafe).2 hsame

theorem sampleChildren_chains (btcTimestamp timestamp height : Nat) (chain : Chain) :
    ∃ block ∈ sampleChildren btcTimestamp timestamp height,
      block.blockchain = chain.name := by
  refine ⟨sampleChild chain (if chain = .btc then btcTimestamp else timestamp) height,
    ?_, rfl⟩
  cases chain <;> simp [sampleChildren]

theorem template_difficulty_valid_iff_sample :
    ∃ lastHeaders headers newest,
      samplePrevious.getBlockchainHeaders = .ok lastHeaders ∧
      (sampleNewBlock 1000000 "299263803680982" "59207330").getBlockchainHeaders =
        .ok headers ∧
      newest ∈ headers.lists.flatten ∧
      (∀ other ∈ headers.lists.flatten, other.timestamp ≤ newest.timestamp) ∧
      (validateSequenceDifficulty samplePackages samplePrevious sampleTemplate = .ok true ↔
        SafePair samplePrevious sampleTemplate ∧
        SameStep (samplePackages.bn samplePrevious.difficulty) MINIMUM_DIFFICULTY
          (stepFactor 1000 samplePrevious.timestamp
            (getNewBlockCount lastHeaders headers) 1000000)
          (stepFactor 1000 samplePrevious.timestamp
            (getNewBlockCount lastHeaders headers) newest.timestamp)) :=
  @template_difficulty_valid_iff samplePackages 1000 samplePrevious
    (sampleChildren 1000000 1000000 11) (sampleChild .wav 1000000 11) [] "0xaa" none
    (sampleNewBlock 1000000 "299263803680982" "59207330") 1000
    (sampleChildren_chains 1000000 1000000 11) sampleNewBlock_prepared

/-- Mining triggered by a `btc` block 100 seconds older than the other headers:
the validator rejects the template's difficulty. -/
theorem stale_trigger_difficulty_rejected :
    (∀ chain : Chain, ∃ block ∈ sampleChildren 900000 1000000 11,
      block.blockchain = chain.name) ∧
    sampleChild .btc 900000 11 ∈ sampleChildren 900000 1000000 11 ∧
    prepareNewBlock samplePackages 1000 samplePrevious (sampleChildren 900000 1000000 11)
      (sampleChild .btc 900000 11) [] "0xaa" none =
        .ok (sampleNewBlock 900000 "300368098159509" "7503613", 1000) ∧
    validateSequenceDifficulty samplePackages samplePrevious
      { sampleNewBlock 900000 "300368098159509" "7503613" with timestamp := 1000 } =
        .ok false := by
  refine ⟨sampleChildren_chains 900000 1000000 11, List.mem_cons_self, ?_, ?_⟩
  · decide +kernel
  · decide +kernel

/-- Before the first tick past the template's timestamp the loop mines against
the template's own difficulty. -/
theorem mined_above_of_timestamp_eq {pkg : Packages} {data : WorkData} {tsStart : Nat}
    {ticks : List Tick} {r : Solution}
    (hmine : mineWork pkg data tsStart ticks = .ok (.solution r))
    (hts : r.timestamp = data.currentTimestamp) :
    pkg.bn data.difficulty < pkg.bn r.distance := by
  have hsolves := mine_solves hmine
  have habove := hsolves.above
  rw [hsolves.distance, Packages.bn_toString]
  rcases hsolves.calculated with ⟨_, hdiff⟩ | ⟨hlt, _⟩
  · rw [← hdiff]
    exact habove
  · omega

/-- Past the template's timestamp the calculator has taken the solution's. -/
theorem mined_safe {pkg : Packages} {data : WorkData} {tsStart : Nat} {ticks : List Tick}
    {r : Solution} (hmine : mineWork pkg data tsStart ticks = .ok (.solution r))
    (hsafe : Safe data.currentTimestamp) : Safe r.timestamp := by
  rcases (mine_solves hmine).calculated with ⟨hts, -⟩ | ⟨-, calculator, hcalculator, hdiff⟩
  · rw [hts]
    exact hsafe
  · cases hcalculator
    obtain ⟨_, -, hdiff⟩ := bind_ok.1 hdiff
    obtain ⟨_, hnumbers, -⟩ := bind_ok.1 hdiff
    exact (difficultyNumbers_ok.1 hnumbers).current

/-- **Mined difficulty.**  The completed block keeps the difficulty of the
template and takes the timestamp of the solution.  It meets its own rule
exactly when the clock never moved, or when the two timestamps make the same
step and the solution, found against a recalculated difficulty, also beats the
template's. -/
theorem completed_difficulty_valid_iff {pkg : Packages} {workId : String}
    {currentTimestamp : Nat} {lastPreviousBlock : BcBlock} {currentBlocks : List Block}
    {block : Block} {minerKey : String} {unfinishedBlock : Option BcBlock}
    {template : BcBlock} {data : WorkData} {tsStart : Nat} {ticks : List Tick}
    {r : Solution}
    (hprep : prepareTemplate pkg workId currentTimestamp lastPreviousBlock
      currentBlocks block minerKey unfinishedBlock = .ok (template, data))
    (hvalid : validateSequenceDifficulty pkg lastPreviousBlock template = .ok true)
    (hmine : mineWork pkg data tsStart ticks = .ok (.solution r)) :
    ∃ newBlockCount newestTimestamp,
      sequenceInputs lastPreviousBlock template = .ok (newBlockCount, newestTimestamp) ∧
      (validateSequenceDifficulty pkg lastPreviousBlock (completeTemplate pkg template r) =
            .ok true ∧
          isDistanceAboveDifficulty pkg (completeTemplate pkg template r) = true ↔
        r.timestamp = currentTimestamp ∨
          SameStep (pkg.bn lastPreviousBlock.difficulty) MINIMUM_DIFFICULTY
              (stepFactor currentTimestamp lastPreviousBlock.timestamp newBlockCount
                newestTimestamp)
              (stepFactor r.timestamp lastPreviousBlock.timestamp newBlockCount
                newestTimestamp) ∧
            pkg.bn template.difficulty < pkg.bn r.distance) := by
  obtain ⟨newBlockCount, newestTimestamp, hinputs, hsafe⟩ :=
    validateSequenceDifficulty_ok hvalid
  have hcompleted : sequenceInputs lastPreviousBlock (completeTemplate pkg template r) =
      .ok (newBlockCount, newestTimestamp) :=
    (sequenceInputs_congr rfl).trans hinputs
  obtain ⟨_, _, _, _, _, _, _, _, htemplate, hdata⟩ := prepareTemplate_ok hprep
  have hts : template.timestamp = currentTimestamp := by rw [htemplate]
  have hdiff : data.difficulty = template.difficulty := by rw [htemplate, hdata]; rfl
  have hnow : data.currentTimestamp = currentTimestamp := by rw [hdata]
  have hmined : SafeDifficulty r.timestamp lastPreviousBlock.timestamp newestTimestamp
      lastPreviousBlock.height :=
    { hsafe with current := mined_safe hmine (by rw [hnow, ← hts]; exact hsafe.current) }
  have hbeats : isDistanceAboveDifficulty pkg (completeTemplate pkg template r) = true ↔
      pkg.bn template.difficulty < pkg.bn r.distance := by
    simp only [isDistanceAboveDifficulty, completeTemplate, gt_iff_lt, decide_eq_true_eq]
  have hstep : validateSequenceDifficulty pkg lastPreviousBlock
        (completeTemplate pkg template r) = .ok true ↔
      SameStep (pkg.bn lastPreviousBlock.difficulty) MINIMUM_DIFFICULTY
        (stepFactor currentTimestamp lastPreviousBlock.timestamp newBlockCount
          newestTimestamp)
        (stepFactor r.timestamp lastPreviousBlock.timestamp newBlockCount
          newestTimestamp) := by
    rw [validateSequenceDifficulty_iff hcompleted hmined, ← expectedDifficulty_eq_iff,
      ← hts, ← (validateSequenceDifficulty_iff hinputs hsafe).1 hvalid]
    rfl
  refine ⟨newBlockCount, newestTimestamp, hinputs, ?_⟩
  rw [hbeats, hstep]
  constructor
  · intro hboth
    exact Or.inr hboth
  · rintro (hsame | hboth)
    · rw [hsame]
      rw [← hnow] at hsame
      exact ⟨Or.inl rfl, hdiff ▸ mined_above_of_timestamp_eq hmine hsame⟩
    · exact hboth

theorem completed_difficulty_valid_iff_sample :
    ∃ newBlockCount newestTimestamp,
      sequenceInputs samplePrevious sampleTemplate =
        .ok (newBlockCount, newestTimestamp) ∧
      (validateSequenceDifficulty samplePackages samplePrevious
            (completeTemplate samplePackages sampleTemplate sampleSolution) = .ok true ∧
          isDistanceAboveDifficulty samplePackages
            (completeTemplate samplePackages sampleTemplate sampleSolution) = true ↔
        sampleSolution.timestamp = 1000 ∨
          SameStep (samplePackages.bn samplePrevious.difficulty) MINIMUM_DIFFICULTY
              (stepFactor 1000 samplePrevious.timestamp newBlockCount newestTimestamp)
              (stepFactor sampleSolution.timestamp samplePrevious.timestamp newBlockCount
                newestTimestamp) ∧
            samplePackages.bn sampleTemplate.difficulty <
              samplePackages.bn sampleSolution.distance) :=
  completed_difficulty_valid_iff sampleTemplate_prepared (by decide +kernel)
    sampleSolution_mined

/-- Twenty seconds of mining: the template's difficulty was right for its own
timestamp, is wrong for the solution's, and the solution does not beat it. -/
theorem ticked_solution_rejected :
    prepareTemplate samplePackages "w" 1000 samplePrevious
        (sampleChildren 1000000 1000000 11) (sampleChild .wav 1000000 11) "0xaa" none =
      .ok (sampleTemplate, sampleWork) ∧
    validateSequenceDifficulty samplePackages samplePrevious sampleTemplate = .ok true ∧
    mineWork samplePackages sampleWork 1000000 sampleTicks =
      .ok (.solution sampleSolution) ∧
    validateSequenceDifficulty samplePackages samplePrevious
      (completeTemplate samplePackages sampleTemplate sampleSolution) = .ok false ∧
    isDistanceAboveDifficulty samplePackages
      (completeTemplate samplePackages sampleTemplate sampleSolution) = false := by
  refine ⟨sampleTemplate_prepared, ?_, sampleSolution_mined, ?_, ?_⟩
  · decide +kernel
  · decide +kernel
  · decide +kernel

end BcNode.Mining
