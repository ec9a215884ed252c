import BcNode.Js.Objects
import BcNode.Mining.Primitives
import BcNode.Verified.Double
import BcNode.Verified.Greatest

/-!
# Block validation

`bc/validation`: what makes a block valid by itself, and what makes it valid
next to its previous block.

A header list that is empty where the source expects an element shows up as a
read of a property of `undefined`, and a number that is not `Safe` as an assertion
of `bn.js`, so most checks can throw; they return `Except JsError Bool`.  The
logging calls are left out.
-/

namespace BcNode.Bc

open BcNode.Verified BcNode.Js BcNode.Protos BcNode.Mining

/-! ## Newest header and child heights -/

/-- `headers.sort((a, b) => ...).pop()` by timestamp; `none` is `undefined`. -/
def newestOfList (headers : List BlockchainHeader) :
    Except JsError (Option BlockchainHeader) :=
  (sortBN (·.timestamp) headers).map (·.getLast?)

/-- The accumulator of `getNewestHeader`: `false` (`missing`), `undefined` or a header. -/
inductive Newest where
  | missing
  | undefined
  | found (header : BlockchainHeader)
  deriving DecidableEq, Repr

/-- `newest.timestamp < header.timestamp`, each read through `new BN`. -/
def newerHeader (newest : BlockchainHeader) :
    Option BlockchainHeader → Except JsError BlockchainHeader
  | none => do
      let _ ← newBN newest.timestamp
      throw .typeError
  | some header => do
      let newestTimestamp ← newBN newest.timestamp
      let timestamp ← newBN header.timestamp
      return if newestTimestamp < timestamp then header else newest

/-- One turn of the `reduce` in `getNewestHeader`. -/
def newestStep (newest : Newest) (headers : List BlockchainHeader) :
    Except JsError Newest := do
  let header ← newestOfList headers
  match newest, header with
  | .missing, some header => return .found header
  | .missing, none => return .undefined
  | .undefined, _ => throw .typeError
  | .found newest, header => (newerHeader newest header).map .found

/-- `getNewestHeader`. -/
def getNewestHeader (newBlock : BcBlock) : Except JsError Newest := do
  let headers ← newBlock.getBlockchainHeaders
  headers.lists.foldlM newestStep .missing

/-- A property read on what `getNewestHeader` returned. -/
def Newest.deref : Newest → Except JsError BlockchainHeader
  | .found header => .ok header
  | _ => .error .typeError

/-- `headers.sort((a, b) => ...).pop()` by height. -/
def highestOfList (headers : List BlockchainHeader) : Option BlockchainHeader :=
  (sortAscending (·.height) headers).getLast?

/-- One turn of the `reduce` in `childrenHighestBlock`. -/
def highestStep (all : Obj BlockchainHeader) (headers : List BlockchainHeader) :
    Except JsError (Obj BlockchainHeader) :=
  match highestOfList headers with
  | some top => .ok (all.assign top.blockchain top)
  | none => .error .typeError

/-- `childrenHighestBlock`: the top header of each list, under its own label. -/
def childrenHighestBlock (block : BcBlock) : Except JsError (List BlockchainHeader) := do
  let headers ← block.getBlockchainHeaders
  let highest ← headers.lists.foldlM highestStep []
  return highest.listed

/-- `childrenHeightSum`: plain numbers are added, in the order of the labels. -/
def childrenHeightSum (block : BcBlock) : Except JsError Nat := do
  let highest ← childrenHighestBlock block
  return Double.sum (highest.map (·.height))

/-! ## One block by itself -/

/-- `DF_CONFIG[label].dfBound * 1000`, as `new BN` takes it.  A label that is no
chain but that every object answers to gives `NaN`, which `new BN` reads as
zero. -/
def dfBoundMs : String → Except JsError Nat
  | "btc" | "eth" | "lsk" => .ok 0
  | "wav" => .ok (300 * 1000)
  | "neo" => .ok (180 * 1000)
  | label => if objectPrototypeKeys.contains label then .ok 0 else .error .typeError

/-- `isValidChildAge`. -/
def isValidChildAge (newBlock : BcBlock) : Except JsError Bool := do
  match ← getNewestHeader newBlock with
  | .missing => return false
  | newest =>
      let bcBlockTimestamp ← toNumber ((← newBN newBlock.timestamp) * 1000)
      let newestHeader ← newest.deref
      let newestHeaderDFBound ← dfBoundMs newestHeader.blockchain
      let newestHeaderTimestamp ←
        toNumber ((← newBN newestHeader.timestamp) + newestHeaderDFBound)
      let upperTimestampLimit ← toNumber (newestHeaderTimestamp + 38 * 1000)
      let lowerTimestampLimit ← toNumber (newestHeaderTimestamp - 12 * 1000)
      if bcBlockTimestamp > upperTimestampLimit then return false
      if bcBlockTimestamp < lowerTimestampLimit then return false
      return true

/-- `numberOfBlockchainsNeededMatchesChildBlock`.  The escape for the genesis
block compares the height with the genesis hash and is never taken. -/
def numberOfBlockchainsNeededMatchesChildBlock (newBlock : BcBlock) :
    Except JsError Bool :=
  if numberIsString newBlock.height Genesis.hash && newBlock.height == 1 then
    return true
  else do
    let headers ← newBlock.getBlockchainHeaders
    let headerValuesWithLengthGtZero := headers.lists.filter fun list => list.length > 0
    return headerValuesWithLengthGtZero.length == Genesis.childBlockchainCount

/-- One chain's condition in `ifMoreThanOneHeaderPerBlockchainAreTheyOrdered`. -/
def headersOrdered (chainHeaders : List BlockchainHeader) : Bool :=
  if chainHeaders.length = 1 then true
  else (aperture2 chainHeaders).all fun pair => pair.1.height < pair.2.height

/-- `ifMoreThanOneHeaderPerBlockchainAreTheyOrdered`. -/
def ifMoreThanOneHeaderPerBlockchainAreTheyOrdered (newBlock : BcBlock) :
    Except JsError Bool := do
  let headers ← newBlock.getBlockchainHeaders
  return headers.lists.all headersOrdered

/-- `isChainRootCorrectlyCalculated`. -/
def isChainRootCorrectlyCalculated (pkg : Packages) (newBlock : BcBlock) :
    Except JsError Bool := do
  let headers ← newBlock.getBlockchainHeaders
  let expectedBlockHashes := getChildrenBlocksHashes pkg (blockchainMapToList headers)
  let expectedChainRoot :=
    pkg.blake2bl (toString (getChildrenRootHash expectedBlockHashes))
  return newBlock.chainRoot == expectedChainRoot

/-- `isFieldLengthBounded`.  Its `reduce` looks each key up in the accumulator,
a boolean that has no such property, instead of in the block. -/
def isFieldLengthBounded (_newBlock : BcBlock) : Bool :=
  let lengthOf (_all : Bool) (_key : String) : Option Nat := none
  BcBlock.keys.foldl (fun all k =>
    if (lengthOf all k).any (· > 128) then false else all) true

/-- `isMerkleRootCorrectlyCalculated`. -/
def isMerkleRootCorrectlyCalculated (pkg : Packages) (newBlock : BcBlock) :
    Except JsError Bool := do
  let headers ← newBlock.getBlockchainHeaders
  let blockHashes := getChildrenBlocksHashes pkg (blockchainMapToList headers)
  let expectedMerkleRoot ← createMerkleRoot pkg (merkleItems blockHashes
    newBlock.txsList newBlock.difficulty newBlock.miner newBlock.height
    newBlock.version newBlock.schemaVersion newBlock.nrgGrant) none
  return some newBlock.merkleRoot == expectedMerkleRoot

/-- `isDistanceAboveDifficulty`. -/
def isDistanceAboveDifficulty (pkg : Packages) (newBlock : BcBlock) : Bool :=
  pkg.bn newBlock.distance > pkg.bn newBlock.difficulty

/-- `isDistanceCorrectlyCalculated`. -/
def isDistanceCorrectlyCalculated (pkg : Packages) (newBlock : BcBlock) :
    Except JsError Bool := do
  let headers ← newBlock.getBlockchainHeaders
  let expectedWork := prepareWork pkg newBlock.previousHash headers
  let expectedDistance := toString (pkg.distance expectedWork
    (proofText pkg newBlock.miner newBlock.merkleRoot newBlock.nonce newBlock.timestamp))
  return newBlock.distance == expectedDistance

/-- Blocks below this height are valid unseen. -/
def UNCHECKED_HEIGHT : Nat := 151500

/-- `isValidBlock`; its `type` selects a check that is commented out. -/
def isValidBlock (pkg : Packages) (newBlock : BcBlock) : Except JsError Bool := do
  let height ← newBN newBlock.height
  if height < UNCHECKED_HEIGHT then return true
  if !(← numberOfBlockchainsNeededMatchesChildBlock newBlock) then return false
  if !(← ifMoreThanOneHeaderPerBlockchainAreTheyOrdered newBlock) then return false
  if !(← isChainRootCorrectlyCalculated pkg newBlock) then return false
  if !isFieldLengthBounded newBlock then return false
  if !(← isMerkleRootCorrectlyCalculated pkg newBlock) then return false
  if !(← isValidChildAge newBlock) then return false
  if !isDistanceAboveDifficulty pkg newBlock then return false
  if !(← isDistanceCorrectlyCalculated pkg newBlock) then return false
  return true

/-! ## Two blocks in sequence -/

/-- `validateSequenceTotalDistance`. -/
def validateSequenceTotalDistance (pkg : Packages) (previousBlock newBlock : BcBlock) :
    Bool :=
  let chainWeight := chainWeightOf pkg previousBlock
  let finalDistance := toString (pkg.bn previousBlock.totalDistance +
    pkg.bn chainWeight + pkg.bn newBlock.difficulty)
  if previousBlock.difficulty == "" || pkg.ltOne previousBlock.difficulty then true
  else finalDistance == newBlock.totalDistance

/-- The difficulty the validator computes for a block at `timestamp`. -/
def expectedDifficulty (pkg : Packages) (previousBlock : BcBlock)
    (newBlockCount timestamp newestTimestamp : Nat) : String :=
  let preExpDiff := getDiff pkg timestamp previousBlock.timestamp
    previousBlock.difficulty MINIMUM_DIFFICULTY newBlockCount newestTimestamp
  toString (getExpFactorDiff preExpDiff previousBlock.height)

/-- What `validateSequenceDifficulty` reads off the header lists: the number of
new child blocks and the timestamp of the newest header. -/
def sequenceInputs (previousBlock newBlock : BcBlock) : Except JsError (Nat × Nat) := do
  let previousHeaders ← previousBlock.getBlockchainHeaders
  let newHeaders ← newBlock.getBlockchainHeaders
  let newBlockCount := getNewBlockCount previousHeaders newHeaders
  let newest ← getNewestHeader newBlock
  let newestHeader ← newest.deref
  return (newBlockCount, newestHeader.timestamp)

/-- `validateSequenceDifficulty`. -/
def validateSequenceDifficulty (pkg : Packages) (previousBlock newBlock : BcBlock) :
    Except JsError Bool := do
  let (newBlockCount, newestTimestamp) ← sequenceInputs previousBlock newBlock
  difficultyNumbers newBlock.timestamp previousBlock.timestamp newestTimestamp
    previousBlock.height
  return newBlock.difficulty == expectedDifficulty pkg previousBlock newBlockCount
    newBlock.timestamp newestTimestamp

/-- `blockchainHeadersAreChain`.  The hash links it goes on to compare only
reach the log. -/
def blockchainHeadersAreChain (childHeaderList parentHeaderList : List BlockchainHeader) :
    Bool :=
  childHeaderList.head?.isSome && parentHeaderList.getLast?.isSome

/-- `validateChildHeadersSequence`. -/
def validateChildHeadersSequence (childBlock parentBlock : BcBlock) :
    Except JsError (List Bool) := do
  let childHeaders ← childBlock.getBlockchainHeaders
  let parentHeaders ← parentBlock.getBlockchainHeaders
  return Chain.all.map fun chain =>
    blockchainHeadersAreChain (childHeaders.get chain) (parentHeaders.get chain)

/-- The condition on one pair in `validateRoveredSequences` and
`validateBlockSequence`. -/
def roveredPair (child parent : BcBlock) : Except JsError (List Bool) :=
  if parent.height = Genesis.height then return [true]
  else validateChildHeadersSequence child parent

/-- `validateRoveredSequences`. -/
def validateRoveredSequences (blocks : List BcBlock) : Except JsError Bool := do
  let sortedBlocks := sortDescending (·.height) blocks
  let checks ← (aperture2 sortedBlocks).mapM fun pair => roveredPair pair.1 pair.2
  return checks.flatten.all id

/-- `validateBlockSequence`.  The difficulties and the rovered headers are
evaluated, so that they can throw, and then not looked at. -/
def validateBlockSequence (pkg : Packages) (blocks : List BcBlock) :
    Except JsError Bool := do
  let sortedBlocks := sortDescending (·.height) blocks
  let sortedBlocksTopDown := sortAscending (·.height) blocks
  let validPairs := (aperture2 sortedBlocks).map fun pair =>
    pair.1.previousHash == pair.2.hash
  if !validPairs.all id then return false
  let _validDifficulties ← (aperture2 sortedBlocksTopDown).mapM fun pair =>
    validateSequenceDifficulty pkg pair.1 pair.2
  let _validPairSubchains ← (aperture2 sortedBlocks).mapM fun pair =>
    roveredPair pair.1 pair.2
  return true

/-! ## What the validator reads off full header lists -/

/-- No header of the block is newer than `bn.js` can tell. -/
def SafeTimestamps (headers : List BlockchainHeader) : Prop :=
  ∀ header ∈ headers, Safe header.timestamp

instance (headers : List BlockchainHeader) : Decidable (SafeTimestamps headers) :=
  inferInstanceAs (Decidable (∀ _ ∈ _, _))

theorem newestOfList_safe {headers : List BlockchainHeader} (hsafe : SafeTimestamps headers)
    {top : BlockchainHeader} (h : LastGreatest (·.timestamp) headers top) :
    newestOfList headers = .ok (some top) := by
  rw [newestOfList, sortBN_safe hsafe, ← getLast?_insertionSort_iff.2 h]
  rfl

/-- A list with a header has a top. -/
theorem exists_lastGreatest (key : BlockchainHeader → Nat)
    {headers : List BlockchainHeader} (h : headers ≠ []) :
    ∃ top, LastGreatest key headers top := by
  obtain ⟨top, -, htop⟩ := getLast?_sortAscending_isSome key h
  exact ⟨top, getLast?_insertionSort_iff.1 htop⟩

/-- What one list does to a header found before. -/
theorem newestStep_found_eq {newest top : BlockchainHeader}
    {headers : List BlockchainHeader} (hsafe : SafeTimestamps (newest :: headers))
    (h : LastGreatest (·.timestamp) headers top) :
    newestStep (.found newest) headers =
      .ok (.found (if newest.timestamp < top.timestamp then top else newest)) := by
  obtain ⟨hnewest, hheaders⟩ := List.forall_mem_cons.1 hsafe
  have htop := newestOfList_safe hheaders h
  have hcompare : newerHeader newest (some top) =
      .ok (if newest.timestamp < top.timestamp then top else newest) := by
    rw [newerHeader, newBN_safe hnewest, newBN_safe (hheaders top h.mem)]
    simp only [bind, Except.bind, pure, Except.pure, Int.ofNat_lt]
  simp only [newestStep, htop, bind, Except.bind, hcompare]
  rfl

/-- Past one list the header is at least as new as before and as anything in it. -/
theorem newestStep_found_newest {newest : BlockchainHeader}
    {headers : List BlockchainHeader} (hsafe : SafeTimestamps (newest :: headers))
    (h : headers ≠ []) :
    ∃ next, newestStep (.found newest) headers = .ok (.found next) ∧
      next ∈ newest :: headers ∧
      ∀ other ∈ newest :: headers, other.timestamp ≤ next.timestamp := by
  obtain ⟨top, htop⟩ := exists_lastGreatest (·.timestamp) h
  refine ⟨_, newestStep_found_eq hsafe htop, ?_⟩
  have hle (other : BlockchainHeader) (hother : other ∈ headers) :
      other.timestamp ≤ top.timestamp := htop.le hother
  split
  · next hlt =>
      refine ⟨List.mem_cons_of_mem _ htop.mem, List.forall_mem_cons.2 ⟨?_, hle⟩⟩
      exact Nat.le_of_lt hlt
  · next hge =>
      refine ⟨List.mem_cons_self, List.forall_mem_cons.2 ⟨Nat.le_refl _, ?_⟩⟩
      exact fun other hother => Nat.le_trans (hle other hother) (Nat.le_of_not_lt hge)

/-- Past all lists it is at least as new as anything in any of them. -/
theorem foldlM_newestStep_newest {lists : List (List BlockchainHeader)}
    (h : ∀ headers ∈ lists, headers ≠ []) (newest : BlockchainHeader)
    (hsafe : SafeTimestamps (newest :: lists.flatten)) :
    ∃ header, lists.foldlM newestStep (.found newest) = .ok (.found header) ∧
      header ∈ newest :: lists.flatten ∧
      ∀ other ∈ newest :: lists.flatten, other.timestamp ≤ header.timestamp := by
  induction lists generalizing newest with
  | nil =>
      refine ⟨newest, rfl, List.mem_cons_self, fun other hother => ?_⟩
      rw [List.mem_singleton.1 hother]
  | cons headers lists ih =>
      have hsplit : newest :: (headers :: lists).flatten =
          (newest :: headers) ++ lists.flatten := by
        rw [List.flatten_cons, List.cons_append]
      rw [hsplit] at hsafe ⊢
      obtain ⟨next, hstep, hmem, hnext⟩ := newestStep_found_newest
        (fun other hother => hsafe other (List.mem_append_left _ hother))
        (h headers List.mem_cons_self)
      have hall : (next :: lists.flatten) ⊆ (newest :: headers) ++ lists.flatten :=
        List.cons_subset.2 ⟨List.mem_append_left _ hmem, List.subset_append_right ..⟩
      obtain ⟨header, hrun, hheader, hnewest⟩ :=
        ih (fun l hl => h l (List.mem_cons_of_mem _ hl)) next
          fun other hother => hsafe other (hall hother)
      refine ⟨header, foldlM_cons_ok.2 ⟨_, hstep, hrun⟩, hall hheader, ?_⟩
      intro other hother
      rcases List.mem_append.1 hother with hother | hother
      · exact Nat.le_trans (hnext other hother) (hnewest next List.mem_cons_self)
      · exact hnewest other (List.mem_cons_of_mem _ hother)

/-- The first list puts its newest header in the place of `false`. -/
theorem newestStep_missing {headers : List BlockchainHeader}
    (hsafe : SafeTimestamps headers) (h : headers ≠ []) :
    ∃ top, newestStep .missing headers = .ok (.found top) ∧
      LastGreatest (·.timestamp) headers top := by
  obtain ⟨top, htop⟩ := exists_lastGreatest (·.timestamp) h
  refine ⟨top, ?_, htop⟩
  rw [newestStep, newestOfList_safe hsafe htop]
  rfl

theorem lists_ne_nil {headers : BlockchainHeaders} (h : headers.Nonempty) :
    ∀ list ∈ headers.lists, list ≠ [] := by
  intro list hlist
  obtain ⟨chain, _, rfl⟩ := List.mem_map.1 hlist
  exact h chain

theorem numberOfBlockchainsNeededMatchesChildBlock_of_nonempty {block : BcBlock}
    {headers : BlockchainHeaders} (hblock : block.blockchainHeaders = some headers)
    (h : headers.Nonempty) :
    numberOfBlockchainsNeededMatchesChildBlock block = .ok true := by
  have hall : headers.lists.filter (fun list => list.length > 0) = headers.lists :=
    List.filter_eq_self.2 fun list hlist =>
      decide_eq_true (List.length_pos_iff.2 (lists_ne_nil h list hlist))
  unfold numberOfBlockchainsNeededMatchesChildBlock
  split
  · rfl
  · rw [BcBlock.getBlockchainHeaders_some hblock]
    simp only [bind, Except.bind, hall]
    rfl

theorem headersOrdered_of_pairwise {chainHeaders : List BlockchainHeader}
    (h : chainHeaders.Pairwise (·.height < ·.height)) : headersOrdered chainHeaders := by
  have hpairs := (aperture2_all_iff (fun a b => decide (a.height < b.height)) _).2
    (h.isChain.imp fun _ _ => decide_eq_true)
  rw [headersOrdered, hpairs, ite_self]

theorem ifMoreThanOneHeaderPerBlockchainAreTheyOrdered_of_pairwise {block : BcBlock}
    {headers : BlockchainHeaders} (hblock : block.blockchainHeaders = some headers)
    (h : ∀ chain, (headers.get chain).Pairwise (·.height < ·.height)) :
    ifMoreThanOneHeaderPerBlockchainAreTheyOrdered block = .ok true := by
  have hall : headers.lists.all headersOrdered := by
    refine List.all_eq_true.2 fun list hlist => ?_
    obtain ⟨chain, -, rfl⟩ := List.mem_map.1 hlist
    exact headersOrdered_of_pairwise (h chain)
  rw [ifMoreThanOneHeaderPerBlockchainAreTheyOrdered,
    BcBlock.getBlockchainHeaders_some hblock]
  simp only [bind, Except.bind, hall]
  rfl

/-- With at least one header in every list, and none too new, the newest of all headers
is found. -/
theorem getNewestHeader_newest {block : BcBlock} {headers : BlockchainHeaders}
    (hblock : block.blockchainHeaders = some headers) (h : headers.Nonempty)
    (hsafe : SafeTimestamps headers.lists.flatten) :
    ∃ header, getNewestHeader block = .ok (.found header) ∧
      header ∈ headers.lists.flatten ∧
      ∀ other ∈ headers.lists.flatten, other.timestamp ≤ header.timestamp := by
  have hlists := lists_ne_nil h
  rw [BlockchainHeaders.lists_eq] at hlists hsafe ⊢
  rw [List.flatten_cons] at hsafe ⊢
  obtain ⟨hbtc, hothers⟩ := List.forall_mem_cons.1 hlists
  obtain ⟨top, hfirst, htop⟩ := newestStep_missing
    (fun other hother => hsafe other (List.mem_append_left _ hother)) hbtc
  obtain ⟨header, hrun, hheader, hnewest⟩ := foldlM_newestStep_newest hothers top
    (List.forall_mem_cons.2 ⟨hsafe top (List.mem_append_left _ htop.mem),
      fun other hother => hsafe other (List.mem_append_right _ hother)⟩)
  refine ⟨header, ?_, ?_, fun other hother => ?_⟩
  · rw [getNewestHeader, BcBlock.getBlockchainHeaders_some hblock]
    simp only [bind, Except.bind, BlockchainHeaders.lists_eq]
    exact foldlM_cons_ok.2 ⟨_, hfirst, hrun⟩
  · rcases List.mem_cons.1 hheader with rfl | hheader
    · exact List.mem_append_left _ htop.mem
    · exact List.mem_append_right _ hheader
  · rcases List.mem_append.1 hother with hother | hother
    · exact Nat.le_trans (htop.le hother) (hnewest top List.mem_cons_self)
    · exact hnewest other (List.mem_cons_of_mem _ hother)

/-- `undefined.timestamp`, whatever the list. -/
theorem newestStep_undefined (headers : List BlockchainHeader) (result : Newest) :
    newestStep .undefined headers ≠ .ok result := by
  intro h
  obtain ⟨header, -, h⟩ := bind_ok.1 h
  cases h

theorem newestOfList_ok {headers : List BlockchainHeader} {header : Option BlockchainHeader}
    (h : newestOfList headers = .ok header) :
    (headers.length < 2 ∨ SafeTimestamps headers) ∧
      header = (sortAscending (·.timestamp) headers).getLast? := by
  unfold newestOfList at h
  cases hsorted : sortBN (·.timestamp) headers with
  | error e => rw [hsorted] at h; cases h
  | ok sorted =>
      obtain ⟨hsafe, rfl⟩ := sortBN_ok.1 hsorted
      rw [hsorted] at h
      exact ⟨hsafe, (Except.ok.inj h).symm⟩

theorem newerHeader_ok {newest header : BlockchainHeader}
    {popped : Option BlockchainHeader} (h : newerHeader newest popped = .ok header) :
    ∃ top, popped = some top ∧ Safe newest.timestamp ∧ Safe top.timestamp := by
  cases popped with
  | none =>
      obtain ⟨_, -, h⟩ := bind_ok.1 h
      cases h
  | some top =>
      obtain ⟨_, hnewest, h⟩ := bind_ok.1 h
      obtain ⟨_, htop, -⟩ := bind_ok.1 h
      exact ⟨top, rfl, (newBN_ok.1 hnewest).1, (newBN_ok.1 htop).1⟩

/-- A list that is not compared within has at most the element it pops. -/
theorem safeTimestamps_of_popped {headers : List BlockchainHeader} {top : BlockchainHeader}
    (hsafe : headers.length < 2 ∨ SafeTimestamps headers)
    (htop : (sortAscending (·.timestamp) headers).getLast? = some top)
    (h : Safe top.timestamp) : SafeTimestamps headers := by
  rcases hsafe with hlength | hsafe
  · match headers, hlength with
    | [], _ => exact List.forall_mem_nil _
    | [header], _ =>
        cases htop
        exact List.forall_mem_singleton.2 h
  · exact hsafe

/-- A step from a header that returns has met no empty list and no timestamp too large. -/
theorem newestStep_found_ok {newest : BlockchainHeader} {headers : List BlockchainHeader}
    {result : Newest} (h : newestStep (.found newest) headers = .ok result) :
    headers ≠ [] ∧ SafeTimestamps (newest :: headers) := by
  obtain ⟨popped, hpopped, h⟩ := bind_ok.1 h
  obtain ⟨hsafe, rfl⟩ := newestOfList_ok hpopped
  cases hnewer : newerHeader newest (sortAscending (·.timestamp) headers).getLast? with
  | error e =>
      simp only [hnewer] at h
      cases h
  | ok header =>
      obtain ⟨top, htop, hnewest, hpop⟩ := newerHeader_ok hnewer
      refine ⟨?_, List.forall_mem_cons.2 ⟨hnewest, safeTimestamps_of_popped hsafe htop hpop⟩⟩
      rintro rfl
      cases htop

/-- Neither has a run from a header. -/
theorem foldlM_newestStep_ok {lists : List (List BlockchainHeader)}
    {newest : BlockchainHeader} {result : Newest} :
    lists.foldlM newestStep (.found newest) = .ok result →
      (∀ headers ∈ lists, headers ≠ []) ∧ SafeTimestamps lists.flatten := by
  induction lists generalizing newest with
  | nil => exact fun _ => ⟨List.forall_mem_nil _, List.forall_mem_nil _⟩
  | cons first lists ih =>
      intro h
      obtain ⟨next, hstep, hrun⟩ := foldlM_cons_ok.1 h
      obtain ⟨hfirst, hsafe⟩ := newestStep_found_ok hstep
      obtain ⟨found, hfound, -⟩ := newestStep_found_newest hsafe hfirst
      obtain rfl := Except.ok.inj (hfound.symm.trans hstep)
      obtain ⟨hlists, hrest⟩ := ih hrun
      refine ⟨List.forall_mem_cons.2 ⟨hfirst, hlists⟩, ?_⟩
      rw [List.flatten_cons]
      exact List.forall_mem_append.2 ⟨(List.forall_mem_cons.1 hsafe).2, hrest⟩

/-- An empty list anywhere makes the run throw, and so does a timestamp too large. -/
theorem of_getNewestHeader_ok {newBlock : BcBlock} {result : Newest}
    (h : getNewestHeader newBlock = .ok result) :
    ∃ headers, newBlock.blockchainHeaders = some headers ∧ headers.Nonempty ∧
      SafeTimestamps headers.lists.flatten := by
  rw [getNewestHeader] at h
  obtain ⟨headers, hheaders, h⟩ := bind_ok.1 h
  rw [BlockchainHeaders.lists_eq] at h
  obtain ⟨first, hfirst, hrest⟩ := foldlM_cons_ok.1 h
  obtain ⟨second, hsecond, -⟩ := foldlM_cons_ok.1 hrest
  obtain ⟨popped, hpopped, hfirst⟩ := bind_ok.1 hfirst
  obtain ⟨hcompared, hpop⟩ := newestOfList_ok hpopped
  cases popped with
  | none =>
      -- The popped `undefined` is kept, and the next list reads its timestamp.
      cases hfirst
      exact absurd hsecond (newestStep_undefined _ _)
  | some top =>
      cases hfirst
      obtain ⟨-, hnext⟩ := newestStep_found_ok hsecond
      obtain ⟨hothers, hsafe⟩ := foldlM_newestStep_ok hrest
      have hbtc : headers.btcList ≠ [] := by
        intro hnil
        rw [hnil] at hpop
        cases hpop
      have hfirst := safeTimestamps_of_popped hcompared hpop.symm
        (List.forall_mem_cons.1 hnext).1
      refine ⟨headers, BcBlock.getBlockchainHeaders_ok.1 hheaders, fun chain => ?_, ?_⟩
      · have hmem : headers.get chain ∈ headers.lists :=
          List.mem_map_of_mem chain.mem_all
        rw [BlockchainHeaders.lists_eq] at hmem
        rcases List.mem_cons.1 hmem with hmem | hmem
        · exact hmem ▸ hbtc
        · exact hothers _ hmem
      · rw [BlockchainHeaders.lists_eq, List.flatten_cons]
        exact List.forall_mem_append.2 ⟨hfirst, hsafe⟩

/-- What the difficulty check reads off full header lists. -/
theorem sequenceInputs_ok {previousBlock newBlock : BcBlock}
    {previousHeaders headers : BlockchainHeaders}
    (hprev : previousBlock.getBlockchainHeaders = .ok previousHeaders)
    (hblock : newBlock.blockchainHeaders = some headers) (h : headers.Nonempty)
    (hsafe : SafeTimestamps headers.lists.flatten) :
    ∃ newest ∈ headers.lists.flatten,
      (∀ other ∈ headers.lists.flatten, other.timestamp ≤ newest.timestamp) ∧
      sequenceInputs previousBlock newBlock =
        .ok (getNewBlockCount previousHeaders headers, newest.timestamp) := by
  obtain ⟨header, hheader, hmem, hnewest⟩ := getNewestHeader_newest hblock h hsafe
  refine ⟨header, hmem, hnewest, ?_⟩
  rw [sequenceInputs, hprev, BcBlock.getBlockchainHeaders_some hblock]
  simp only [bind, Except.bind, hheader, Newest.deref]
  rfl

/-- Only the header lists enter `sequenceInputs`. -/
theorem sequenceInputs_congr {previousBlock newBlock newBlock' : BcBlock}
    (h : newBlock.blockchainHeaders = newBlock'.blockchainHeaders) :
    sequenceInputs previousBlock newBlock = sequenceInputs previousBlock newBlock' := by
  simp only [sequenceInputs, getNewestHeader, BcBlock.getBlockchainHeaders, h]

theorem validateSequenceDifficulty_of_inputs {pkg : Packages}
    {previousBlock newBlock : BcBlock} {newBlockCount newestTimestamp : Nat}
    (h : sequenceInputs previousBlock newBlock = .ok (newBlockCount, newestTimestamp))
    (hsafe : SafeDifficulty newBlock.timestamp previousBlock.timestamp newestTimestamp
      previousBlock.height) :
    validateSequenceDifficulty pkg previousBlock newBlock =
      .ok (newBlock.difficulty == expectedDifficulty pkg previousBlock newBlockCount
        newBlock.timestamp newestTimestamp) := by
  rw [validateSequenceDifficulty, h]
  simp only [bind, Except.bind, difficultyNumbers_ok.2 hsafe]
  rfl

/-- A difficulty check that returns has read its inputs, and its numbers were safe. -/
theorem validateSequenceDifficulty_ok {pkg : Packages} {previousBlock newBlock : BcBlock}
    {verdict : Bool}
    (h : validateSequenceDifficulty pkg previousBlock newBlock = .ok verdict) :
    ∃ newBlockCount newestTimestamp,
      sequenceInputs previousBlock newBlock = .ok (newBlockCount, newestTimestamp) ∧
      SafeDifficulty newBlock.timestamp previousBlock.timestamp newestTimestamp
        previousBlock.height := by
  obtain ⟨⟨newBlockCount, newestTimestamp⟩, hinputs, h⟩ := bind_ok.1 h
  obtain ⟨_, hnumbers, -⟩ := bind_ok.1 h
  exact ⟨newBlockCount, newestTimestamp, hinputs, difficultyNumbers_ok.1 hnumbers⟩

/-- No number that the difficulty check of the two blocks reads is too large. -/
structure SafePair (previousBlock newBlock : BcBlock) : Prop where
  timestamp : Safe newBlock.timestamp
  previousTimestamp : Safe previousBlock.timestamp
  previousHeight : Safe previousBlock.height
  headers : ∀ headers ∈ newBlock.blockchainHeaders, SafeTimestamps headers.lists.flatten

/-- A check that returns has read safe numbers. -/
theorem SafePair.of_ok {pkg : Packages} {previousBlock newBlock : BcBlock} {verdict : Bool}
    (h : validateSequenceDifficulty pkg previousBlock newBlock = .ok verdict) :
    SafePair previousBlock newBlock := by
  obtain ⟨newBlockCount, newestTimestamp, hinputs, hnumbers⟩ :=
    validateSequenceDifficulty_ok h
  refine ⟨hnumbers.current, hnumbers.previous, hnumbers.height, fun headers hheaders => ?_⟩
  obtain ⟨_, -, hinputs⟩ := bind_ok.1 hinputs
  obtain ⟨_, -, hinputs⟩ := bind_ok.1 hinputs
  obtain ⟨_, hnewest, -⟩ := bind_ok.1 hinputs
  obtain ⟨headers', hheaders', -, hsafe⟩ := of_getNewestHeader_ok hnewest
  cases hheaders'.symm.trans hheaders
  exact hsafe

/-- **The difficulty check.**  Over full header lists and safe numbers it compares with
the difficulty at the newest header's timestamp. -/
theorem SafePair.validateSequenceDifficulty_eq (pkg : Packages)
    {previousBlock newBlock : BcBlock} (hsafe : SafePair previousBlock newBlock)
    {previousHeaders headers : BlockchainHeaders}
    (hprev : previousBlock.getBlockchainHeaders = .ok previousHeaders)
    (hblock : newBlock.blockchainHeaders = some headers) (h : headers.Nonempty) :
    ∃ newest ∈ headers.lists.flatten,
      (∀ other ∈ headers.lists.flatten, other.timestamp ≤ newest.timestamp) ∧
      validateSequenceDifficulty pkg previousBlock newBlock =
        .ok (newBlock.difficulty == expectedDifficulty pkg previousBlock
          (getNewBlockCount previousHeaders headers) newBlock.timestamp
          newest.timestamp) := by
  have hheaders := hsafe.headers headers hblock
  obtain ⟨newest, hmem, hnewest, hinputs⟩ := sequenceInputs_ok hprev hblock h hheaders
  exact ⟨newest, hmem, hnewest, validateSequenceDifficulty_of_inputs hinputs
    ⟨hsafe.timestamp, hsafe.previousTimestamp, hheaders newest hmem, hsafe.previousHeight⟩⟩

/-- Two expected difficulties over one previous block have the same text exactly
when they are the same step. -/
theorem expectedDifficulty_eq_iff (pkg : Packages) (previousBlock : BcBlock)
    (n t c n' t' c' : Nat) :
    expectedDifficulty pkg previousBlock n t c =
        expectedDifficulty pkg previousBlock n' t' c' ↔
      SameStep (pkg.bn previousBlock.difficulty) MINIMUM_DIFFICULTY
        (stepFactor t previousBlock.timestamp n c)
        (stepFactor t' previousBlock.timestamp n' c') := by
  rw [expectedDifficulty, expectedDifficulty, Decimal.toString_int_inj,
    getExpFactorDiff_inj, getDiff_eq_iff]

end BcNode.Bc
