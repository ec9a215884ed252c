import BcNode.Mining.Templates

/-!
# Restarting the miner

`rebaseMiner` stops the workers and starts mining again if one of the latest rovered
blocks is not yet among the headers of the latest block.  Which blocks those are is for
`getUniqueBlocks` to say.  It takes the hashes on both sides with one helper, and the
helper looks at the previous headers whatever it is given; so it finds none, and the
workers stay stopped.
-/

namespace BcNode.Mining

open BcNode.Verified BcNode.Js BcNode.Protos BcNode.Persistence

/-- The hashes of all headers. -/
def headerHashes (headers : BlockchainHeaders) : List String :=
  headers.lists.flatten.map (·.hash)

/-- `getUniqueBlocks`.  Its second argument is an array of blocks, and the helper that
should read it reads the first argument again. -/
def getUniqueBlocks (previousBlockHeaders : BlockchainHeaders)
    (currentBlockHeaders : List Block) : List Block :=
  let headersToHashes {α : Type} (_headers : α) := headerHashes previousBlockHeaders
  let previousHashes := headersToHashes previousBlockHeaders
  let currentHashes := headersToHashes currentBlockHeaders
  let diff := difference currentHashes previousHashes
  currentBlockHeaders.filter fun b => diff.contains b.hash

/-- `rebaseMiner`: the block with which it goes on to `startMining`, or `none` where it
resolves with `false`.  The `reset` for the workers is left out. -/
def rebaseMiner (knownRovers : List String) (order : List Nat) : StoreM (Option Block) := do
  let latestRoveredHeadersKeys := knownRovers.map fun chain => blockKey chain .latest
  let currentRoveredBlocks ← Async.ofTask (getBulk order latestRoveredHeadersKeys)
  let lastPreviousBlock ← getBlock (.block .bc .latest)
  let previousHeaders ← Async.ofExcept lastPreviousBlock.getBlockchainHeaders
  if currentRoveredBlocks.length ≠ previousHeaders.lists.length then return none
  else do
    let blocks ← Async.ofExcept (currentRoveredBlocks.mapM asChildBlock)
    let uniqueBlocks := sortDescending (·.height) (getUniqueBlocks previousHeaders blocks)
    return uniqueBlocks.head?

/-! ## What there is to mine -/

/-- The blocks whose hash is not among the headers, in their order. -/
def unusedBlocks (headers : BlockchainHeaders) (blocks : List Block) : List Block :=
  blocks.filter fun b => b.hash ∉ headerHashes headers

/-- The latest block is stored with these headers, all rovers are known, and these are
the latest blocks they have stored. -/
structure StoredLatest (knownRovers : List String) (store : Store)
    (headers : BlockchainHeaders) (blocks : List Block) : Prop where
  rovers : knownRovers.Perm ROVERS
  latest : ∃ block, store (.block .bc .latest) = some (.bcBlock block) ∧
    block.blockchainHeaders = some headers
  rovered : (knownRovers.map fun chain => store (blockKey chain .latest)) =
    blocks.map fun b => some (Value.block b)

/-- Unused blocks are found, and the miner starts over where there is one. -/
structure Rebases (knownRovers : List String) (order : List Nat) (store : Store)
    (headers : BlockchainHeaders) (blocks : List Block) : Prop where
  unique : getUniqueBlocks headers blocks = unusedBlocks headers blocks
  starts : StoredLatest knownRovers store headers blocks →
    unusedBlocks headers blocks ≠ [] →
      ∃ block, (Async.exec (rebaseMiner knownRovers order) store).1 = .ok (some block)

/-- A list has no hash that it lacks. -/
theorem difference_self (hashes : List String) : difference hashes hashes = [] := by
  have hnone : (hashes.filter fun a => !hashes.contains a) = [] :=
    List.filter_eq_nil_iff.2 fun a ha => by simpa using ha
  rw [difference, hnone]
  rfl

theorem getUniqueBlocks_eq_nil (headers : BlockchainHeaders) (blocks : List Block) :
    getUniqueBlocks headers blocks = [] := by
  unfold getUniqueBlocks
  simp only [difference_self]
  exact List.filter_eq_nil_iff.2 fun _ _ => nofun

/-- With everything there, the call resolves with `false`. -/
theorem StoredLatest.rebaseMiner_exec {knownRovers : List String} {store : Store}
    {headers : BlockchainHeaders} {blocks : List Block}
    (h : StoredLatest knownRovers store headers blocks) (order : List Nat) :
    Async.exec (rebaseMiner knownRovers order) store = (.ok none, store) := by
  obtain ⟨latest, hlatest, hheaders⟩ := h.latest
  have hread : (knownRovers.map fun chain => blockKey chain .latest).filterMap store =
      blocks.map Value.block := by
    have hall := congrArg (List.filterMap id) h.rovered
    simpa only [List.filterMap_map, Function.comp_def, id_eq, List.filterMap_eq_map']
      using hall
  have hlength : (blocks.map Value.block).length = headers.lists.length := by
    have hcount := congrArg List.length h.rovered
    rw [List.length_map, List.length_map, h.rovers.length_eq] at hcount
    rw [List.length_map, ← hcount]
    rfl
  have hblocks : (blocks.map Value.block).mapM asChildBlock = .ok blocks := by
    rw [mapM_ok fun value hvalue => ?_]
    · simp [List.filterMap_map, asChildBlock, Except.toOption]
    · obtain ⟨b, -, rfl⟩ := List.mem_map.1 hvalue
      exact ⟨b, rfl⟩
  simp only [rebaseMiner, Async.exec_bind, Async.exec_ofTask, getBulk_run, hread,
    exec_getBlock, getBlockIn_of_some hlatest, Async.exec_ofExcept,
    BcBlock.getBlockchainHeaders_some hheaders, hlength, ne_eq, not_true_eq_false, if_false,
    hblocks, getUniqueBlocks_eq_nil, Async.exec_pure]
  rfl

/-- **The miner is never rebased.**  Unused blocks are found, and start the miner,
exactly where there are none. -/
theorem rebases_iff (knownRovers : List String) (order : List Nat) (store : Store)
    (headers : BlockchainHeaders) (blocks : List Block) :
    Rebases knownRovers order store headers blocks ↔
      ∀ b ∈ blocks, b.hash ∈ headerHashes headers := by
  have hunused : unusedBlocks headers blocks = [] ↔
      ∀ b ∈ blocks, b.hash ∈ headerHashes headers := by
    simp [unusedBlocks, List.filter_eq_nil_iff]
  rw [← hunused]
  constructor
  · intro h
    rw [← h.unique, getUniqueBlocks_eq_nil]
  · intro hnone
    refine ⟨?_, fun _ hsome => absurd hnone hsome⟩
    rw [hnone, getUniqueBlocks_eq_nil]

/-- The latest blocks of `sampleNewestStore`. -/
def sampleRovered : List Block :=
  [sampleChild .btc 980000 10, sampleChild .eth 980000 10, sampleChild .lsk 980000 10,
    sampleChild .neo 980000 10, sampleChild .wav 1000000 11]

theorem storedLatest_sample : StoredLatest ROVERS sampleNewestStore
    (sampleHeaders 980000 980000 10) sampleRovered := by
  refine ⟨List.Perm.refl _, ⟨samplePrevious, rfl, rfl⟩, ?_⟩
  rw [ROVERS_eq, List.map_map]
  simp only [Function.comp_def, blockKey_name]
  rfl

/-- A new block of `wav` is unused, and the miner does not start. -/
theorem rebaseMiner_unused :
    unusedBlocks (sampleHeaders 980000 980000 10) sampleRovered =
        [sampleChild .wav 1000000 11] ∧
      getUniqueBlocks (sampleHeaders 980000 980000 10) sampleRovered = [] ∧
      (Async.exec (rebaseMiner ROVERS []) sampleNewestStore).1 = .ok none ∧
      ¬ Rebases ROVERS [] sampleNewestStore (sampleHeaders 980000 980000 10)
        sampleRovered := by
  have hunused : unusedBlocks (sampleHeaders 980000 980000 10) sampleRovered =
      [sampleChild .wav 1000000 11] := by decide +kernel
  refine ⟨hunused, getUniqueBlocks_eq_nil _ _,
    congrArg Prod.fst (storedLatest_sample.rebaseMiner_exec []), fun h => ?_⟩
  have hunique := h.unique
  rw [hunused, getUniqueBlocks_eq_nil] at hunique
  cases hunique

end BcNode.Mining
