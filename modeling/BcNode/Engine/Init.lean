import BcNode.Engine.Commit

/-!
# Starting the engine

`Engine.init` as far as the store and the multiverse go.  On a new data folder
it stores genesis everywhere and hands it to `addNextBlock`; on an existing one
it hands over the stored latest block and resets the parent to genesis.  Each
`put` is an action, each call of `addNextBlock` is one too: nothing else runs
yet.

The last section is about what becomes of the first case: genesis has no child
headers, the comparison of connected chains throws on it, and so no block is
ever accepted on top of it.
-/

namespace BcNode.Engine

open BcNode.Verified BcNode.Js BcNode.Protos BcNode.Mining BcNode.Bc BcNode.Persistence

/-! ## `Engine.init` -/

/-- What `init` reads from outside the store. -/
structure InitOpts where
  roverNames : List String
  npm : String
  gitLong : String
  /-- `semver.lt`. -/
  versionLt : String → String → Bool
  /-- The block at `BC_BOOT_BLOCK`. -/
  bootBlock : Option BcBlock

/-- `process.exit`. -/
inductive Exit where
  | exit (code : Nat)
  deriving DecidableEq, Repr

section Actions

variable {ε : Type}

/-- `persistence.put` on the node. -/
def putNode (key : Key) (value : Value) : Async Node ε Unit :=
  Async.ofTask (Task.modify fun node => { node with store := node.store.set key value })

/-- `persistence.put(key, genesisBlock)` for each key. -/
def putGenesis : List Key → Async Node ε Unit
  | [] => return ()
  | key :: keys => do
      putNode key (.bcBlock getGenesisBlock)
      putGenesis keys

/-- `multiverse.addNextBlock(block)`. -/
def addNextBlockNode (pkg : Packages) (now : Nat) (block : BcBlock) :
    Async Node JsError Bool :=
  ExceptT.mk (Task.act (fun node => (addNextBlock pkg now block node).2)
    fun node => .done (addNextBlock pkg now block node).1)

end Actions

/-- A store written by a version before 0.7.7 ends the process. -/
def checkVersion (opts : InitOpts) : Async Node Exit Unit := do
  let version ← Async.ofTask (Task.read fun node => getIn node.store .appversion)
  match version with
  | .ok (.appVersion version _ _) =>
      if opts.versionLt version "0.7.7" then throw (.exit 8)
  | _ => return ()

/-- The restart: the `try` around the stored latest block. -/
def initFromStore (pkg : Packages) (now : Nat) : Async Node JsError Unit := do
  let latestBlock ← ExceptT.mk (Task.read fun node : Node =>
    getBlockIn node.store (.block .bc .latest))
  let _ ← addNextBlockNode pkg now latestBlock
  putGenesis [.synclock, .block .bc .oldest, .block .bc .parent]
  let _ ← ExceptT.mk (Task.read fun node : Node =>
    getIn node.store (.block .bc (.height 1)))
  putNode .quorum (.string "0")

/-- The `catch`: genesis block not found. -/
def initFromGenesis (pkg : Packages) (now : Nat) : Async Node JsError Unit := do
  putGenesis [.synclock, .block .bc (.height 1), .block .bc .latest, .block .bc .parent,
    .block .bc .oldest, .block .bc .checkpoint]
  putNode .quorum (.string "0")
  putNode .depth (.number 2)
  let _ ← addNextBlockNode pkg now getGenesisBlock

/-- The boot block, when one is given. -/
def bootFrom (bootBlock : Option BcBlock) : Async Node Exit Unit :=
  match bootBlock with
  | none => return ()
  | some block => do
      putNode (.block .bc .latest) (.bcBlock block)
      putNode (.block .bc (.height block.height)) (.bcBlock block)
      Async.ofTask (Task.modify fun node => { node with chain := block :: node.chain })

/-- `init`, up to the subscriptions. -/
def init (pkg : Packages) (now : Nat) (opts : InitOpts) : Async Node Exit Unit := do
  checkVersion opts
  putNode .rovers (.names opts.roverNames)
  putNode .appversion (.appVersion opts.npm opts.gitLong 1)
  Async.rescue (initFromStore pkg now) fun _ =>
    Async.rescue (initFromGenesis pkg now) fun _ => throw (.exit 1)
  bootFrom opts.bootBlock

/-! ## A new data folder -/

/-- The node before its first start. -/
def newNode : Node where
  chain := []
  store := Store.empty

/-- The node after its first start. -/
def startedNode (pkg : Packages) (now : Nat) (opts : InitOpts) : Node :=
  (Async.exec (init pkg now opts) newNode).2

/-- The first start stores genesis as the latest block and as the parent, and
has it as the only block of the multiverse. -/
theorem startedNode_genesis (pkg : Packages) (now : Nat) {opts : InitOpts}
    (hboot : opts.bootBlock = none) :
    (startedNode pkg now opts).chain = [getGenesisBlock] ∧
      (startedNode pkg now opts).store (.block .bc .latest) =
        some (.bcBlock getGenesisBlock) ∧
      (startedNode pkg now opts).store (.block .bc .parent) =
        some (.bcBlock getGenesisBlock) := by
  obtain ⟨roverNames, npm, gitLong, versionLt, bootBlock⟩ := opts
  cases hboot
  exact ⟨rfl, rfl, rfl⟩

/-! ## On top of genesis -/

/-- Genesis has no child headers, and the top of an empty list is read. -/
theorem childrenHeightSum_genesis :
    childrenHeightSum getGenesisBlock = .error .typeError :=
  rfl

/-- **The chain cannot leave genesis.**  After the first start, with whatever
child headers have been stored since, `addNextBlock` accepts no block at all. -/
theorem genesis_accepts_no_block (pkg : Packages) (now : Nat) {opts : InitOpts}
    (hboot : opts.bootBlock = none) {node : Node}
    (hsame : node.chain = (startedNode pkg now opts).chain)
    (hstore : ChildFrame (startedNode pkg now opts).store node.store) (later : Nat)
    (block : BcBlock) :
    (addNextBlock pkg later block node).1 ≠ .ok true := by
  obtain ⟨hchain, hlatest, _⟩ := startedNode_genesis pkg now hboot
  have hkept : node.store (.block .bc .latest) = some (.bcBlock getGenesisBlock) := by
    rw [hstore _ (by simp), hlatest]
  have hne : node.chain ≠ [] := by
    rw [hsame, hchain]
    exact List.cons_ne_nil _ _
  intro haccepted
  obtain ⟨hgate, _⟩ := (addNextBlock_sound hkept hne block).1 haccepted
  obtain ⟨_, _, _, hgenesis, _⟩ := hgate.outweighs.sums
  rw [childrenHeightSum_genesis] at hgenesis
  cases hgenesis

/-- The sample's start. -/
def sampleOpts : InitOpts where
  roverNames := ["btc", "eth", "lsk", "neo", "wav"]
  npm := "0.9.0"
  gitLong := "c0ffee"
  versionLt := fun _ _ => false
  bootBlock := none

theorem genesis_accepts_no_block_sample :
    (addNextBlock samplePackages 1010 sampleNextBlock
      (startedNode samplePackages 900 sampleOpts)).1 ≠ .ok true :=
  @genesis_accepts_no_block samplePackages 900 sampleOpts rfl
    (startedNode samplePackages 900 sampleOpts) rfl (ChildFrame.refl _) 1010
    sampleNextBlock

/-- The sample's template on genesis, and its solution. -/
def sampleFirstTemplate : BcBlock :=
  { newTemplate samplePackages getGenesisBlock (sampleHeaders 1000000 1000000 11) []
      "0xaa" "290112262029012" "36382102" "-37050245253670" 5 with timestamp := 1000 }

def sampleFirstWork : WorkData where
  workId := "w"
  currentTimestamp := 1000
  work := "22942695"
  minerKey := "0xaa"
  merkleRoot := "36382102"
  newestChildBlock := sampleChild .wav 1000000 11
  difficulty := "290112262029012"
  lastPreviousBlock := getGenesisBlock
  newBlockHeaders := sampleHeaders 1000000 1000000 11

def sampleFirstSolution : Solution where
  distance := "299200000000000"
  nonce := "42"
  timestamp := 1000
  difficulty := "290112262029012"
  iterations := 1
  timeDiff := 1

/-- A block prepared on genesis, mined, and valid by itself and next to
genesis: `addNextBlock` rejects with a `TypeError`. -/
theorem first_block_rejected :
    prepareTemplate samplePackages "w" 1000 getGenesisBlock
        (sampleChildren 1000000 1000000 11) (sampleChild .wav 1000000 11) "0xaa" none =
      .ok (sampleFirstTemplate, sampleFirstWork) ∧
    mineWork samplePackages sampleFirstWork 1000000
        [{ now := 1000000, nowSeconds := 1000, random := 42, after := 1000001 }] =
      .ok (.solution sampleFirstSolution) ∧
    isValidBlock samplePackages
      (completeTemplate samplePackages sampleFirstTemplate sampleFirstSolution) =
        .ok true ∧
    validateSequenceTotalDistance samplePackages getGenesisBlock
      (completeTemplate samplePackages sampleFirstTemplate sampleFirstSolution) = true ∧
    validateSequenceDifficulty samplePackages getGenesisBlock
      (completeTemplate samplePackages sampleFirstTemplate sampleFirstSolution) =
        .ok true ∧
    validateBlockSequence samplePackages
      [completeTemplate samplePackages sampleFirstTemplate sampleFirstSolution,
        getGenesisBlock] = .ok true ∧
    (addNextBlock samplePackages 1010
      (completeTemplate samplePackages sampleFirstTemplate sampleFirstSolution)
      (startedNode samplePackages 900 sampleOpts)).1 = .error .typeError := by
  refine ⟨?_, ?_, ?_, ?_, ?_, ?_, ?_⟩
  · decide +kernel
  · decide +kernel
  · decide +kernel
  · decide +kernel
  · decide +kernel
  · decide +kernel
  · decide +kernel

end BcNode.Engine
