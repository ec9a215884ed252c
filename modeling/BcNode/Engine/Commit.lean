import BcNode.Bc.Multiverse

/-!
# Committing a block

`updateLatestAndStore` of the engine: the second decision about a block, taken
on a fresh read of the store after the multiverse has accepted the block or a
resync has been approved.

`commitCase` is its `if ... else if` chain and `perform` the writes of each
branch.  The message's `multiverse` is an array the function pops from, so an
error that reaches the `catch` carries what is left of it.
-/

namespace BcNode.Engine

open BcNode.Verified BcNode.Js BcNode.Protos BcNode.Mining BcNode.Bc BcNode.Persistence

/-- The message published under `update.block.latest`. -/
structure UpdateMsg where
  data : BcBlock
  force : Bool := false
  multiverse : Option (List BcBlock) := none
  deriving DecidableEq, Repr

/-- What `updateLatestAndStore` uses besides the message and the store. -/
structure Env where
  pkg : Packages
  canMine : Bool
  knownRovers : List Chain
  completion : Completion

/-! ## The branches -/

/-- The branches of `updateLatestAndStore`, in their order. -/
inductive CommitCase where
  | replaceLatest
  | child
  | aboveGenesis
  | newBranch
  | forced
  | sibling
  | none
  deriving DecidableEq, Repr

/-- `multiverse.constructor === Array.constructor`: an array's constructor is
`Array`, the constructor of `Array` is `Function`. -/
def constructorIsArrayConstructor (_multiverse : List BcBlock) : Bool := false

/-- The condition of the second branch. -/
def extendsLatest (pkg : Packages) (block previousLatest parent : BcBlock) :
    Except JsError Bool :=
  if previousLatest.hash = block.previousHash ∧ block.timestamp > parent.timestamp then
    validateSequenceDifficulty pkg previousLatest block
  else return false

/-- Which branch a message takes, given what was read.  The timestamps it compares are
taken to be `Safe`. -/
def commitCase (pkg : Packages) (msg : UpdateMsg)
    (previousLatest parent synclock : BcBlock) : Except JsError CommitCase := do
  let block := msg.data
  if parent.hash ≠ previousLatest.previousHash ∧
      pkg.bn block.totalDistance > pkg.bn previousLatest.totalDistance ∧
      block.timestamp ≥ previousLatest.timestamp then
    return .replaceLatest
  if ← extendsLatest pkg block previousLatest parent then return .child
  if previousLatest.height = 1 then return .aboveGenesis
  if msg.force ∧ msg.multiverse.any constructorIsArrayConstructor ∧
      synclock.height = 1 then
    return .newBranch
  if msg.force ∧ synclock.height = 1 then return .forced
  if parent.hash = block.previousHash then return .sibling
  return .none

/-- The writes every branch ends with. -/
def storeLatest (env : Env) (block : BcBlock) : StoreM Unit := do
  putBlock (.block .bc .latest) block
  putBlock (.block .bc (.height block.height)) block
  putChildHeaders env.completion block

/-- `persistence.put('bc.block.parent', multiverse[1])`: `undefined` cannot be
serialized, and `undefined[1]` cannot be read. -/
def putSecondAsParent (multiverse : Option (List BcBlock)) : StoreM Unit :=
  match multiverse.bind (·[1]?) with
  | some parent => putBlock (.block .bc .parent) parent
  | none => throw .typeError

/-- The body of a branch. -/
def perform (env : Env) (msg : UpdateMsg) (previousLatest : BcBlock) :
    CommitCase → StoreM Unit
  | .replaceLatest => storeLatest env msg.data
  | .child => do
      putBlock (.block .bc .parent) previousLatest
      storeLatest env msg.data
  | .aboveGenesis => do
      putBlock (.block .bc .parent) previousLatest
      storeLatest env msg.data
  -- `multiverse[multiverse - 1]` is `undefined`
  | .newBranch => throw .typeError
  | .forced => do
      putBlock .synclock msg.data
      putBlock (.block .bc .parent) previousLatest
      storeLatest env msg.data
  | .sibling => do
      putSecondAsParent msg.multiverse
      storeLatest env msg.data
  | .none => return ()

/-- The reads, the choice and the branch. -/
def commit (env : Env) (msg : UpdateMsg) : StoreM Unit := do
  let previousLatest ← getBlock (.block .bc .latest)
  let parent ← getBlock (.block .bc .parent)
  let synclock ← getBlock .synclock
  let choice ← Async.ofExcept (commitCase env.pkg msg previousLatest parent synclock)
  perform env msg previousLatest choice

/-! ## The function -/

/-- An error, with what the message's multiverse still holds. -/
abbrev Interrupted := JsError × Option (List BcBlock)

/-- The loop that empties the multiverse from its end, here the list in the
order in which it is popped. -/
def storeMultiverse (env : Env) : List BcBlock → Async Store Interrupted Unit
  | [] => return ()
  | b :: rest => do
      -- strict local only write of genesis block
      if b.height > 1 then
        Async.mapError (fun e => (e, some rest)) do
          putBlock (.block .bc (.height b.height)) b
          putChildHeaders env.completion b
      storeMultiverse env rest

/-- Reading the latest rovered headers while the officer cannot mine yet.  The
counters it bumps are the officer's and not in the store. -/
def countRoveredHeaders (env : Env) : StoreM Unit :=
  if env.canMine then return ()
  else do
    let latestBlockHeaders ← Async.ofTask (getBulk env.completion.bulk
      (env.knownRovers.map fun chain => .block (.child chain) .latest))
    let _ ← Async.ofExcept (latestBlockHeaders.mapM Value.getBlockchain)

/-- What follows the branches inside the `try`. -/
def finish (env : Env) (msg : UpdateMsg) : Async Store Interrupted Unit :=
  match msg.multiverse with
  | some blocks => storeMultiverse env blocks.reverse
  | none => Async.mapError (fun e => (e, none)) (countRoveredHeaders env)

/-- The `catch`. -/
def recover (env : Env) (msg : UpdateMsg) (left : Option (List BcBlock)) :
    StoreM Unit := do
  if msg.force then
    putBlock (.block .bc .parent) getGenesisBlock
    storeLatest env msg.data
  match left with
  | some blocks => Async.mapError Prod.fst (storeMultiverse env blocks)
  | none => return ()

/-- `updateLatestAndStore`. -/
def updateLatestAndStore (env : Env) (msg : UpdateMsg) : StoreM BcBlock := do
  Async.rescue
    (do
      Async.mapError (fun e => (e, msg.multiverse.map List.reverse)) (commit env msg)
      finish env msg)
    fun interrupted => recover env msg interrupted.2
  return msg.data

/-! ## One commit alone -/

/-- The writes of a branch, without the child headers. -/
def written (store : Store) (block previousLatest : BcBlock) : CommitCase → Store
  | .replaceLatest => latestWritten store
  | .child =>
      latestWritten (store.set (.block .bc .parent) (.bcBlock previousLatest))
  | .aboveGenesis =>
      latestWritten (store.set (.block .bc .parent) (.bcBlock previousLatest))
  | _ => store
where
  latestWritten (store : Store) : Store :=
    (store.set (.block .bc .latest) (.bcBlock block)).set
      (.block .bc (.height block.height)) (.bcBlock block)

theorem storeLatest_exec (env : Env) (block : BcBlock) (store : Store) :
    ChildFrame (written.latestWritten block store)
      (Async.exec (storeLatest env block) store).2 := by
  simp only [storeLatest, Async.exec_bind, exec_putBlock]
  exact putChildHeaders_exec env.completion block _

/-- A branch that a message without force and without multiverse can take
writes what `written` says, up to child headers. -/
theorem perform_exec (env : Env) (block previousLatest : BcBlock) (store : Store)
    {choice : CommitCase} (hforced : choice ≠ .forced) :
    ChildFrame (written store block previousLatest choice)
      (Async.exec (perform env { data := block } previousLatest choice) store).2 := by
  cases choice with
  | replaceLatest => exact storeLatest_exec env block store
  | child =>
      simp only [perform, Async.exec_bind, exec_putBlock]
      exact storeLatest_exec env block _
  | aboveGenesis =>
      simp only [perform, Async.exec_bind, exec_putBlock]
      exact storeLatest_exec env block _
  | newBranch => exact ChildFrame.refl store
  | forced => exact absurd rfl hforced
  | sibling => exact ChildFrame.refl store
  | none => exact ChildFrame.refl store

/-- What the branch taken says about what was read, for a message without force
and multiverse. -/
structure Chosen (block previousLatest parent : BcBlock) (choice : CommitCase) :
    Prop where
  replaceLatest : choice = .replaceLatest → parent.hash ≠ previousLatest.previousHash
  child : choice = .child → previousLatest.hash = block.previousHash
  aboveGenesis : choice = .aboveGenesis → previousLatest.height = 1
  forced : choice ≠ .forced

theorem extendsLatest_true {pkg : Packages} {block previousLatest parent : BcBlock}
    (h : extendsLatest pkg block previousLatest parent = .ok true) :
    previousLatest.hash = block.previousHash := by
  unfold extendsLatest at h
  split at h
  · next hcond => exact hcond.1
  · cases h

theorem commitCase_chosen {pkg : Packages}
    {block previousLatest parent synclock : BcBlock} {choice : CommitCase}
    (h : commitCase pkg { data := block } previousLatest parent synclock = .ok choice) :
    Chosen block previousLatest parent choice := by
  unfold commitCase at h
  dsimp only at h
  split at h
  · next hfirst =>
      cases h
      exact ⟨fun _ => hfirst.1, nofun, nofun, nofun⟩
  · obtain ⟨isChild, hchild, h⟩ := bind_ok.1 h
    cases isChild with
    | true =>
        cases h
        exact ⟨nofun, fun _ => extendsLatest_true hchild, nofun, nofun⟩
    | false =>
        simp only [Bool.false_eq_true, false_and, if_false] at h
        split at h
        · next hheight =>
            cases h
            exact ⟨nofun, nofun, fun _ => hheight, nofun⟩
        · split at h
          · cases h
            exact ⟨nofun, nofun, nofun, nofun⟩
          · cases h
            exact ⟨nofun, nofun, nofun, nofun⟩

theorem countRoveredHeaders_childFrame (env : Env) :
    Async.Always ChildFrame (countRoveredHeaders env) := by
  unfold countRoveredHeaders
  split
  · trivial
  · apply Async.Always.bind (Async.Always.ofTask (getBulk_childFrame _ _))
    intro _
    exact Async.Always.bind (Async.Always.ofExcept _) fun _ => trivial

/-- What a message without force and multiverse does after its branch: it may
read the rovered headers, and it resolves with the block whatever happened. -/
def tail (env : Env) (block : BcBlock) :
    Except JsError Unit → Task Store (Except JsError BcBlock)
  | .ok _ => ExceptT.run (countRoveredHeaders env) >>= fun _ => .done (.ok block)
  | .error _ => .done (.ok block)

/-- Such a message is one branch and its tail: the `catch` only logs. -/
theorem updateLatestAndStore_run (env : Env) (block : BcBlock) :
    ExceptT.run (updateLatestAndStore env { data := block }) =
      ExceptT.run (commit env { data := block }) >>= tail env block := by
  simp only [updateLatestAndStore, finish, recover, Async.mapError, Async.rescue,
    ExceptT.run_bind, ExceptT.run_mk, Task.bind_assoc]
  congr 1
  funext result
  cases result with
  | error e => rfl
  | ok _ =>
      simp only [Task.pure_eq, Task.bind_done, Task.bind_assoc, tail]
      congr 1
      funext counted
      cases counted <;> rfl

theorem tail_childFrame (env : Env) (block : BcBlock) (result : Except JsError Unit) :
    Task.Always ChildFrame (tail env block result) := by
  cases result with
  | error e => trivial
  | ok _ => exact Task.Always.bind (countRoveredHeaders_childFrame env) fun _ => trivial

/-- Around the branch such a message does nothing but read. -/
theorem updateLatestAndStore_exec (env : Env) (block : BcBlock) (store : Store) :
    ChildFrame (Async.exec (commit env { data := block }) store).2
      (Async.exec (updateLatestAndStore env { data := block }) store).2 := by
  rw [Async.exec, Async.exec, updateLatestAndStore_run, Task.run_bind]
  exact (tail_childFrame env block _).run ChildFrame.refl
    (fun _ _ _ => ChildFrame.trans) _

/-- **One commit.**  What a message without force and multiverse leaves in the
store: the writes of the branch it takes and child headers. -/
theorem updateLatestAndStore_written (env : Env)
    {block previousLatest parent synclock : BcBlock} {store : Store} {choice : CommitCase}
    (hlatest : store (.block .bc .latest) = some (.bcBlock previousLatest))
    (hparent : store (.block .bc .parent) = some (.bcBlock parent))
    (hsynclock : store .synclock = some (.bcBlock synclock))
    (hchoice : commitCase env.pkg { data := block } previousLatest parent synclock =
      .ok choice) :
    ChildFrame (written store block previousLatest choice)
      (Async.exec (updateLatestAndStore env { data := block }) store).2 := by
  refine ChildFrame.trans ?_ (updateLatestAndStore_exec env block store)
  simp only [commit, Async.exec_bind, exec_getBlock, getBlockIn_of_some hlatest,
    getBlockIn_of_some hparent, getBlockIn_of_some hsynclock, Async.exec_ofExcept,
    hchoice]
  exact perform_exec env block previousLatest store (commitCase_chosen hchoice).forced

/-! ## From acceptance to commit -/

/-- The branch an accepted block takes: it is a valid child of the latest
block, so only the parent's timestamp can keep it out of the second one. -/
theorem commitCase_accepted {pkg : Packages} {block previousLatest : BcBlock}
    (parent synclock : BcBlock)
    (hdifficulty : validateSequenceDifficulty pkg previousLatest block = .ok true)
    (hprevious : block.previousHash = previousLatest.hash) :
    commitCase pkg { data := block } previousLatest parent synclock =
      .ok (if parent.hash ≠ previousLatest.previousHash ∧
            pkg.bn block.totalDistance > pkg.bn previousLatest.totalDistance ∧
            block.timestamp ≥ previousLatest.timestamp then .replaceLatest
        else if block.timestamp > parent.timestamp then .child
        else if previousLatest.height = 1 then .aboveGenesis
        else if parent.hash = block.previousHash then .sibling
        else .none) := by
  unfold commitCase extendsLatest
  simp only [hprevious, true_and, hdifficulty, Bool.false_eq_true, false_and, if_false]
  split
  · rfl
  · split
    · rfl
    · split
      · rfl
      · split <;> rfl

/-- Where the commit of an accepted block does what it should: its first branch
expects the parent to be the latest block already, the others need a parent that
is older than the block, or genesis as the latest block. -/
def FollowsThrough (pkg : Packages) (block previousLatest parent : BcBlock) : Prop :=
  if parent.hash ≠ previousLatest.previousHash ∧
      pkg.bn block.totalDistance > pkg.bn previousLatest.totalDistance ∧
      block.timestamp ≥ previousLatest.timestamp then parent.hash = previousLatest.hash
  else block.timestamp > parent.timestamp ∨ previousLatest.height = 1

/-- What a committed block leaves in the store. -/
structure Committed (store : Store) (block : BcBlock) : Prop where
  latest : store (.block .bc .latest) = some (.bcBlock block)
  byHeight : store (.block .bc (.height block.height)) = some (.bcBlock block)
  parent : ∃ parent, store (.block .bc .parent) = some (.bcBlock parent) ∧
    parent.hash = block.previousHash

/-- The keys of `Committed` are no child-chain keys. -/
theorem Committed.congr {s s' : Store} (h : ChildFrame s s') (block : BcBlock) :
    Committed s' block ↔ Committed s block := by
  have hkey (slot : Slot) : s' (.block .bc slot) = s (.block .bc slot) :=
    h _ fun chain slot' => by simp
  constructor
  · rintro ⟨hlatest, hheight, parent, hparent, hhash⟩
    exact ⟨by rw [← hkey, hlatest], by rw [← hkey, hheight], parent,
      by rw [← hkey, hparent], hhash⟩
  · rintro ⟨hlatest, hheight, parent, hparent, hhash⟩
    exact ⟨by rw [hkey, hlatest], by rw [hkey, hheight], parent,
      by rw [hkey, hparent], hhash⟩

/-- The writes of a branch commit the block exactly when it writes at all and
the parent it leaves is the right one. -/
theorem committed_latestWritten {store : Store} {block parent : BcBlock}
    (hparent : store (.block .bc .parent) = some (.bcBlock parent)) :
    Committed (written.latestWritten block store) block ↔
      parent.hash = block.previousHash := by
  have hkept : written.latestWritten block store (.block .bc .parent) =
      some (.bcBlock parent) := by
    simp [written.latestWritten, hparent]
  constructor
  · rintro ⟨_, _, parent', hparent', hhash⟩
    rw [hkept] at hparent'
    cases hparent'
    exact hhash
  · intro hhash
    exact ⟨by simp [written.latestWritten], by simp [written.latestWritten], parent,
      hkept, hhash⟩

/-- **Acceptance and commit.**  A block that `addNextBlock` accepts is committed
by the `updateLatestAndStore` that follows exactly when `FollowsThrough` holds of
what the store had. -/
theorem accepted_committed_iff (env : Env) {now : Nat} {node : Node}
    {block previousLatest parent synclock : BcBlock}
    (hlatest : node.store (.block .bc .latest) = some (.bcBlock previousLatest))
    (hparent : node.store (.block .bc .parent) = some (.bcBlock parent))
    (hsynclock : node.store .synclock = some (.bcBlock synclock))
    (hchain : node.chain ≠ [])
    (haccepted : (addNextBlock env.pkg now block node).1 = .ok true) :
    Committed (Async.exec (updateLatestAndStore env { data := block })
        node.store).2 block ↔
      FollowsThrough env.pkg block previousLatest parent := by
  obtain ⟨hgate, hprevious⟩ := (addNextBlock_sound hlatest hchain block).1 haccepted
  have hchoice := commitCase_accepted parent synclock hgate.difficulty_valid hprevious
  have hwritten := updateLatestAndStore_written env hlatest hparent hsynclock hchoice
  rw [Committed.congr hwritten, FollowsThrough]
  have hunchanged : ¬ Committed node.store block := by
    rintro ⟨hlatest', _, _⟩
    rw [hlatest] at hlatest'
    cases hlatest'
    exact hgate.hash_ne rfl
  have hmoved : Committed (written.latestWritten block
      (node.store.set (.block .bc .parent) (.bcBlock previousLatest))) block :=
    (committed_latestWritten (Store.set_self ..)).2 hprevious.symm
  split
  · rw [written, committed_latestWritten hparent, hprevious]
  · split
    · next hnewer => exact iff_of_true hmoved (Or.inl hnewer)
    · next holder =>
        split
        · next hgenesis => exact iff_of_true hmoved (Or.inr hgenesis)
        · next hheight =>
            have hneither : ¬ (block.timestamp > parent.timestamp ∨
                previousLatest.height = 1) := not_or.2 ⟨holder, hheight⟩
            split
            · exact iff_of_false hunchanged hneither
            · exact iff_of_false hunchanged hneither

/-- The sample's engine: the officer can mine, and promises act in order. -/
def sampleEnv : Env where
  pkg := samplePackages
  canMine := true
  knownRovers := Chain.all
  completion := {}

theorem accepted_committed_iff_sample :
    (addNextBlock samplePackages 1010 sampleNextBlock
      (sampleNode sampleParent)).1 = .ok true ∧
      (Committed (Async.exec (updateLatestAndStore sampleEnv { data := sampleNextBlock })
          (sampleStore sampleParent)).2 sampleNextBlock ↔
        FollowsThrough samplePackages sampleNextBlock samplePrevious sampleParent) := by
  have haccepted : (addNextBlock samplePackages 1010 sampleNextBlock
      (sampleNode sampleParent)).1 = .ok true := by decide +kernel
  exact ⟨haccepted, @accepted_committed_iff sampleEnv 1010 (sampleNode sampleParent)
    sampleNextBlock samplePrevious sampleParent getGenesisBlock
    (sampleStore_latest sampleParent) (sampleStore_parent sampleParent)
    (sampleStore_synclock sampleParent) (List.cons_ne_nil _ _) haccepted⟩

/-- After a restart the parent is genesis.  The next block is accepted, its
commit takes the first branch, and the parent stays genesis. -/
theorem restarted_commit_keeps_genesis_parent :
    (addNextBlock samplePackages 1010 sampleNextBlock (sampleNode getGenesisBlock)).1 =
      .ok true ∧
    (Async.exec (updateLatestAndStore sampleEnv { data := sampleNextBlock })
      (sampleStore getGenesisBlock)).2 (.block .bc .latest) =
        some (.bcBlock sampleNextBlock) ∧
    (Async.exec (updateLatestAndStore sampleEnv { data := sampleNextBlock })
      (sampleStore getGenesisBlock)).2 (.block .bc .parent) =
        some (.bcBlock getGenesisBlock) ∧
    getGenesisBlock.hash ≠ sampleNextBlock.previousHash := by
  refine ⟨?_, ?_, ?_, ?_⟩
  · decide +kernel
  · decide +kernel
  · decide +kernel
  · decide +kernel

end BcNode.Engine
