import BcNode.Bc.ValidCache

/-!
# The request to resync

`addResyncRequest` of `bc/multiverse`: asked about a block that `addNextBlock`
has refused, it decides whether the block comes from a better chain, for which
the node should throw its own away.

The function is read in four parts.  `resyncScreen` is everything that answers
without asking the store about rovered blocks; `passesShortChain`,
`passesHiddenParent` and `passesRoveredBlocks` are the three comparisons after
it.  The second of them does not wait for the answer it asks for.
-/

namespace BcNode.Bc

open BcNode.Verified BcNode.Js BcNode.Protos BcNode.Mining BcNode.Persistence

/-- The local time in seconds, read anew at each use. -/
structure ResyncClock where
  syncLock : Nat
  lower : Nat
  upper : Nat
  stale : Nat
  deriving DecidableEq, Repr

/-- `isSyncLockActive`.  A lock that is 31 seconds old is reset. -/
def isSyncLockActive (now : Nat) : Task Store Bool :=
  Task.read (fun store => getBlockIn store .synclock) >>= fun synclock =>
    match synclock with
    | .error _ => return true
    | .ok synclock =>
        if synclock.height ≠ 1 ∧ synclock.timestamp + 31 < now then
          put .synclock (.bcBlock getGenesisBlock) >>= fun _ => return false
        else if synclock.height = 1 then return false
        else return true

/-- `validateRoveredBlocks`: whether the store has a block for every header of
`block`.  `order` is the order in which its reads get to act. -/
def validateRoveredBlocks (order : List Nat) (block : BcBlock) : StoreM Bool := do
  let headers ← Async.ofExcept block.getBlockchainHeaders
  let receivedBlocks := headers.lists.flatten
  let keys := receivedBlocks.map fun header =>
    blockKey header.blockchain (.height header.height)
  let blocks ← Async.ofTask (getBulk order keys)
  return keys.length == blocks.length

/-- `promise === true`, for a promise that nobody has waited for.  What it still
reads from the store changes nothing. -/
def promiseIsTrue (_promise : StoreM Bool) : Bool := false

/-- `getParentHighestBlock() === null`: with fewer blocks it is `undefined`. -/
def parentHighestBlockIsNull (chain : List BcBlock) : Bool := chain.length > 1

/-- From the check of `_chain` to the check for a stale latest block.  `get`
rejects where it finds nothing, so the latest block is not `null` here. -/
def resyncScreen (pkg : Packages) (clock : ResyncClock) (chain : List BcBlock)
    (newBlock currentHighestBlock : BcBlock) : Except JsError (Option Bool) := do
  if chain.length = 0 then return some true
  if currentHighestBlock.height = 1 ∧ newBlock.height > 1 then return some true
  if newBlock.hash = currentHighestBlock.hash then return some false
  let height ← newBN newBlock.height
  let above ← bnGtNumber height 100000
  if above = true ∧ newBlock.timestamp + 15 < clock.lower then return some false
  let above ← bnGtNumber height 100000
  if above = true ∧ (newBlock.timestamp : Int) - 15 > clock.upper then return some false
  if currentHighestBlock.timestamp + 32 < clock.stale ∧
      pkg.bn currentHighestBlock.totalDistance < pkg.bn newBlock.totalDistance then
    return some true
  return none

/-- The comparison made while `_chain` has fewer than two blocks. -/
def passesShortChain (pkg : Packages) (order : List Nat) (chain : List BcBlock)
    (newBlock currentHighestBlock : BcBlock) : StoreM Bool :=
  if chain.length < 2 ∧
      pkg.bn currentHighestBlock.totalDistance < pkg.bn newBlock.totalDistance then do
    let currentSum ← Async.ofExcept (childrenHeightSum currentHighestBlock >>= (newBN ·))
    let newSum ← Async.ofExcept (childrenHeightSum newBlock >>= (newBN ·))
    if currentSum < newSum then validateRoveredBlocks order newBlock
    else return false
  else return false

/-- The comparison made when the parent of the highest block is `null`.  There is
no `await` in front of `validateRoveredBlocks`. -/
def passesHiddenParent (pkg : Packages) (order : List Nat) (chain : List BcBlock)
    (newBlock currentHighestBlock : BcBlock) : Bool :=
  if parentHighestBlockIsNull chain = true ∧
      pkg.bn newBlock.totalDistance > pkg.bn currentHighestBlock.totalDistance ∧
      pkg.bn newBlock.difficulty > pkg.bn currentHighestBlock.difficulty then
    promiseIsTrue (validateRoveredBlocks order newBlock)
  else false

/-- The last comparison: which of the two blocks the store has rovered blocks
for. -/
def passesRoveredBlocks (pkg : Packages) (order order' : List Nat)
    (newBlock currentHighestBlock : BcBlock) : StoreM Bool :=
  if pkg.bn newBlock.totalDistance < pkg.bn currentHighestBlock.totalDistance then
    return false
  else do
    let newSum ← Async.ofExcept (childrenHeightSum newBlock)
    let currentSum ← Async.ofExcept (childrenHeightSum currentHighestBlock)
    if newSum ≤ currentSum then
      let passedNewBlock ← validateRoveredBlocks order newBlock
      if passedNewBlock = true then
        let passedOldBlock ← validateRoveredBlocks order' currentHighestBlock
        return !passedOldBlock
      else return false
    else return false

/-- The comparisons after `resyncScreen`, in turn. -/
def compareForResync (pkg : Packages) (order : Nat → List Nat) (chain : List BcBlock)
    (newBlock currentHighestBlock : BcBlock) : StoreM Bool := do
  let passed ← passesShortChain pkg (order 0) chain newBlock currentHighestBlock
  if passed = true then return true
  if passesHiddenParent pkg (order 1) chain newBlock currentHighestBlock then return true
  passesRoveredBlocks pkg (order 2) (order 3) newBlock currentHighestBlock

/-- `addResyncRequest`, where `order n` is the order of the reads of its `n`-th
`getBulk`. -/
def addResyncRequest (pkg : Packages) (clock : ResyncClock) (order : Nat → List Nat)
    (chain : List BcBlock) (newBlock : BcBlock) : StoreM Bool := do
  let syncLockActive ← Async.ofTask (isSyncLockActive clock.syncLock)
  if syncLockActive = true then return false
  let currentHighestBlock ← getBlock (.block .bc .latest)
  let validNewBlock ← Async.ofTask (isValidBlockCached pkg newBlock)
  let validCurrentBlock ← Async.ofTask (isValidBlockCached pkg currentHighestBlock)
  if validNewBlock = true ∧ validCurrentBlock = false then return true
  match ← Async.ofExcept
      (resyncScreen pkg clock chain newBlock currentHighestBlock) with
  | some answer => return answer
  | none => compareForResync pkg order chain newBlock currentHighestBlock

/-! ## What it reads from the store -/

/-- The lock is all that is ever reset. -/
theorem isSyncLockActive_frame (now : Nat) (store : Store) {key : Key}
    (hkey : key ≠ .synclock) :
    ((isSyncLockActive now).run store).2 key = store key := by
  simp only [isSyncLockActive, Task.run_bind, Task.run_read]
  split
  · rfl
  · split
    · exact Store.set_ne store hkey _
    · split <;> rfl

/-- The verdict of a call is that of the table in the store. -/
theorem isValidBlockCached_congr (pkg : Packages) (b : BcBlock) {store store' : Store}
    (h : verdicts store' = verdicts store) :
    ((isValidBlockCached pkg b).run store').1 =
      ((isValidBlockCached pkg b).run store).1 := by
  rw [(isValidBlockCached_run pkg b store').1, (isValidBlockCached_run pkg b store).1, h]

/-- Judging another block valid first does not make a valid block invalid, even
if the two share their hash. -/
theorem isValidBlockCached_after {pkg : Packages} {first second : BcBlock}
    {store : Store} (hfirst : ((isValidBlockCached pkg first).run store).1 = true)
    (hsecond : ((isValidBlockCached pkg second).run store).1 = true) :
    ((isValidBlockCached pkg second).run
      ((isValidBlockCached pkg first).run store).2).1 = true := by
  rw [(isValidBlockCached_run pkg second _).1, (isValidBlockCached_run pkg first store).2]
  rw [(isValidBlockCached_run pkg first store).1] at hfirst
  rw [(isValidBlockCached_run pkg second store).1] at hsecond
  rcases (validity pkg).call_after (verdicts store) first second with h | h
  · rw [h, hsecond]
  · rw [h, hfirst]

/-- A block whose height `bn.js` does not take is never judged valid. -/
theorem safe_of_cached {pkg : Packages} {b : BcBlock} {store : Store}
    (h : ((isValidBlockCached pkg b).run store).1 = true) : Safe b.height := by
  by_contra hunsafe
  have hlooked : ¬ LookedUp b := fun hlooked => hunsafe hlooked.2
  rw [isValidBlockCached_run_of_not pkg hlooked, verdict, isValidBlock_unsafe hunsafe] at h
  cases h

/-- **Past the verdicts.**  With a latest block that is judged valid, a call
answers as the lock, the screen and the comparisons say. -/
theorem addResyncRequest_exec (pkg : Packages) (clock : ResyncClock)
    (order : Nat → List Nat) (chain : List BcBlock) (newBlock : BcBlock)
    {latest : BcBlock} {store : Store}
    (hlatest : store (.block .bc .latest) = some (.bcBlock latest))
    (hvalid : ((isValidBlockCached pkg latest).run store).1 = true) :
    ∃ store', (Async.exec (addResyncRequest pkg clock order chain newBlock) store).1 =
      if ((isSyncLockActive clock.syncLock).run store).1 = true then .ok false
      else
        match resyncScreen pkg clock chain newBlock latest with
        | .error e => .error e
        | .ok (some answer) => .ok answer
        | .ok none =>
            (Async.exec (compareForResync pkg order chain newBlock latest) store').1 := by
  -- the three states the call passes through
  generalize hlocked : ((isSyncLockActive clock.syncLock).run store).2 = locked
  generalize hjudged : ((isValidBlockCached pkg newBlock).run locked).2 = judged
  have hframe {key : Key} (hkey : key ≠ .synclock) : locked key = store key := by
    rw [← hlocked]
    exact isSyncLockActive_frame clock.syncLock store hkey
  have hread : getBlockIn locked (.block .bc .latest) = .ok latest := by
    rw [getBlockIn_ok, hframe (by decide), hlatest]
  have hverdicts : verdicts locked = verdicts store := by
    funext hash
    rw [verdicts, verdicts, hframe (by simp)]
  have hcurrent : ((isValidBlockCached pkg newBlock).run locked).1 = true →
      ((isValidBlockCached pkg latest).run judged).1 = true := by
    intro hnew
    rw [← hjudged]
    apply isValidBlockCached_after hnew
    rw [isValidBlockCached_congr pkg latest hverdicts, hvalid]
  refine ⟨((isValidBlockCached pkg latest).run judged).2, ?_⟩
  simp only [addResyncRequest, Async.exec_bind, Async.exec_ofTask]
  by_cases hactive : ((isSyncLockActive clock.syncLock).run store).1 = true
  · rw [if_pos hactive, if_pos hactive]
    rfl
  · have hpasses : ¬ (((isValidBlockCached pkg newBlock).run locked).1 = true ∧
        ((isValidBlockCached pkg latest).run judged).1 = false) := by
      rintro ⟨hnew, hmalformed⟩
      rw [hcurrent hnew] at hmalformed
      cases hmalformed
    rw [if_neg hactive, if_neg hactive]
    simp only [hlocked, Async.exec_bind, exec_getBlock, hread, Async.exec_ofTask, hjudged,
      if_neg hpasses, Async.exec_ofExcept]
    cases resyncScreen pkg clock chain newBlock latest with
    | error e => rfl
    | ok screened =>
        cases screened with
        | some answer => rfl
        | none => rfl

/-- An approval of the screen, from a block above genesis, is for a stale latest
block of less total distance. -/
theorem resyncScreen_approved {pkg : Packages} {clock : ResyncClock}
    {chain : List BcBlock} {newBlock latest : BcBlock} (hchain : chain ≠ [])
    (hheight : 1 < latest.height)
    (h : resyncScreen pkg clock chain newBlock latest = .ok (some true)) :
    pkg.bn latest.totalDistance < pkg.bn newBlock.totalDistance := by
  have hlength : ¬ chain.length = 0 := by simpa using hchain
  have hgenesis : ¬ (latest.height = 1 ∧ newBlock.height > 1) := by omega
  unfold resyncScreen at h
  rw [if_neg hlength, if_neg hgenesis] at h
  obtain ⟨_, h⟩ := (ite_return_ok (by decide)).1 h
  obtain ⟨_, _, h⟩ := bind_ok.1 h
  obtain ⟨_, _, h⟩ := bind_ok.1 h
  obtain ⟨_, h⟩ := (ite_return_ok (by decide)).1 h
  obtain ⟨_, _, h⟩ := bind_ok.1 h
  obtain ⟨_, h⟩ := (ite_return_ok (by decide)).1 h
  by_cases hstale : latest.timestamp + 32 < clock.stale ∧
      pkg.bn latest.totalDistance < pkg.bn newBlock.totalDistance
  · exact hstale.2
  · rw [if_neg hstale] at h
    cases h

/-- An approval of the comparisons is never for less total distance. -/
theorem compareForResync_approved {pkg : Packages} {order : Nat → List Nat}
    {chain : List BcBlock} {newBlock latest : BcBlock} {store : Store}
    (h : (Async.exec (compareForResync pkg order chain newBlock latest) store).1 =
      .ok true) :
    pkg.bn latest.totalDistance ≤ pkg.bn newBlock.totalDistance := by
  by_contra hless
  have hshort : passesShortChain pkg (order 0) chain newBlock latest = pure false := by
    rw [passesShortChain, if_neg]
    omega
  have hhidden : passesHiddenParent pkg (order 1) chain newBlock latest = false := by
    rw [passesHiddenParent, if_neg]
    omega
  have hrovered : passesRoveredBlocks pkg (order 2) (order 3) newBlock latest =
      pure false := by
    rw [passesRoveredBlocks, if_pos]
    omega
  rw [compareForResync, hshort, hhidden, hrovered] at h
  cases h

/-- **A resync never downgrades.**  Whatever the store holds beside a valid latest
block above genesis, an approved block has at least its total distance. -/
theorem addResyncRequest_totalDistance_le (pkg : Packages) (clock : ResyncClock)
    (order : Nat → List Nat) {chain : List BcBlock} (hchain : chain ≠ [])
    {newBlock latest : BcBlock} {store : Store}
    (hlatest : store (.block .bc .latest) = some (.bcBlock latest))
    (hheight : 1 < latest.height)
    (hvalid : ((isValidBlockCached pkg latest).run store).1 = true)
    (h : (Async.exec (addResyncRequest pkg clock order chain newBlock) store).1 =
      .ok true) :
    pkg.bn latest.totalDistance ≤ pkg.bn newBlock.totalDistance := by
  obtain ⟨store', hexec⟩ := addResyncRequest_exec pkg clock order chain newBlock
    hlatest hvalid
  rw [hexec] at h
  split at h
  · cases h
  · split at h
    · cases h
    · next answer hscreen =>
        cases h
        exact Int.le_of_lt (resyncScreen_approved hchain hheight hscreen)
    · exact compareForResync_approved h

/-- The sample's latest block is half a minute old when its successor arrives. -/
def sampleStaleClock : ResyncClock where
  syncLock := 1020
  lower := 1012
  upper := 1012
  stale := 1033

theorem addResyncRequest_totalDistance_le_sample :
    (Async.exec (addResyncRequest samplePackages sampleStaleClock (fun _ => [])
      [samplePrevious] sampleNextBlock) (sampleStore sampleParent)).1 = .ok true ∧
    samplePackages.bn samplePrevious.totalDistance ≤
      samplePackages.bn sampleNextBlock.totalDistance := by
  have happroved : (Async.exec (addResyncRequest samplePackages sampleStaleClock
      (fun _ => []) [samplePrevious] sampleNextBlock) (sampleStore sampleParent)).1 =
        .ok true := by decide +kernel
  exact ⟨happroved, addResyncRequest_totalDistance_le samplePackages sampleStaleClock
    (fun _ => []) (List.cons_ne_nil _ _) (sampleStore_latest sampleParent) (by decide)
    (by decide +kernel) happroved⟩

/-! ## The better chain -/

/-- A valid block of a chain that is better than the node's own in every respect
the code compares, with all its child headers known, while no sync is going on. -/
structure BetterChain (pkg : Packages) (chain : List BcBlock)
    (newBlock latest : BcBlock) (store : Store) : Prop where
  two_blocks : 2 ≤ chain.length
  synclock : store .synclock = some (.bcBlock getGenesisBlock)
  stored : store (.block .bc .latest) = some (.bcBlock latest)
  height : 1 < latest.height
  hash_ne : newBlock.hash ≠ latest.hash
  newBlock_valid : ((isValidBlockCached pkg newBlock).run store).1 = true
  latest_valid : ((isValidBlockCached pkg latest).run store).1 = true
  totalDistance : pkg.bn latest.totalDistance < pkg.bn newBlock.totalDistance
  difficulty : pkg.bn latest.difficulty < pkg.bn newBlock.difficulty
  sums : ∃ newSum latestSum, childrenHeightSum newBlock = .ok newSum ∧
    childrenHeightSum latest = .ok latestSum ∧ latestSum < newSum
  rovered : ∃ headers, newBlock.getBlockchainHeaders = .ok headers ∧
    ∀ header ∈ headers.lists.flatten,
      (store (blockKey header.blockchain (.height header.height))).isSome = true

/-- Within 15 seconds of local time. -/
def InTime (clock : ResyncClock) (newBlock : BcBlock) : Prop :=
  clock.lower ≤ newBlock.timestamp + 15 ∧ newBlock.timestamp ≤ clock.upper + 15

instance (clock : ResyncClock) (newBlock : BcBlock) : Decidable (InTime clock newBlock) :=
  inferInstanceAs (Decidable (_ ∧ _))

/-- More than 32 seconds old. -/
def Stale (clock : ResyncClock) (latest : BcBlock) : Prop :=
  latest.timestamp + 32 < clock.stale

instance (clock : ResyncClock) (latest : BcBlock) : Decidable (Stale clock latest) :=
  inferInstanceAs (Decidable (_ < _))

/-- The screen of a block that is the better one.  A `BN` that is compared with a
plain number is the greater of the two, so the time is looked at whatever the
height. -/
theorem resyncScreen_better {pkg : Packages} {clock : ResyncClock}
    {chain : List BcBlock} {newBlock latest : BcBlock} {store : Store}
    (h : BetterChain pkg chain newBlock latest store) :
    resyncScreen pkg clock chain newBlock latest =
      .ok (if ¬ InTime clock newBlock then some false
        else if Stale clock latest then some true else none) := by
  have hlength : ¬ chain.length = 0 := by
    have := h.two_blocks
    omega
  have hgenesis : ¬ (latest.height = 1 ∧ newBlock.height > 1) := by
    have := h.height
    omega
  have hsafe : Safe newBlock.height := safe_of_cached h.newBlock_valid
  unfold resyncScreen
  rw [if_neg hlength, if_neg hgenesis, if_neg h.hash_ne, newBN_safe hsafe]
  simp only [bind, Except.bind, bnGtNumber_natCast]
  by_cases hlower : newBlock.timestamp + 15 < clock.lower
  · have hlate : ¬ InTime clock newBlock := fun ht => by
      have := ht.1
      omega
    rw [if_pos hlate]
    simp [hlower, pure, Except.pure]
  · by_cases hupper : (newBlock.timestamp : Int) - 15 > clock.upper
    · have hearly : ¬ InTime clock newBlock := fun ht => by
        have := ht.2
        omega
      rw [if_pos hearly]
      simp [hlower, hupper, pure, Except.pure]
    · have htime : InTime clock newBlock := ⟨by omega, by omega⟩
      rw [if_neg (not_not.2 htime)]
      by_cases hstale : latest.timestamp + 32 < clock.stale
      · have hs : Stale clock latest := hstale
        simp [hlower, hupper, hstale, hs, h.totalDistance, pure,
          Except.pure]
      · have hs : ¬ Stale clock latest := hstale
        simp [hlower, hupper, hstale, hs, pure, Except.pure]

/-- With a hidden parent the comparisons refuse the better block: the one that is
made for it looks at a promise. -/
theorem compareForResync_better {pkg : Packages} {order : Nat → List Nat}
    {chain : List BcBlock} {newBlock latest : BcBlock} {store : Store} (store' : Store)
    (h : BetterChain pkg chain newBlock latest store) :
    (Async.exec (compareForResync pkg order chain newBlock latest) store').1 =
      .ok false := by
  obtain ⟨newSum, latestSum, hnew, hlatest, hless⟩ := h.sums
  have hshort : passesShortChain pkg (order 0) chain newBlock latest = pure false := by
    have := h.two_blocks
    rw [passesShortChain, if_neg]
    omega
  have hhidden : passesHiddenParent pkg (order 1) chain newBlock latest = false := by
    simp only [passesHiddenParent, promiseIsTrue, ite_self]
  have hdistance : ¬ pkg.bn newBlock.totalDistance < pkg.bn latest.totalDistance := by
    have := h.totalDistance
    omega
  have hsum : ¬ newSum ≤ latestSum := by omega
  have hrovered : passesRoveredBlocks pkg (order 2) (order 3) newBlock latest =
      pure false := by
    rw [passesRoveredBlocks, if_neg hdistance, hnew, hlatest]
    simp only [Async.ofExcept_ok_bind, if_neg hsum]
  rw [compareForResync, hshort, hhidden, hrovered]
  rfl

theorem isSyncLockActive_genesis (now : Nat) {store : Store}
    (h : store .synclock = some (.bcBlock getGenesisBlock)) :
    ((isSyncLockActive now).run store).1 = false := by
  simp only [isSyncLockActive, Task.run_bind, Task.run_read, getBlockIn_of_some h]
  rfl

/-- **When the better chain is approved.**  The new block has to be in time at any
height, and the latest block stale. -/
theorem addResyncRequest_better_iff {pkg : Packages} (clock : ResyncClock)
    (order : Nat → List Nat) {chain : List BcBlock} {newBlock latest : BcBlock}
    {store : Store} (h : BetterChain pkg chain newBlock latest store) :
    (Async.exec (addResyncRequest pkg clock order chain newBlock) store).1 = .ok true ↔
      InTime clock newBlock ∧ Stale clock latest := by
  obtain ⟨store', hexec⟩ := addResyncRequest_exec pkg clock order chain newBlock
    h.stored h.latest_valid
  have hlock : ¬ ((isSyncLockActive clock.syncLock).run store).1 = true := by
    rw [isSyncLockActive_genesis clock.syncLock h.synclock]
    decide
  rw [hexec, if_neg hlock, resyncScreen_better h]
  by_cases htime : InTime clock newBlock
  · by_cases hstale : Stale clock latest
    · simp [htime, hstale]
    · simp [htime, hstale, compareForResync_better store' h]
  · simp [htime]

/-- A rival of the sample's next block with more work in it. -/
def sampleBetter : BcBlock :=
  { sampleNextBlock with hash := "b2", difficulty := "300000000000001" }

/-- The sample's store with all child headers of the rival. -/
def sampleRoveredStore : Store :=
  (sampleHeaders 1000000 1000000 11).lists.flatten.foldl
    (fun store header =>
      store.set (blockKey header.blockchain (.height header.height)) (.header header))
    (sampleStore sampleParent)

theorem sampleBetter_betterChain :
    BetterChain samplePackages [samplePrevious, sampleParent] sampleBetter samplePrevious
      sampleRoveredStore where
  two_blocks := by decide
  synclock := by decide +kernel
  stored := by decide +kernel
  height := by decide
  hash_ne := by decide +kernel
  newBlock_valid := by decide +kernel
  latest_valid := by decide +kernel
  totalDistance := by decide +kernel
  difficulty := by decide +kernel
  sums := ⟨55, 50, by decide +kernel, by decide +kernel, by decide⟩
  rovered := ⟨sampleNextBlock.blockchainHeaders.getD {}, by decide +kernel,
    by decide +kernel⟩

theorem addResyncRequest_better_iff_sample :
    (Async.exec (addResyncRequest samplePackages sampleStaleClock (fun _ => [])
      [samplePrevious, sampleParent] sampleBetter) sampleRoveredStore).1 = .ok true :=
  (addResyncRequest_better_iff sampleStaleClock (fun _ => [])
    sampleBetter_betterChain).2 ⟨by decide, by decide⟩

/-- The better chain is refused while the latest block is fresh, although all its
child headers are known. -/
theorem addResyncRequest_refuses_better :
    BetterChain samplePackages [samplePrevious, sampleParent] sampleBetter samplePrevious
      sampleRoveredStore ∧
    sampleBetter.height ≤ 100000 ∧ InTime ⟨1012, 1012, 1012, 1012⟩ sampleBetter ∧
    (Async.exec (addResyncRequest samplePackages ⟨1012, 1012, 1012, 1012⟩ (fun _ => [])
      [samplePrevious, sampleParent] sampleBetter) sampleRoveredStore).1 = .ok false := by
  refine ⟨sampleBetter_betterChain, ?_, ?_, ?_⟩
  · decide +kernel
  · decide +kernel
  · decide +kernel

end BcNode.Bc
