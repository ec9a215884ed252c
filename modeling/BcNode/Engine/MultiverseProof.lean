import BcNode.Engine.Peers

/-!
# A peer's proof of its multiverse

`getMultiverseHandler` receives the blocks a peer has sent for its multiverse.  What
follows its first `try` compares the highest of them with the head of `_chain`, and
replaces the list and stores the blocks if it weighs more.  But the `try`, which only
logs, returns.

The handler is translated as a whole: `endMining` is the `try`, `compareMultiverse`
everything after it.  `compareMultiverse_adopts` says that this part does what a
proof is for, and `handler_adopts_iff` what is left of that.
-/

namespace BcNode.Engine

open BcNode.Verified BcNode.Js BcNode.Protos BcNode.Mining BcNode.Bc BcNode.Persistence
open BcNode.P2p

/-! ## Storing a sequence -/

/-- What the handler uses besides the blocks and the node: the time and, for
`syncSetBlocksInline`, what the store has under `pending.bc.block.` for the highest
block, and the order of the writes. -/
structure ProofEnv where
  pkg : Packages
  now : Nat
  pending : Option BcBlock := none
  order : List Nat := []

/-- `validateBlockSequenceInline`, with the array as it leaves it: sorted, and with
the pending block in front.  `lowerBound === 1` compares a block with a number. -/
def validateBlockSequenceInline (pending : Option BcBlock) (blocks : List BcBlock) :
    Except JsError (Bool × List BcBlock) :=
  let sorted := sortDescending (·.height) blocks
  match sorted.head? with
  | none => .ok (false, blocks)
  | some upperBound =>
      match pending with
      | none => .ok (true, sorted)
      | some upperBoundChild =>
          if upperBound.hash ≠ upperBoundChild.previousHash then
            .error (.error "pending block does not match purposed block")
          else .ok (true, upperBoundChild :: sorted)

/-- The first half of `syncSetBlocksInline`: the blocks that are to be stored. -/
def blocksToStore (pending : Option BcBlock) (blocks : List BcBlock) :
    Except JsError (List BcBlock) :=
  if blocks.length < 100 then do
    let (valid, blocks) ← validateBlockSequenceInline pending blocks
    if valid then return blocks
    throw (.error "invalid sequence of blocks")
  else return blocks

/-- `syncSetBlocksInline`, without a `blockKey`. -/
def syncSetBlocksInline (env : ProofEnv) (blocks : List BcBlock) : StoreM Nat := do
  let blocks ← Async.ofExcept (blocksToStore env.pending blocks)
  let tasks := blocks.map fun item =>
    put (.block .bc (.height item.height)) (.bcBlock item)
  let _ ← Async.ofTask (Task.all env.order tasks)
  return tasks.length

/-! ## The handler -/

/-- `getLowestBlock().getHeight() - 1 < 2`, of a list that is not empty. -/
def needsNoSync (chain : List BcBlock) : Bool :=
  match chain.getLast? with
  | some lowest => lowest.height - 1 < 2
  | none => true

/-- The blocks become the multiverse.  `_chain` changes first; `hasBlock` has been
asked before. -/
def adoptMultiverse (env : ProofEnv) (conn : Peer) (sorted : List BcBlock)
    (newBlock : BcBlock) (node : Node) : List EngineEvent × Node :=
  let hasBlock := node.chain.any (·.hash == newBlock.hash)
  match Async.exec (syncSetBlocksInline env sorted) node.store with
  | (.error _, store) => ([], { chain := sorted, store })
  | (.ok _, store) =>
      let store := store.set .depth (.number newBlock.height)
      if hasBlock then
        ([], { chain := sorted, store := store.set .synclock (.bcBlock getGenesisBlock) })
      else
        let (lock, store) := (isSyncLockActive env.now).run store
        let events : List EngineEvent :=
          [.updateLatest { data := newBlock, force := true, multiverse := some sorted },
            .announceblock newBlock]
        if lock then (events, { chain := sorted, store })
        else
          let request : BlockListRequest :=
            { connction := .undefined
              data := some { low := max 2 ((newBlock.height : Int) - 500)
                             high := max 3 newBlock.height }
              connection := conn }
          (if needsNoSync sorted then events else events ++ [.getblocklist request],
            { chain := sorted, store := store.set .synclock (.bcBlock newBlock) })

/-- Whether the new blocks are approved, by the highest of them and the head of the
multiverse. -/
def approves (pkg : Packages) (newBlock highestBlock : BcBlock) : Bool :=
  highestBlock.hash == newBlock.hash ||
    decide (pkg.bn newBlock.totalDistance > pkg.bn highestBlock.totalDistance)

/-- What a call returns. -/
inductive Returned where
  | value (b : Bool)
  | promise
  deriving DecidableEq, Repr

/-- `getMultiverseHandler` after its first `try`.  Without a head there is nothing to
take a hash of.  The heights are taken to be `Safe`; otherwise the sort throws. -/
def compareMultiverse (env : ProofEnv) (conn : Peer) (newBlocks : Option (List BcBlock))
    (node : Node) : Except JsError Returned × List EngineEvent × Node :=
  match newBlocks with
  | none => (.ok (.value true), [], node)
  | some newBlocks =>
      if newBlocks.length < 7 then (.ok (.value true), [], node)
      else
        let sorted := sortDescending (·.height) newBlocks
        match sorted.head?, getHighestBlock node.chain with
        | some newBlock, some highestBlock =>
            if approves env.pkg newBlock highestBlock then
              (.ok .promise, adoptMultiverse env conn sorted newBlock node)
            else
              (.ok .promise, [],
                { node with store := node.store.set .synclock (.bcBlock getGenesisBlock) })
        | _, _ => (.error .typeError, [], node)

/-- The first `try`: `this._logger.info('end mining')`, and a `return`. -/
def endMining : Except JsError Bool := .ok true

/-- `getMultiverseHandler`. -/
def getMultiverseHandler (env : ProofEnv) (conn : Peer) (newBlocks : Option (List BcBlock))
    (node : Node) : Except JsError Returned × List EngineEvent × Node :=
  match endMining with
  | .ok returned => (.ok (.value returned), [], node)
  | .error _ => compareMultiverse env conn newBlocks node

/-! ## What a proof is for -/

/-- The highest block received. -/
def highestReceived (newBlocks : List BcBlock) : Option BcBlock :=
  (sortDescending (·.height) newBlocks).head?

/-- The highest block received weighs more than the head of the multiverse. -/
def Outweighed (pkg : Packages) (newBlocks chain : List BcBlock) : Prop :=
  ∃ newBlock ∈ highestReceived newBlocks, ∃ highestBlock ∈ getHighestBlock chain,
    pkg.bn newBlock.totalDistance > pkg.bn highestBlock.totalDistance

/-- The highest block received is another one than the head, and weighs less. -/
def Inferior (pkg : Packages) (newBlocks chain : List BcBlock) : Prop :=
  ∃ newBlock ∈ highestReceived newBlocks, ∃ highestBlock ∈ getHighestBlock chain,
    pkg.bn newBlock.totalDistance < pkg.bn highestBlock.totalDistance ∧
      newBlock.hash ≠ highestBlock.hash

/-- A better multiverse is adopted and stored, a worse one changes nothing. -/
structure Adopts (pkg : Packages) (newBlocks : List BcBlock) (before after : Node) :
    Prop where
  better : Outweighed pkg newBlocks before.chain →
    after.chain = sortDescending (·.height) newBlocks ∧
      ∀ b ∈ newBlocks, after.store (.block .bc (.height b.height)) = some (.bcBlock b)
  worse : Inferior pkg newBlocks before.chain →
    after.chain = before.chain ∧
      ∀ n, after.store (.block .bc (.height n)) = before.store (.block .bc (.height n))

/-! ## Behind the `return` -/

/-- Blocks with heights of their own are all stored, in every order. -/
theorem put_all_stored {blocks : List BcBlock} (hdistinct : (blocks.map (·.height)).Nodup)
    (order : List Nat) (s : Store) :
    ∀ b ∈ blocks, ((Task.all order (blocks.map fun item =>
      put (.block .bc (.height item.height)) (.bcBlock item))).run s).2
        (.block .bc (.height b.height)) = some (.bcBlock b) := by
  let Stored (b : BcBlock) (s : Store) : Prop :=
    s (.block .bc (.height b.height)) = some (.bcBlock b)
  let R (s s' : Store) : Prop := ∀ b ∈ blocks, Stored b s → Stored b s'
  have hput : ∀ item ∈ blocks, ∀ s : Store,
      R s (s.set (.block .bc (.height item.height)) (.bcBlock item)) := by
    intro item hitem s b hb hstored
    by_cases hheight : b.height = item.height
    · rw [List.inj_on_of_nodup_map hdistinct hb hitem hheight]
      exact Store.set_self ..
    · exact (Store.set_ne s (by simpa using hheight) _).trans hstored
  have hsafe : ∀ item ∈ blocks, Task.Safe R (fun _ s' => item ∈ blocks → Stored item s')
      (put (.block .bc (.height item.height)) (.bcBlock item)) s := by
    intro item hitem
    exact Task.Safe.modify (I := fun s' => item ∈ blocks → Stored item s')
      (fun _ _ h h' hmem => h item hmem (h' hmem))
      fun s' _ => ⟨hput item hitem s', fun _ => Store.set_self ..⟩
  have hrefl (s : Store) : R s s := fun _ _ => id
  have hall := (Task.Safe.all_map hrefl (fun _ _ _ h h' b hb => h' b hb ∘ h b hb)
    (fun item _ _ h h' hmem => h item hmem (h' hmem)) order hsafe).run hrefl
  exact fun b hb => hall b hb hb

/-- Without a pending block the blocks to store are those received. -/
theorem blocksToStore_perm {blocks : List BcBlock} (hne : blocks ≠ []) :
    ∃ stored, blocksToStore none blocks = .ok stored ∧ stored.Perm blocks := by
  unfold blocksToStore validateBlockSequenceInline
  have hperm := sortDescending_perm (·.height) blocks
  split
  · cases hhead : (sortDescending (·.height) blocks).head? with
    | none =>
        rw [List.head?_eq_none_iff.1 hhead] at hperm
        exact absurd hperm.symm.eq_nil hne
    | some upperBound =>
        refine ⟨_, ?_, hperm⟩
        simp only [hhead]
        rfl
  · exact ⟨blocks, rfl, List.Perm.refl _⟩

/-- Where it does not fail, `syncSetBlocksInline` stores the blocks. -/
theorem syncSetBlocksInline_exec {env : ProofEnv} {blocks : List BcBlock} (s : Store)
    (hpending : env.pending = none) (hne : blocks ≠ [])
    (hdistinct : (blocks.map (·.height)).Nodup) :
    ∃ count store, Async.exec (syncSetBlocksInline env blocks) s = (.ok count, store) ∧
      ∀ b ∈ blocks, store (.block .bc (.height b.height)) = some (.bcBlock b) := by
  obtain ⟨stored, hstored, hperm⟩ := blocksToStore_perm hne
  have hall := put_all_stored ((hperm.map (·.height)).nodup_iff.2 hdistinct) env.order s
  unfold syncSetBlocksInline
  rw [hpending, hstored, Async.exec_bind, Async.exec_ofExcept]
  dsimp only
  rw [Async.exec_bind, Async.exec_ofTask]
  exact ⟨_, _, rfl, fun b hb => hall b (hperm.mem_iff.2 hb)⟩

/-- The lock is not among the blocks. -/
theorem set_synclock_height (s : Store) (value : Value) (n : Nat) :
    s.set .synclock value (.block .bc (.height n)) = s (.block .bc (.height n)) :=
  Store.set_ne s (by simp) value

/-- Adopting replaces `_chain` and keeps what `syncSetBlocksInline` has stored. -/
theorem adoptMultiverse_stores {env : ProofEnv} {conn : Peer} {sorted : List BcBlock}
    (newBlock : BcBlock) (node : Node) (hpending : env.pending = none) (hne : sorted ≠ [])
    (hdistinct : (sorted.map (·.height)).Nodup) :
    (adoptMultiverse env conn sorted newBlock node).2.chain = sorted ∧
      ∀ b ∈ sorted, (adoptMultiverse env conn sorted newBlock node).2.store
        (.block .bc (.height b.height)) = some (.bcBlock b) := by
  obtain ⟨count, store, hexec, hstored⟩ :=
    syncSetBlocksInline_exec node.store hpending hne hdistinct
  have hdepth (b : BcBlock) (hb : b ∈ sorted) : (store.set .depth (.number newBlock.height))
      (.block .bc (.height b.height)) = some (.bcBlock b) := by
    rw [Store.set_ne _ (by simp)]
    exact hstored b hb
  unfold adoptMultiverse
  rw [hexec]
  dsimp only
  split
  · refine ⟨rfl, fun b hb => ?_⟩
    exact Eq.trans (set_synclock_height _ (.bcBlock getGenesisBlock) _) (hdepth b hb)
  · have hlock (b : BcBlock) (hb : b ∈ sorted) :=
      (@isSyncLockActive_frame env.now (store.set .depth (.number newBlock.height))
        (.block .bc (.height b.height)) (by simp)).trans (hdepth b hb)
    split
    · exact ⟨rfl, hlock⟩
    · refine ⟨rfl, fun b hb => ?_⟩
      exact Eq.trans (set_synclock_height _ (.bcBlock newBlock) _) (hlock b hb)

/-- **Behind the `return`.**  The rest of the handler adopts a better multiverse and
nothing but a better one, for any proof of seven blocks. -/
theorem compareMultiverse_adopts (env : ProofEnv) (conn : Peer) {newBlocks : List BcBlock}
    (before : Node) (hpending : env.pending = none) (hlength : 7 ≤ newBlocks.length)
    (hdistinct : (newBlocks.map (·.height)).Nodup) :
    Adopts env.pkg newBlocks before
      (compareMultiverse env conn (some newBlocks) before).2.2 := by
  have hperm := sortDescending_perm (·.height) newBlocks
  have hne : sortDescending (·.height) newBlocks ≠ [] := by
    intro hnil
    have hlen := hperm.length_eq
    rw [hnil, List.length_nil] at hlen
    omega
  have hlong : ¬ newBlocks.length < 7 := by omega
  simp only [compareMultiverse, if_neg hlong]
  constructor
  · rintro ⟨newBlock, hnewBlock, highestBlock, hhighest, hgt⟩
    have hhead : (sortDescending (·.height) newBlocks).head? = some newBlock := hnewBlock
    rw [hhead, Option.mem_def.1 hhighest]
    have happroves : approves env.pkg newBlock highestBlock = true := by
      simp [approves, hgt]
    dsimp only
    rw [if_pos happroves]
    obtain ⟨hchain, hstored⟩ := adoptMultiverse_stores newBlock before hpending hne
      ((hperm.map (·.height)).nodup_iff.2 hdistinct)
    exact ⟨hchain, fun b hb => hstored b (hperm.mem_iff.2 hb)⟩
  · rintro ⟨newBlock, hnewBlock, highestBlock, hhighest, hlt, hhash⟩
    have hhead : (sortDescending (·.height) newBlocks).head? = some newBlock := hnewBlock
    rw [hhead, Option.mem_def.1 hhighest]
    have hrefused : approves env.pkg newBlock highestBlock = false := by
      simp [approves, Ne.symm hhash, Int.le_of_lt hlt]
    dsimp only
    rw [hrefused]
    refine ⟨rfl, fun n => ?_⟩
    exact set_synclock_height before.store (.bcBlock getGenesisBlock) n

/-! ## In front of it -/

/-- **What the handler does with a proof.**  It ends before it looks at the blocks, so
it treats them as it should exactly if they do not outweigh the multiverse. -/
theorem handler_adopts_iff (env : ProofEnv) (conn : Peer) (newBlocks : List BcBlock)
    (before : Node) :
    Adopts env.pkg newBlocks before
        (getMultiverseHandler env conn (some newBlocks) before).2.2 ↔
      ¬ Outweighed env.pkg newBlocks before.chain := by
  constructor
  · rintro hadopts houtweighed
    obtain ⟨hchain, _⟩ := hadopts.better houtweighed
    obtain ⟨newBlock, hnewBlock, highestBlock, hhighest, hgt⟩ := houtweighed
    -- the list that should be the new one is the old one, and so is its head
    have hhead : getHighestBlock before.chain = highestReceived newBlocks :=
      congrArg List.head? hchain
    rw [hhead, Option.mem_def.1 hnewBlock] at hhighest
    cases hhighest
    exact absurd hgt (Int.lt_irrefl _)
  · intro hnot
    exact ⟨fun houtweighed => absurd houtweighed hnot, fun _ => ⟨rfl, fun _ => rfl⟩⟩

/-- Seven blocks that weigh more than the sample's previous block. -/
def sampleProof : List BcBlock :=
  (List.range 7).map fun i =>
    { samplePrevious with
      hash := "p" ++ toString i
      height := 6 + i
      totalDistance := toString (3000000000000000 + i) }

/-- A better multiverse is not adopted. -/
theorem better_multiverse_ignored :
    ¬ ∀ (env : ProofEnv) (conn : Peer) (newBlocks : List BcBlock) (before : Node),
      7 ≤ newBlocks.length → (newBlocks.map (·.height)).Nodup →
      Adopts env.pkg newBlocks before
        (getMultiverseHandler env conn (some newBlocks) before).2.2 := by
  intro hall
  have hadopts := hall { pkg := samplePackages, now := 0 } .undefined sampleProof
    (sampleNode sampleParent) (by decide) (by decide)
  have houtweighed : Outweighed samplePackages sampleProof
      (sampleNode sampleParent).chain := by
    unfold Outweighed
    decide +kernel
  have hchain := congrArg List.length (hadopts.better houtweighed).1
  exact absurd hchain (by decide +kernel)

end BcNode.Engine
