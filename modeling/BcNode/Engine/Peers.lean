import BcNode.Bc.Resync
import BcNode.Engine.Commit
import BcNode.P2p.Node
import BcNode.Verified.Lru

/-!
# Blocks from peers

Two handlers of the engine.  `blockFromPeer` takes a block out of a `putblock`
event: the block becomes the next one, or the node asks the sender for its chain, or
it sends the sender something better.  `stepSyncHandler` takes the lowest block of a
list and asks for the blocks below it.

Both answer through events, whose listeners are in `P2p.Node`, and through both the
connection the block came from has to travel.  `eventWrites` is the way from an event
to the sockets.
-/

namespace BcNode.Engine

open BcNode.Verified BcNode.Js BcNode.Protos BcNode.Mining BcNode.Bc BcNode.Persistence
open BcNode.P2p

/-! ## Events of the engine -/

/-- The window of a backwards sync. -/
structure SyncWindow where
  low : Int
  high : Int
  deriving DecidableEq, Repr

/-- The payload of `getblocklist`: what `stepSyncHandler` puts into it and what the
listener reads. -/
structure BlockListRequest where
  connction : Peer
  data : Option SyncWindow
  low : Scalar := .undefined
  high : Scalar := .undefined
  connection : Peer := .undefined
  deriving DecidableEq, Repr

/-- What the two handlers set off. -/
inductive EngineEvent where
  | getmultiverse (request : MultiverseRequest)
  | sendblock (data : BcBlock) (connection : Peer)
  | announceblock (data : BcBlock)
  | getblocklist (request : BlockListRequest)
  | synccomplete
  | updateLatest (msg : UpdateMsg)
  | putChildHeaders (block : BcBlock)
  deriving DecidableEq, Repr

/-- The listener of `getblocklist`. -/
def getblocklist (request : BlockListRequest) : List Write :=
  (qsend request.connection (rangeRequest .r0006 request.low request.high)).2

/-- What the listeners write for an event. -/
def eventWrites (wire : Wire) (order : List Nat) (connections : List Connection)
    (store : Store) : EngineEvent → List Write
  | .getmultiverse request => getmultiverse request
  | .sendblock data connection =>
      (Async.exec (sendblock wire order data connection) store).1.toOption.getD []
  | .announceblock data =>
      (Async.exec (announceblock wire order connections data) store).1.toOption.getD []
  | .getblocklist request => getblocklist request
  | .synccomplete | .updateLatest _ | .putChildHeaders _ => []

/-! ## `blockFromPeer` -/

/-- `_knownBlocksCache`, the most recently used hash first.  A `get` that finds the hash
is a use, and so is a `set`. -/
abbrev KnownBlocks := List String

/-- `config.engine.knownBlocksCache.max`. -/
def KNOWN_BLOCKS_MAX : Nat := 1024

/-- What the engine works on. -/
structure EngineState where
  known : KnownBlocks
  node : Node

/-- What the decisions about a block use besides the state. -/
structure PeerEnv where
  pkg : Packages
  lru : LruCache
  now : Nat
  clock : ResyncClock
  order : Nat → List Nat

/-- What follows from the answer of `addResyncRequest`: the node asks for the blocks
below the new one, or sends it back. -/
def resyncEvents (conn : Peer) (newBlock : BcBlock) : Except JsError Bool → List EngineEvent
  | .error _ => []
  | .ok true =>
      [.getmultiverse { low := newBlock.height - 7, high := newBlock.height,
                        connection := conn },
        .updateLatest { data := newBlock, force := true }, .putChildHeaders newBlock]
  | .ok false => [.sendblock newBlock conn]

/-- `blockFromPeer`, once the block is known to be valid. -/
def proposeBlock (env : PeerEnv) (conn : Peer) (newBlock : BcBlock) (node : Node) :
    List EngineEvent × Node :=
  match addNextBlock env.pkg env.now newBlock node with
  | (.error _, node) => ([], node)
  | (.ok true, node) =>
      ([.updateLatest { data := newBlock }, .announceblock newBlock], node)
  | (.ok false, node) =>
      let (shouldResync, store) :=
        Async.exec (addResyncRequest env.pkg env.clock env.order node.chain newBlock)
          node.store
      (resyncEvents conn newBlock shouldResync, { node with store })

/-- `blockFromPeer`. -/
def blockFromPeer (env : PeerEnv) (conn : Peer) (newBlock : BcBlock)
    (state : EngineState) : List EngineEvent × EngineState :=
  if state.known.contains newBlock.hash then
    ([], { state with known := env.lru.use KNOWN_BLOCKS_MAX state.known newBlock.hash })
  else
    let known := env.lru.use KNOWN_BLOCKS_MAX state.known newBlock.hash
    let (valid, store) := (isValidBlockCached env.pkg newBlock).run state.node.store
    let node := { state.node with store }
    if valid = true then
      let (events, node) := proposeBlock env conn newBlock node
      (events, { known, node })
    else ([], { known, node })

/-- The listener of `putblock`, which passes the event where `blockFromPeer` expects
the connection. -/
def putblock (env : PeerEnv) (msg : PutBlock) (state : EngineState) :
    List EngineEvent × EngineState :=
  blockFromPeer env (.putblock msg) msg.data state

/-! ## `stepSyncHandler` -/

/-- `stepSyncHandler`, given the lowest block of the list and the connection it came
from. -/
def stepSyncHandler (low : Option BcBlock) (connection : Connection) :
    StoreM (List EngineEvent) := do
  let data ← Async.ofExcept (low.elim (throw .typeError) pure)
  if data.height < 3 then
    putBlock .synclock getGenesisBlock
    return [.synccomplete]
  else
    putBlock .synclock data
    let high : Int := max 3 data.height
    let low : Int := max 2 (high - 500)
    return [.getblocklist { connction := .connection connection,
                            data := some { low, high } }]

/-! ## The answer to a rejected block -/

/-- The state in which `addNextBlock` decides about a block. -/
def EngineState.judged (state : EngineState) (pkg : Packages) (newBlock : BcBlock) : Node :=
  { state.node with store := ((isValidBlockCached pkg newBlock).run state.node.store).2 }

/-- The state in which `addResyncRequest` decides about a block. -/
def EngineState.proposed (state : EngineState) (env : PeerEnv) (newBlock : BcBlock) : Node :=
  (addNextBlock env.pkg env.now newBlock (state.judged env.pkg newBlock)).2

/-- A new and valid block that `addNextBlock` rejects, and what `addResyncRequest`
says about it. -/
structure Rejected (env : PeerEnv) (newBlock : BcBlock) (state : EngineState)
    (approved : Bool) : Prop where
  unseen : newBlock.hash ∉ state.known
  valid : ((isValidBlockCached env.pkg newBlock).run state.node.store).1 = true
  rejected : (addNextBlock env.pkg env.now newBlock (state.judged env.pkg newBlock)).1 =
    .ok false
  resync : (Async.exec (addResyncRequest env.pkg env.clock env.order
    (state.proposed env newBlock).chain newBlock) (state.proposed env newBlock).store).1 =
      .ok approved

/-- What the sender of a rejected block should get: a request for the eight heights up
to its block, or the node's own latest block with its multiverse. -/
def Answered (wire : Wire) (order : List Nat) (conn : Connection) (newBlock : BcBlock)
    (approved : Bool) (store : Store) (writes : List Write) : Prop :=
  if approved = true then
    writes = [(conn, rangeRequest .r0009 (.number (newBlock.height - 7))
      (.number newBlock.height))]
  else
    ∃ latest list, store (.block .bc .latest) = some (.bcBlock latest) ∧
      (Async.exec (getLiteMultiverse order latest) store).1 = .ok list ∧
      writes = [(conn, announcement wire list)]

/-- Everything written for a `putblock` event. -/
def putblockWrites (env : PeerEnv) (wire : Wire) (order : List Nat)
    (connections : List Connection) (msg : PutBlock) (state : EngineState) : List Write :=
  (putblock env msg state).1.flatMap
    (eventWrites wire order connections (putblock env msg state).2.node.store)

/-- What the listener of `putblock` sets off for a rejected block. -/
theorem putblock_rejected {env : PeerEnv} {msg : PutBlock} {state : EngineState}
    {approved : Bool} (h : Rejected env msg.data state approved) :
    (putblock env msg state).1 = resyncEvents (.putblock msg) msg.data (.ok approved) := by
  have hunseen : ¬ state.known.contains msg.data.hash = true := by
    simpa using h.unseen
  have hproposed : addNextBlock env.pkg env.now msg.data
      (state.judged env.pkg msg.data) = (.ok false, state.proposed env msg.data) :=
    Prod.ext h.rejected rfl
  rw [EngineState.judged] at hproposed
  rw [putblock, blockFromPeer, if_neg hunseen]
  simp only [h.valid, if_true, proposeBlock, hproposed]
  rw [h.resync]

/-- A payload is no connection: nothing is written to it. -/
theorem resyncEvents_payload (wire : Wire) (order : List Nat) (connections : List Connection)
    (store : Store) (msg : PutBlock) (newBlock : BcBlock) (answer : Except JsError Bool) :
    (resyncEvents (.putblock msg) newBlock answer).flatMap
      (eventWrites wire order connections store) = [] := by
  rcases answer with e | _ | _
  · rfl
  · rw [resyncEvents, List.flatMap_singleton, eventWrites]
    simp only [sendblock, Async.exec_bind]
    generalize Async.exec (getLiteMultiverse order newBlock) store = result
    rcases result with ⟨_ | list, store'⟩ <;> rfl
  · rfl

/-- **A rejected block is never answered.**  Whichever way `addResyncRequest` decides,
the answer is addressed to the payload of the `putblock` event. -/
theorem putblock_unanswered (env : PeerEnv) (wire : Wire) (order : List Nat)
    (connections : List Connection) {conn : Connection} {body : Text} {msg : PutBlock}
    {state : EngineState} {approved : Bool}
    (hreceived : (handled wire conn (some (message .w0008 body)) state.node.store).emitted =
      [.putblock msg])
    (hrejected : Rejected env msg.data state approved) :
    msg.connection = conn ∧ putblockWrites env wire order connections msg state = [] ∧
      ∀ store, ¬ Answered wire order conn msg.data approved store
        (putblockWrites env wire order connections msg state) := by
  have hconn : msg.connection = conn := by
    rcases handled_message wire conn .w0008 body state.node.store with hlong | hbranch
    · rw [hlong] at hreceived
      cases hreceived
    · rw [hbranch] at hreceived
      obtain ⟨block, hblock⟩ := dispatch_putblock (Or.inr rfl)
        (by rw [hreceived]; exact nofun)
      rw [hblock] at hreceived
      cases hreceived
      rfl
  have hnothing : putblockWrites env wire order connections msg state = [] := by
    rw [putblockWrites, putblock_rejected hrejected]
    exact resyncEvents_payload wire order connections _ msg msg.data (.ok approved)
  refine ⟨hconn, hnothing, ?_⟩
  intro store hanswered
  rw [hnothing, Answered] at hanswered
  split at hanswered
  · cases hanswered
  · obtain ⟨_, _, _, _, hwrites⟩ := hanswered
    cases hwrites

/-- A node with nothing but `latest`, which is also the parent, and no sync going on. -/
def samplePeerState (latest : BcBlock) : EngineState where
  known := []
  node :=
    { chain := [latest]
      store := ((Store.empty.set .synclock (.bcBlock getGenesisBlock)).set
        (.block .bc .latest) (.bcBlock latest)).set (.block .bc .parent) (.bcBlock latest) }

def samplePeerEnv : PeerEnv where
  lru := Lru.taking
  pkg := samplePackages
  now := 1012
  clock := ⟨1012, 1012, 1012, 1012⟩
  order _ := []

/-- A block from a peer, as `sampleWire` reads it. -/
def samplePutBlock : PutBlock where
  data := sampleTip 9
  connection := sampleConnection

theorem putblock_unanswered_sample :
    samplePutBlock.connection = sampleConnection ∧
    putblockWrites samplePeerEnv sampleWire [] [sampleConnection] samplePutBlock
      (samplePeerState getGenesisBlock) = [] ∧
    ∀ store, ¬ Answered sampleWire [] sampleConnection samplePutBlock.data true store
      (putblockWrites samplePeerEnv sampleWire [] [sampleConnection] samplePutBlock
        (samplePeerState getGenesisBlock)) := by
  have hreceived : (handled sampleWire sampleConnection
      (some (message .w0008 (serial sampleWire .w0008 [sampleTip 9])))
      (samplePeerState getGenesisBlock).node.store).emitted = [.putblock samplePutBlock] := by
    decide +kernel
  have hrejected : Rejected samplePeerEnv (sampleTip 9) (samplePeerState getGenesisBlock)
      true := by
    refine ⟨?_, ?_, ?_, ?_⟩
    all_goals decide +kernel
  exact putblock_unanswered samplePeerEnv sampleWire [] [sampleConnection] hreceived
    hrejected

/-- On genesis the block is approved and nothing is asked of its sender; on a higher
block it is refused and nothing is sent back. -/
theorem putblock_sample :
    Rejected samplePeerEnv (sampleTip 9) (samplePeerState getGenesisBlock) true ∧
    Rejected samplePeerEnv (sampleTip 9) (samplePeerState (sampleTip 5)) false ∧
    (handled sampleWire sampleConnection
      (some (announcement sampleWire [sampleTip 9])) Store.empty).emitted =
        [.putblock samplePutBlock] ∧
    putblockWrites samplePeerEnv sampleWire [] [sampleConnection] samplePutBlock
      (samplePeerState getGenesisBlock) = [] ∧
    putblockWrites samplePeerEnv sampleWire [] [sampleConnection] samplePutBlock
      (samplePeerState (sampleTip 5)) = [] := by
  refine ⟨⟨?_, ?_, ?_, ?_⟩, ⟨?_, ?_, ?_, ?_⟩, ?_, ?_, ?_⟩
  all_goals decide +kernel

/-! ## The backwards sync -/

/-- The next request of a backwards sync, for a window that touches the lowest block
received. -/
def Continued (conn : Connection) (low : BcBlock) (writes : List Write) : Prop :=
  let high : Int := max 3 low.height
  writes = [(conn, rangeRequest .r0006 (.number (max 2 (high - 500))) (.number high))]

/-- **The backwards sync never continues.**  `stepSyncHandler` and the listener of
`getblocklist` have no property of the payload in common. -/
theorem stepSyncHandler_not_continued (wire : Wire) (order : List Nat)
    (connections : List Connection) (conn : Connection) {low : BcBlock}
    (h : 3 ≤ low.height) (store : Store) :
    ∃ events store', Async.exec (stepSyncHandler (some low) conn) store =
        (.ok events, store') ∧
      events.flatMap (eventWrites wire order connections store') = [] ∧
      ¬ Continued conn low (events.flatMap (eventWrites wire order connections store')) := by
  have hheight : ¬ low.height < 3 := by omega
  have hexec : Async.exec (stepSyncHandler (some low) conn) store =
      (.ok [.getblocklist { connction := .connection conn,
                            data := some { low := max 2 (max 3 (low.height : Int) - 500),
                                           high := max 3 (low.height : Int) } }],
        store.set .synclock (.bcBlock low)) := by
    rw [stepSyncHandler]
    simp only [Option.elim_some, Async.exec_bind]
    show Async.exec (if low.height < 3 then _ else _) store = _
    rw [if_neg hheight]
    rfl
  refine ⟨_, _, hexec, rfl, ?_⟩
  intro hcontinued
  cases hcontinued

theorem stepSyncHandler_not_continued_sample :
    ∃ events store', Async.exec (stepSyncHandler (some (sampleTip 5)) sampleConnection)
        Store.empty = (.ok events, store') ∧
      events.flatMap (eventWrites sampleWire [] [] store') = [] ∧
      ¬ Continued sampleConnection (sampleTip 5)
        (events.flatMap (eventWrites sampleWire [] [] store')) :=
  stepSyncHandler_not_continued sampleWire [] [] sampleConnection (by decide) Store.empty

/-- The window of the sample is computed, and reaches nobody. -/
theorem stepSyncHandler_sample :
    (Async.exec (stepSyncHandler (some (sampleTip 5)) sampleConnection) Store.empty).1 =
      .ok [.getblocklist { connction := .connection sampleConnection,
                           data := some { low := 2, high := 5 } }] ∧
    eventWrites sampleWire [] [] Store.empty
      (.getblocklist { connction := .connection sampleConnection,
                       data := some { low := 2, high := 5 } }) = [] := by
  refine ⟨?_, ?_⟩
  · decide +kernel
  · decide +kernel

end BcNode.Engine
