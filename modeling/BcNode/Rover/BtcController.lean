import BcNode.Js.Text
import BcNode.Protos.Core
import BcNode.Rover.BtcNetwork
import BcNode.Verified.Lru

/-!
# The BTC rover

The controller listens to a pool of peers.  It lets peers in and out of its `Network`,
and of the blocks they send it passes some on to the collector: those that come while
there is a quorum of peers, whose hash it has not seen lately and whose height is not
below the best one.

`collects_quorum`, `collects_again` and `collects_below` say of every run what it takes
for a block to be passed on, to be passed on again, and to be passed on although a higher
one has been before.

The messages of the pool are the events of a run.  What the pool does when it is asked to
connect or to drop a peer is left out: it comes back as an event.  Reading the height in
a coinbase is the business of another package and a parameter here.
-/

namespace BcNode.Rover.Btc

open BcNode.Verified BcNode.Js BcNode.Protos

/-! ## The quorum -/

/-- `isSatoshiPeer`. -/
def isSatoshiPeer (subversion : String) : Bool :=
  subversion ≠ "" && includes subversion "/Satoshi:0.1"

/-- `quorum` of `DEFAULT_STATE`. -/
def QUORUM : Nat := 21

/-- `discoveredPeers`. -/
def discoveredPeers (network : Network) : Nat := network.peers.keys.length

/-- `satoshiPeers`. -/
def satoshiPeers (network : Network) : Nat :=
  (network.peers.filter fun entry => isSatoshiPeer entry.2.subversion).length

/-- `hasQuorum`. -/
def hasQuorum (network : Network) : Bool :=
  QUORUM ≤ discoveredPeers network && QUORUM ≤ satoshiPeers network

/-! ## Blocks -/

variable {Tx : Type}

/-- A header; `prevHash` and `merkleRoot` are the hex digits of its buffers. -/
structure BtcHeader where
  hash : String
  prevHash : String
  merkleRoot : String
  time : Nat
  version : Int
  deriving DecidableEq, Repr

/-- A block as a peer sends it. -/
structure BtcBlock (Tx : Type) where
  header : BtcHeader
  transactions : List Tx
  deriving DecidableEq, Repr

/-- What is used of `bitcore-p2p`, `btc-transaction` and `lru-cache`. -/
structure BtcLib (Tx : Type) where
  lru : LruCache
  /-- `tx.hash`. -/
  hash : Tx → String
  /-- `Transaction.deserialize(buffer).ins[0].script.getBlockHeight()`. -/
  getBlockHeight : Tx → Except JsError Nat

/-- The loop of `swapOrder`; a last character without a partner is put behind what is
read past the end. -/
def swapPairs : List Char → List Char
  | [] => []
  | [a] => "undefined".toList ++ [a]
  | a :: b :: rest => b :: a :: swapPairs rest

/-- `swapOrder`. -/
def swapOrder (str : String) : String := String.ofList (swapPairs str.toList.reverse)

/-- `_createUnifiedBlock` of the BTC controller. -/
def btcCreateUnifiedBlock (block : BtcBlock Tx) (blockNumber : Nat) : Block where
  blockchain := "btc"
  hash := block.header.hash
  previousHash := swapOrder block.header.prevHash
  timestamp := block.header.time * 1000
  height := blockNumber
  merkleRoot := block.header.merkleRoot

theorem swapPairs_append {l : List Char} (h : l.length % 2 = 0) (l' : List Char) :
    swapPairs (l ++ l') = swapPairs l ++ swapPairs l' := by
  induction l using swapPairs.induct with
  | case1 => rfl
  | case2 a => simp at h
  | case3 a b rest ih =>
      rw [List.length_cons, List.length_cons, Nat.add_assoc, Nat.add_mod_right] at h
      show b :: a :: swapPairs (rest ++ l') = b :: a :: (swapPairs rest ++ swapPairs l')
      rw [ih h]

theorem swapPairs_reverse_swapPairs {l : List Char} (h : l.length % 2 = 0) :
    swapPairs (swapPairs l.reverse).reverse = l := by
  induction l using swapPairs.induct with
  | case1 => rfl
  | case2 a => simp at h
  | case3 a b rest ih =>
      rw [List.length_cons, List.length_cons, Nat.add_assoc, Nat.add_mod_right] at h
      -- the first pair goes to the end and comes back to the front
      rw [List.reverse_cons, List.reverse_cons, List.append_assoc,
        swapPairs_append (by rwa [List.length_reverse])]
      show swapPairs (swapPairs rest.reverse ++ [a, b]).reverse = a :: b :: rest
      rw [List.reverse_append]
      show a :: b :: swapPairs (swapPairs rest.reverse).reverse = a :: b :: rest
      rw [ih h]

/-- Bytes swapped twice are as they were. -/
theorem swapOrder_swapOrder {str : String} (h : str.length % 2 = 0) :
    swapOrder (swapOrder str) = str := by
  rw [swapOrder, swapOrder, String.toList_ofList, swapPairs_reverse_swapPairs,
    String.ofList_toList]
  rwa [String.length_toList]

/-- A block that names another by its hash in the order of the bytes follows it for the
collector. -/
theorem btcCreateUnifiedBlock_follows {block parent : BtcBlock Tx} {blockNumber n : Nat}
    (hhash : parent.header.hash.length % 2 = 0)
    (h : block.header.prevHash = swapOrder parent.header.hash) :
    (btcCreateUnifiedBlock block blockNumber).previousHash =
      (btcCreateUnifiedBlock parent n).hash := by
  show swapOrder block.header.prevHash = parent.header.hash
  rw [h, swapOrder_swapOrder hhash]

/-! ## The controller -/

/-- A block of another version is not read. -/
def BLOCK_VERSION : Int := 536870912

/-- `max` of the caches for blocks and for their numbers. -/
def BLOCK_CACHE_MAX : Nat := 110

/-- `max` of the cache for transactions. -/
def TX_CACHE_MAX : Nat := 3000

/-- The fields of a controller. -/
structure BtcController where
  network : Network := Network.new
  blockCache : List String := []
  blocksNumberCache : List Nat := []
  txCache : List String := []
  exited : Bool := false

/-- What a controller does to others. -/
inductive Action where
  /-- `peer.disconnect()`. -/
  | disconnect (peer : Peer)
  /-- `peer.sendMessage`, which asks for what an inventory lists. -/
  | getData (peer : Peer)
  /-- `pool._removeConnectedPeer`, if the pool has the peer. -/
  | removeConnectedPeer (peer : Peer)
  | collectBlock (block : Block)
  deriving DecidableEq, Repr

/-- What the pool reports. -/
inductive Event (Tx : Type) where
  | peerready (peer : Peer) (now : Nat)
  | peerdisconnect (peer : Peer)
  | peererror (peer : Peer)
  /-- `fails` if `sendMessage` throws. -/
  | peerinv (peer : Peer) (fails : Bool)
  | peerblock (peer : Peer) (block : BtcBlock Tx)
  /-- The process that has started the rover is gone. -/
  | disconnect
  deriving DecidableEq, Repr

variable (lib : BtcLib Tx) (isStandalone : Bool)

/-- The hash of the block that an event brings. -/
def Event.blockHash? : Event Tx → Option String
  | .peerblock _ block => some block.header.hash
  | _ => none

/-- The event tells that a peer has come or gone. -/
def Event.about (host : String) : Event Tx → Prop
  | .peerready peer _ | .peerdisconnect peer | .peererror peer => peer.host = host
  | .peerinv .. | .peerblock .. | .disconnect => False

namespace BtcController

/-- `_tryDisconnectPeer`. -/
def tryDisconnectPeer (c : BtcController) (peer : Peer) : BtcController × List Action :=
  ({ c with network := c.network.removePeer peer }, [.disconnect peer])

/-- `_onNewTx`. -/
def onNewTx (c : BtcController) (tx : Tx) : BtcController :=
  if lib.hash tx ∈ c.txCache then c
  else { c with txCache := lib.lru.use TX_CACHE_MAX c.txCache (lib.hash tx) }

/-- The height that stands in the first transaction. -/
def coinbaseHeight (block : BtcBlock Tx) : Except JsError Nat :=
  match block.transactions with
  | [] => .error .typeError
  | coinbaseTx :: _ => lib.getBlockHeight coinbaseTx

/-- `_onNewBlock`; the height of a block that is new, or `none`. -/
def onNewBlock (c : BtcController) (block : BtcBlock Tx) :
    Except JsError (Option Nat × BtcController) :=
  if block.header.hash ∈ c.blockCache then .ok (none, c)
  else do
    let c := { c with
      blockCache := lib.lru.use BLOCK_CACHE_MAX c.blockCache block.header.hash }
    let blockNumber ← coinbaseHeight lib block
    if c.network.bestHeight.above blockNumber then return (none, c)
    let c := if blockNumber ∈ c.blocksNumberCache then c
      else { c with
        blocksNumberCache := lib.lru.use BLOCK_CACHE_MAX c.blocksNumberCache blockNumber }
    return (some blockNumber, block.transactions.foldl (onNewTx lib) c)

/-- The handler of `peerready`. -/
def onPeerready (c : BtcController) (peer : Peer) (now : Nat) :
    BtcController × List Action :=
  if hasQuorum c.network then
    ({ c with network := c.network.updateBestHeight.2.addPeer peer now }, [])
  else if isSatoshiPeer peer.subversion then
    ({ c with network := c.network.addPeer peer now }, [])
  else c.tryDisconnectPeer peer

/-- The handler of `peerinv`. -/
def onPeerinv (c : BtcController) (peer : Peer) (fails : Bool) :
    BtcController × List Action :=
  if isSatoshiPeer peer.subversion then
    if fails then c.tryDisconnectPeer peer else (c, [.getData peer])
  else (c, [])

/-- The handler of `peerblock`.  What `_onNewBlock` throws ends the process. -/
def onPeerblock (c : BtcController) (peer : Peer) (block : BtcBlock Tx) :
    BtcController × List Action :=
  if !hasQuorum c.network then (c, [])
  -- `bestHeight` is `null` before it is set, which is not `undefined`
  else if block.header.version = BLOCK_VERSION then
    match c.onNewBlock lib block with
    | .error _ => ({ c with exited := true }, [])
    | .ok (none, c) => (c, [])
    | .ok (some blockNumber, c) =>
        ({ c with network := c.network.setBestHeight blockNumber },
          if isStandalone then []
          else [.collectBlock (btcCreateUnifiedBlock block blockNumber)])
  else (c, [.removeConnectedPeer peer])

/-- One event.  Nothing happens after the process has exited. -/
def step (c : BtcController) (event : Event Tx) : BtcController × List Action :=
  if c.exited then (c, [])
  else
    match event with
    | .peerready peer now => c.onPeerready peer now
    | .peerdisconnect peer => ({ c with network := c.network.removePeer peer }, [])
    | .peererror peer => c.tryDisconnectPeer peer
    | .peerinv peer fails => c.onPeerinv peer fails
    | .peerblock peer block => c.onPeerblock lib isStandalone peer block
    | .disconnect => ({ c with exited := true }, [])

end BtcController

/-- The controller after a run. -/
def run (events : List (Event Tx)) : BtcController :=
  events.foldl (fun c event => (c.step lib isStandalone event).1) {}

/-- After what has happened, the event has the block passed on. -/
def Collects (past : List (Event Tx)) (event : Event Tx) (block : Block) : Prop :=
  .collectBlock block ∈ ((run lib isStandalone past).step lib isStandalone event).2

instance (past : List (Event Tx)) (event : Event Tx) (block : Block) :
    Decidable (Collects lib isStandalone past event block) :=
  inferInstanceAs (Decidable (_ ∈ _))

/-- Heights stand for transactions. -/
def sampleBtcLib : BtcLib Nat where
  lru := Lru.taking
  hash := toString
  getBlockHeight := .ok

/-- As many Satoshi peers as a quorum takes. -/
def sampleCrowd : List (Event Nat) :=
  (List.range QUORUM).map fun i => .peerready (samplePeerAt (toString i) 500000) 0

/-- A block arrives. -/
def sampleArrival (hash : String) (height : Nat) : Event Nat :=
  .peerblock (samplePeerAt "0" 500000)
    { header :=
        { hash
          prevHash := "0a1b"
          merkleRoot := "00"
          time := 1
          version := BLOCK_VERSION }
      transactions := [height] }

/-- It is made into a block of the collector. -/
def sampleCollected (hash : String) (height : Nat) : Block where
  blockchain := "btc"
  hash := hash
  previousHash := "1b0a"
  timestamp := 1000
  height := height
  merkleRoot := "00"

/-! ## What a step does -/

section Steps

variable {lib : BtcLib Tx} {isStandalone : Bool} {c : BtcController}

/-- A transaction changes one cache. -/
theorem onNewTx_eq (lib : BtcLib Tx) (c : BtcController) (tx : Tx) :
    ∃ txCache, c.onNewTx lib tx = { c with txCache } := by
  rw [BtcController.onNewTx]
  split
  · exact ⟨c.txCache, rfl⟩
  · exact ⟨_, rfl⟩

theorem foldl_onNewTx (lib : BtcLib Tx) (c : BtcController) (txs : List Tx) :
    (txs.foldl (BtcController.onNewTx lib) c).network = c.network ∧
      (txs.foldl (BtcController.onNewTx lib) c).blockCache = c.blockCache := by
  refine foldl_invariant (I := fun c' : BtcController =>
    c'.network = c.network ∧ c'.blockCache = c.blockCache)
    (fun c' tx h => ?_) ⟨rfl, rfl⟩ txs
  obtain ⟨txCache, heq⟩ := onNewTx_eq lib c' tx
  rw [heq]
  exact h

/-- A hash is either known and the block is not new, or it is noted, and then a block
that is new is not below the best height. -/
theorem onNewBlock_cases {block : BtcBlock Tx} {result : Option Nat} {c' : BtcController}
    (h : c.onNewBlock lib block = .ok (result, c')) :
    c'.network = c.network ∧
      (result = none ∧ c'.blockCache = c.blockCache ∨
        block.header.hash ∉ c.blockCache ∧
        c'.blockCache = lib.lru.use BLOCK_CACHE_MAX c.blockCache block.header.hash ∧
        ∀ blockNumber, result = some blockNumber →
          c.network.bestHeight.above blockNumber = false) := by
  rw [BtcController.onNewBlock] at h
  split at h
  · cases h
    exact ⟨rfl, .inl ⟨rfl, rfl⟩⟩
  · next hnew =>
      cases hheight : BtcController.coinbaseHeight lib block with
      | error e =>
          rw [hheight] at h
          cases h
      | ok blockNumber =>
          rw [hheight] at h
          simp only [bind, Except.bind] at h
          split at h
          · cases h
            exact ⟨rfl, .inr ⟨hnew, rfl, nofun⟩⟩
          · next habove =>
              cases h
              obtain ⟨hnetwork, hcache⟩ := foldl_onNewTx lib _ block.transactions
              refine ⟨hnetwork.trans ?_, .inr ⟨hnew, hcache.trans ?_, ?_⟩⟩
              · split <;> rfl
              · split <;> rfl
              · rintro _ ⟨⟩
                exact Bool.not_eq_true _ ▸ habove

/-- What a step does that takes a block for new. -/
structure Takes (lru : LruCache) (c c' : BtcController) (event : Event Tx) (block : Block) :
    Prop where
  hash : event.blockHash? = some block.hash
  quorum : hasQuorum c.network = true
  new : block.hash ∉ c.blockCache
  notBelow : c.network.bestHeight.above block.height = false
  network : c'.network = c.network.setBestHeight block.height
  cache : c'.blockCache = lru.use BLOCK_CACHE_MAX c.blockCache block.hash

theorem Takes.not_about {lru : LruCache} {c' : BtcController} {event : Event Tx}
    {block : Block} (h : Takes lru c c' event block) (host : String) :
    ¬ event.about host := by
  have hhash := h.hash
  cases event with
  | peerblock peer arrival => exact id
  | peerready _ _ | peerdisconnect _ | peererror _ | peerinv _ _ | disconnect => cases hhash

/-- What an event does to the peers. -/
inductive Admits (network : Network) : Event Tx → Network → Prop where
  | nobody {event : Event Tx} (h : ∀ host, ¬ event.about host) :
      Admits network event network
  | remove {event : Event Tx} (peer : Peer)
      (h : ∀ host, event.about host → host = peer.host) :
      Admits network event (network.removePeer peer)
  | satoshi (peer : Peer) (now : Nat) (h : isSatoshiPeer peer.subversion = true) :
      Admits network (.peerready peer now) (network.addPeer peer now)
  | elect (peer : Peer) (now : Nat) (h : hasQuorum network = true) :
      Admits network (.peerready peer now) (network.updateBestHeight.2.addPeer peer now)

/-- What any other step does. -/
structure Passes (lru : LruCache) (c c' : BtcController) (event : Event Tx) : Prop where
  network : Admits c.network event c'.network
  cache : c'.blockCache = c.blockCache ∨ ∃ hash, event.blockHash? = some hash ∧
    hash ∉ c.blockCache ∧ c'.blockCache = lru.use BLOCK_CACHE_MAX c.blockCache hash

/-- A block that arrives is taken for new, or all that changes is what has been seen. -/
theorem onPeerblock_cases {peer : Peer} {arrival : BtcBlock Tx}
    {stepped : BtcController × List Action}
    (h : c.onPeerblock lib isStandalone peer arrival = stepped) :
    (∃ block, Takes lib.lru c stepped.1 (.peerblock peer arrival) block ∧
      stepped.2 ⊆ [.collectBlock block]) ∨
    Passes lib.lru c stepped.1 (.peerblock peer arrival) ∧
      ∀ block, .collectBlock block ∉ stepped.2 := by
  have hnobody : ∀ host, ¬ (Event.peerblock peer arrival).about host := fun host => id
  have hsame (network : Network) (hnetwork : network = c.network) :
      Admits c.network (.peerblock peer arrival) network :=
    hnetwork ▸ .nobody hnobody
  rw [BtcController.onPeerblock] at h
  split at h
  · subst h
    exact .inr ⟨⟨hsame _ rfl, .inl rfl⟩, nofun⟩
  · next hquorum =>
      split at h
      · split at h
        · subst h
          exact .inr ⟨⟨hsame _ rfl, .inl rfl⟩, nofun⟩
        · next c' hold =>
            subst h
            obtain ⟨hnetwork, ⟨-, hcache⟩ | ⟨hnew, hcache, -⟩⟩ := onNewBlock_cases hold
            · exact .inr ⟨⟨hsame _ hnetwork, .inl hcache⟩, nofun⟩
            · exact .inr ⟨⟨hsame _ hnetwork, .inr ⟨_, rfl, hnew, hcache⟩⟩, nofun⟩
        · next blockNumber c' htaken =>
            subst h
            obtain ⟨hnetwork, ⟨hnone, -⟩ | ⟨hnew, hcache, hheight⟩⟩ :=
              onNewBlock_cases htaken
            · cases hnone
            · refine .inl ⟨btcCreateUnifiedBlock arrival blockNumber, ⟨rfl, ?_, hnew,
                hheight blockNumber rfl, ?_, hcache⟩, ?_⟩
              · simpa using hquorum
              · exact congrArg (Network.setBestHeight blockNumber) hnetwork
              · split
                · exact List.nil_subset _
                · exact List.Subset.refl _
      · subst h
        exact .inr ⟨⟨hsame _ rfl, .inl rfl⟩, by simp⟩

/-- **A step takes a block for new, or passes nothing on and lets one peer in or out.** -/
theorem step_cases (event : Event Tx) {stepped : BtcController × List Action}
    (hrunning : c.exited = false) (h : c.step lib isStandalone event = stepped) :
    (∃ block, Takes lib.lru c stepped.1 event block ∧ stepped.2 ⊆ [.collectBlock block]) ∨
    Passes lib.lru c stepped.1 event ∧ ∀ block, .collectBlock block ∉ stepped.2 := by
  rw [BtcController.step.eq_def, if_neg (by simp [hrunning])] at h
  cases event with
  | peerblock peer arrival => exact onPeerblock_cases h
  | peerready peer now =>
      right
      simp only [BtcController.onPeerready, BtcController.tryDisconnectPeer] at h
      split at h
      · next hquorum =>
          subst h
          exact ⟨⟨.elect peer now hquorum, .inl rfl⟩, nofun⟩
      · split at h
        · next hsatoshi =>
            subst h
            exact ⟨⟨.satoshi peer now hsatoshi, .inl rfl⟩, nofun⟩
        · subst h
          exact ⟨⟨.remove peer fun host => Eq.symm, .inl rfl⟩, by simp⟩
  | peerinv peer fails =>
      right
      simp only [BtcController.onPeerinv, BtcController.tryDisconnectPeer] at h
      split at h
      · split at h
        · subst h
          exact ⟨⟨.remove peer fun host => False.elim, .inl rfl⟩, by simp⟩
        · subst h
          exact ⟨⟨.nobody fun host => id, .inl rfl⟩, by simp⟩
      · subst h
        exact ⟨⟨.nobody fun host => id, .inl rfl⟩, nofun⟩
  | peerdisconnect peer =>
      subst h
      exact .inr ⟨⟨.remove peer fun host => Eq.symm, .inl rfl⟩, nofun⟩
  | peererror peer =>
      subst h
      exact .inr ⟨⟨.remove peer fun host => Eq.symm, .inl rfl⟩,
        by simp [BtcController.tryDisconnectPeer]⟩
  | disconnect =>
      subst h
      exact .inr ⟨⟨.nobody fun host => id, .inl rfl⟩, nofun⟩

/-- What is passed on has been taken for new, by a controller that runs. -/
theorem takes_of_collectBlock {event : Event Tx} {block : Block}
    (h : .collectBlock block ∈ (c.step lib isStandalone event).2) :
    c.exited = false ∧ Takes lib.lru c (c.step lib isStandalone event).1 event block := by
  cases hexited : c.exited with
  | true =>
      rw [BtcController.step.eq_def, if_pos hexited] at h
      cases h
  | false =>
      obtain ⟨taken, htakes, hactions⟩ | ⟨-, hnone⟩ := step_cases event hexited rfl
      · cases List.mem_singleton.1 (hactions h)
        exact ⟨rfl, htakes⟩
      · exact absurd h (hnone block)

end Steps

/-! ## Who has to be there -/

/-- What was last heard of a host is that a Satoshi peer there is ready. -/
def Ready (past : List (Event Tx)) (host : String) : Prop :=
  ∃ before peer now after, past = before ++ .peerready peer now :: after ∧
    peer.host = host ∧ isSatoshiPeer peer.subversion = true ∧
    ∀ event ∈ after, ¬ event.about host

/-- The peers that count for the quorum are there. -/
def Listed (past : List (Event Tx)) (network : Network) : Prop :=
  ∀ entry ∈ network.peers, isSatoshiPeer entry.2.subversion = true → Ready past entry.1

theorem Ready.concat {past : List (Event Tx)} {host : String} (h : Ready past host)
    {event : Event Tx} (hevent : ¬ event.about host) : Ready (past ++ [event]) host := by
  obtain ⟨before, peer, now, after, rfl, hhost, hsatoshi, hafter⟩ := h
  refine ⟨before, peer, now, after ++ [event], by simp, hhost, hsatoshi, fun e he => ?_⟩
  rcases List.mem_append.1 he with hold | hnew
  · exact hafter e hold
  · exact List.mem_singleton.1 hnew ▸ hevent

theorem mem_removePeer {network : Network} {peer : Peer} {entry : String × PeerRecord}
    (h : entry ∈ (network.removePeer peer).peers) :
    entry ∈ network.peers ∧ entry.1 ≠ peer.host := by
  rw [Network.removePeer] at h
  split at h
  · next hnone =>
      refine ⟨h, fun heq => ?_⟩
      have hmem := List.lookup_eq_none_iff.1 (Option.isNone_iff_eq_none.1 hnone) entry h
      simp [heq] at hmem
  · have hfilter := List.mem_filter.1 h
    exact ⟨hfilter.1, bne_iff_ne.1 hfilter.2⟩

theorem mem_addPeer {network : Network} {peer : Peer} {now : Nat}
    {entry : String × PeerRecord} (h : entry ∈ (network.addPeer peer now).peers) :
    entry.1 = peer.host ∧ entry.2.subversion = peer.subversion ∨
      entry ∈ network.peers ∧ entry.1 ≠ peer.host := by
  by_cases hproto : peer.host = "__proto__"
  · have hmem : entry ∈ network.peers.assign peer.host _ := h
    rw [hproto, Obj.assign_proto] at hmem
    exact .inr ⟨hmem, hproto ▸ network.proper.own entry hmem⟩
  · rcases List.mem_cons.1 ((network.proper.assign_perm hproto _).mem_iff.1 h) with
      rfl | hold
    · exact .inl ⟨rfl, rfl⟩
    · have hfilter := List.mem_filter.1 hold
      exact .inr ⟨hfilter.1, bne_iff_ne.1 hfilter.2⟩

/-- An election changes no peer but for the name of its host. -/
theorem mem_updateBestHeight {network : Network} {entry : String × PeerRecord}
    (h : entry ∈ network.updateBestHeight.2.peers) :
    ∃ old ∈ network.peers, old.1 = entry.1 ∧ old.2.subversion = entry.2.subversion := by
  have hpeers : network.updateBestHeight.2.peers = network.nameHosts.peers := by
    rw [Network.updateBestHeight]
    split
    · rfl
    · split <;> rfl
  rw [hpeers] at h
  obtain ⟨old, hold, rfl⟩ := List.mem_map.1 h
  exact ⟨old, hold, rfl, rfl⟩

theorem Listed.admits {past : List (Event Tx)} {network network' : Network}
    {event : Event Tx} (h : Listed past network) (hadmits : Admits network event network') :
    Listed (past ++ [event]) network' := by
  intro entry hentry hsatoshi
  cases hadmits with
  | nobody hnobody => exact (h entry hentry hsatoshi).concat (hnobody entry.1)
  | remove peer hother =>
      obtain ⟨hmem, hne⟩ := mem_removePeer hentry
      exact (h entry hmem hsatoshi).concat fun habout => hne (hother entry.1 habout)
  | satoshi peer now hpeer =>
      rcases mem_addPeer hentry with ⟨hhost, -⟩ | ⟨hmem, hne⟩
      · exact ⟨past, peer, now, [], rfl, hhost.symm, hpeer, nofun⟩
      · exact (h entry hmem hsatoshi).concat fun habout => hne habout.symm
  | elect peer now hquorum =>
      rcases mem_addPeer hentry with ⟨hhost, hsubversion⟩ | ⟨hmem, hne⟩
      · exact ⟨past, peer, now, [], rfl, hhost.symm, hsubversion ▸ hsatoshi, nofun⟩
      · obtain ⟨old, hold, hhost, hsubversion⟩ := mem_updateBestHeight hmem
        have hready := h old hold (hsubversion ▸ hsatoshi)
        exact (hhost ▸ hready).concat fun habout => hne habout.symm

theorem peers_setBestHeight (height : Int) (network : Network) :
    (network.setBestHeight height).peers = network.peers := by
  rw [Network.setBestHeight]
  split <;> rfl

/-- While the controller runs, its peers are those that are ready. -/
theorem run_listed (events : List (Event Tx))
    (h : (run lib isStandalone events).exited = false) :
    Listed events (run lib isStandalone events).network := by
  revert h
  refine foldl_history (I := fun past (c : BtcController) =>
    c.exited = false → Listed past c.network) (fun past c event h hrunning => ?_)
    (fun _ entry hentry => absurd hentry List.not_mem_nil) events
  cases hexited : c.exited with
  | true =>
      rw [BtcController.step.eq_def, if_pos hexited, hexited] at hrunning
      cases hrunning
  | false =>
      obtain ⟨block, htakes, -⟩ | ⟨hpasses, -⟩ :=
        step_cases event hexited rfl
      · intro entry hentry hsatoshi
        rw [htakes.network, peers_setBestHeight] at hentry
        exact (h hexited entry hentry hsatoshi).concat (htakes.not_about entry.1)
      · exact (h hexited).admits hpasses.network

/-- A quorum is of different hosts. -/
theorem exists_hosts {network : Network} (h : hasQuorum network = true) :
    ∃ hosts : Finset String, QUORUM ≤ hosts.card ∧ ∀ host ∈ hosts,
      ∃ entry ∈ network.peers, entry.1 = host ∧ isSatoshiPeer entry.2.subversion = true := by
  let satoshi := network.peers.filter fun entry => isSatoshiPeer entry.2.subversion
  have hnodup : (satoshi.map Prod.fst).Nodup :=
    network.proper.nodup.sublist (List.filter_sublist.map Prod.fst)
  rw [hasQuorum, Bool.and_eq_true, decide_eq_true_iff, decide_eq_true_iff] at h
  refine ⟨(satoshi.map Prod.fst).toFinset, ?_, fun host hhost => ?_⟩
  · rw [List.toFinset_card_of_nodup hnodup, List.length_map]
    exact h.2
  · obtain ⟨entry, hentry, hhost⟩ := List.mem_map.1 (List.mem_toFinset.1 hhost)
    obtain ⟨hmem, hsatoshi⟩ := List.mem_filter.1 hentry
    exact ⟨entry, hmem, hhost, hsatoshi⟩

/-- **A block is passed on when there is a quorum.**  In every run, when a block is passed
on there are at least 21 hosts of which the last that was heard is that a Satoshi peer
there is ready. -/
theorem collects_quorum {past : List (Event Tx)} {event : Event Tx} {block : Block}
    (h : Collects lib isStandalone past event block) :
    ∃ hosts : Finset String, QUORUM ≤ hosts.card ∧ ∀ host ∈ hosts, Ready past host := by
  obtain ⟨hrunning, htakes⟩ := takes_of_collectBlock h
  obtain ⟨hosts, hcard, hhosts⟩ := exists_hosts htakes.quorum
  refine ⟨hosts, hcard, fun host hhost => ?_⟩
  obtain ⟨entry, hentry, rfl, hsatoshi⟩ := hhosts host hhost
  exact run_listed lib isStandalone past hrunning entry hentry hsatoshi

theorem collects_quorum_sample :
    ∃ hosts : Finset String, QUORUM ≤ hosts.card ∧ ∀ host ∈ hosts, Ready sampleCrowd host :=
  have h : Collects sampleBtcLib false sampleCrowd (sampleArrival "x" 500010)
      (sampleCollected "x" 500010) := by decide +kernel
  collects_quorum sampleBtcLib false h

/-! ## How long it takes until a block is passed on again -/

theorem step_held (c : BtcController) (event : Event Tx) :
    (c.step lib isStandalone event).1.blockCache = c.blockCache ∨
      ∃ hash, event.blockHash? = some hash ∧ hash ∉ c.blockCache ∧
        (c.step lib isStandalone event).1.blockCache =
          lib.lru.use BLOCK_CACHE_MAX c.blockCache hash := by
  cases hexited : c.exited with
  | true =>
      rw [BtcController.step.eq_def, if_pos hexited]
      exact .inl rfl
  | false =>
      obtain ⟨block, htakes, -⟩ | ⟨hpasses, -⟩ :=
        step_cases event hexited rfl
      · exact .inr ⟨block.hash, htakes.hash, htakes.new, htakes.cache⟩
      · exact hpasses.cache

theorem run_nodup (events : List (Event Tx)) :
    (run lib isStandalone events).blockCache.Nodup := by
  refine foldl_invariant (I := fun c : BtcController => c.blockCache.Nodup)
    (fun c event h => ?_) List.nodup_nil events
  rcases step_held lib isStandalone c event with hsame | ⟨hash, -, -, huse⟩
  · exact hsame ▸ h
  · exact huse ▸ Lru.nodup_use lib.lru _ hash h

theorem run_concat (past : List (Event Tx)) (event : Event Tx) :
    run lib isStandalone (past ++ [event]) =
      ((run lib isStandalone past).step lib isStandalone event).1 := by
  rw [run, List.foldl_append]
  rfl

theorem run_append_cons (past mid : List (Event Tx)) (event : Event Tx) :
    run lib isStandalone (past ++ event :: mid) =
      mid.foldl (fun c event => (c.step lib isStandalone event).1)
        (run lib isStandalone (past ++ [event])) := by
  rw [run, List.append_cons, List.foldl_append]
  rfl

/-- **A block is passed on again only after 110 others have come.**  In every run, between
two blocks of one hash that are passed on, the peers send blocks with at least 110 other
hashes. -/
theorem collects_again {past mid : List (Event Tx)} {event event' : Event Tx}
    {block block' : Block} (h : Collects lib isStandalone past event block)
    (h' : Collects lib isStandalone (past ++ event :: mid) event' block')
    (hsame : block'.hash = block.hash) :
    BLOCK_CACHE_MAX ≤ ((mid.filterMap Event.blockHash?).toFinset.erase block.hash).card := by
  by_contra hroom
  obtain ⟨-, htakes⟩ := takes_of_collectBlock h
  obtain ⟨-, htakes'⟩ := takes_of_collectBlock h'
  have hfirst : Lru.Behind (run lib isStandalone (past ++ [event])).blockCache
      block.hash ∅ := by
    rw [run_concat, htakes.cache]
    exact Lru.behind_use_self lib.lru (by decide) ∅
  have hlast := Lru.Behind.foldl lib.lru (step_held lib isStandalone)
    (run_nodup lib isStandalone (past ++ [event])) hfirst mid (Nat.lt_of_not_le hroom)
  rw [← run_append_cons] at hlast
  exact htakes'.new (hsame ▸ hlast.mem)

/-- Blocks with 110 other hashes. -/
def sampleOthers : List (Event Nat) :=
  (List.range BLOCK_CACHE_MAX).map fun i => sampleArrival (toString i) 500010

theorem collects_again_sample :
    BLOCK_CACHE_MAX ≤
      ((sampleOthers.filterMap Event.blockHash?).toFinset.erase "x").card := by
  have h : Collects sampleBtcLib false sampleCrowd (sampleArrival "x" 500010)
      (sampleCollected "x" 500010) := by decide +kernel
  have h' : Collects sampleBtcLib false
      (sampleCrowd ++ sampleArrival "x" 500010 :: sampleOthers) (sampleArrival "x" 500010)
      (sampleCollected "x" 500010) := by decide +kernel
  have hagain := collects_again sampleBtcLib false h h' rfl
  exact hagain

/-! ## How the heights go back -/

theorem above_of_notBelow {network network' : Network} (h : NotBelow network network')
    {height : Int} (habove : network.bestHeight.above height = true) :
    network'.bestHeight.above height = true := by
  rw [BestHeight.above] at habove ⊢
  split at habove
  · next stored hstored =>
      obtain ⟨stored', hstored', hle⟩ := h stored hstored
      rw [hstored']
      exact decide_eq_true (Int.lt_of_lt_of_le (of_decide_eq_true habove) hle)
  · cases habove

/-- What the setter does not refuse is the best height afterwards. -/
theorem above_setBestHeight {network : Network} {height : Int}
    (h : network.bestHeight.above height = false) (lower : Int) :
    (network.setBestHeight height).bestHeight.above lower = decide (lower < height) := by
  rw [Network.setBestHeight, if_neg (by simp [h])]
  rfl

/-- The peers elect a height that is no greater than the given one. -/
def ElectsAtMost (network : Network) (height : Int) : Prop :=
  hasQuorum network = true ∧ ∃ elected, network.Elected elected ∧ elected ≤ height

theorem above_admits {network network' : Network} {event : Event Tx} {height : Int}
    (h : Admits network event network') (habove : network.bestHeight.above height = true)
    (hturn : ¬ network'.bestHeight.above height = true) :
    (∃ peer now, event = .peerready peer now) ∧ ElectsAtMost network height := by
  cases h with
  | nobody hnobody => exact absurd habove hturn
  | remove peer hother =>
      exact absurd (above_of_notBelow (notBelow_removePeer network peer) habove) hturn
  | satoshi peer now hpeer => exact absurd habove hturn
  | elect peer now hquorum =>
      have hpeers : network.peers ≠ [] := by
        rintro hnil
        obtain ⟨hosts, hcard, hhosts⟩ := exists_hosts hquorum
        obtain ⟨host, hhost⟩ := Finset.card_pos.1 (lt_of_lt_of_le (by decide) hcard)
        obtain ⟨entry, hentry, -⟩ := hhosts host hhost
        exact List.not_mem_nil (hnil ▸ hentry)
      obtain ⟨elected, helected⟩ := exists_elected hpeers
      refine ⟨⟨peer, now, rfl⟩, hquorum, elected, helected, ?_⟩
      have hstored : (network.updateBestHeight.2.addPeer peer now).bestHeight.number? =
          some elected := by
        rw [updateBestHeight_elected helected]
        exact Decimal.parse?_toString elected
      rw [BestHeight.above, hstored] at hturn
      exact Int.not_lt.1 fun hlt => hturn (decide_eq_true hlt)

/-- A height that is too low for the controller stays so until the peers elect one that is
no greater. -/
theorem above_step (c : BtcController) (event : Event Tx) {height : Int}
    (habove : c.network.bestHeight.above height = true)
    (hturn : ¬ (c.step lib isStandalone event).1.network.bestHeight.above height = true) :
    (∃ peer now, event = .peerready peer now) ∧ ElectsAtMost c.network height := by
  cases hexited : c.exited with
  | true =>
      rw [BtcController.step.eq_def, if_pos hexited] at hturn
      exact absurd habove hturn
  | false =>
      obtain ⟨block, htakes, -⟩ | ⟨hpasses, -⟩ :=
        step_cases event hexited rfl
      · rw [htakes.network] at hturn
        exact absurd (above_of_notBelow (notBelow_setBestHeight _ _) habove) hturn
      · exact above_admits hpasses.network habove hturn

/-- **Only an election takes the rover back.**  In every run, when a block is passed on
after a higher one, a peer has become ready in between while there was a quorum, and the
peers have then elected a height no greater than that of the later block. -/
theorem collects_below {past mid : List (Event Tx)} {event event' : Event Tx}
    {block block' : Block} (h : Collects lib isStandalone past event block)
    (h' : Collects lib isStandalone (past ++ event :: mid) event' block')
    (hlower : block'.height < block.height) :
    ∃ before peer now after, mid = before ++ .peerready peer now :: after ∧
      ElectsAtMost (run lib isStandalone (past ++ event :: before)).network
        block'.height := by
  obtain ⟨-, htakes⟩ := takes_of_collectBlock h
  obtain ⟨-, htakes'⟩ := takes_of_collectBlock h'
  have hfirst : (run lib isStandalone (past ++ [event])).network.bestHeight.above
      block'.height = true := by
    rw [run_concat, htakes.network, above_setBestHeight htakes.notBelow]
    exact decide_eq_true (Int.ofNat_lt.2 hlower)
  have hlast : ¬ (mid.foldl (fun c event => (c.step lib isStandalone event).1)
      (run lib isStandalone (past ++ [event]))).network.bestHeight.above
        block'.height = true := by
    rw [← run_append_cons, htakes'.notBelow]
    nofun
  obtain ⟨before, turn, after, rfl, hbefore, hturn⟩ := foldl_turns
    (I := fun c : BtcController => c.network.bestHeight.above block'.height = true)
    hfirst hlast
  obtain ⟨⟨peer, now, rfl⟩, helects⟩ := above_step lib isStandalone _ turn hbefore hturn
  refine ⟨before, peer, now, after, rfl, ?_⟩
  rw [run_append_cons]
  exact helects

/-- One more peer is ready, and a lower block comes. -/
theorem collects_below_sample :
    ∃ before peer now after,
      [Event.peerready (samplePeerAt "21" 500000) 0] =
        before ++ .peerready peer now :: after ∧
      ElectsAtMost (run sampleBtcLib false
        (sampleCrowd ++ sampleArrival "x" 500010 :: before)).network 500001 :=
  have h : Collects sampleBtcLib false sampleCrowd (sampleArrival "x" 500010)
      (sampleCollected "x" 500010) := by decide +kernel
  have h' : Collects sampleBtcLib false
      (sampleCrowd ++ [sampleArrival "x" 500010, .peerready (samplePeerAt "21" 500000) 0])
      (sampleArrival "y" 500001) (sampleCollected "y" 500001) := by decide +kernel
  collects_below sampleBtcLib false h h' (by decide)

end BcNode.Rover.Btc
