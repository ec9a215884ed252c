import BcNode.Js.Values
import BcNode.Verified.Lru
import BcNode.Verified.Run

/-!
# The network of the ETH rover

`Network` listens to what its Ethereum peers send.  A peer has to show the header of the
block at which the DAO fork took place before its blocks count.  A block arrives in full,
or in three steps: a peer announces its hash, the rover asks for the header and then for
the body, both after a tenth of a second, and puts the two together.

All bookkeeping is by the address that the socket of a peer reports at the moment, and so
every event comes with one.  The queues, the timers and the validations that are under
way go on in any order.

Two results about every run.  `emitted_traced` says where a block that is passed on has
come from, and `emitted_spaced` how long it takes until it may be passed on again.

The libraries for Ethereum blocks and transactions are left open, and so is everything
about a payload but what it decodes to.  One that cannot be decoded ends its handler with
an exception.  A list counts then for as far as it can be decoded, and for a body that
makes no block the first of the headers that wait has already been taken off.
-/

namespace BcNode.Rover.Eth

open BcNode.Verified BcNode.Js

/-! ## Blocks -/

variable {Hash Header Tx : Type}

/-- A block as `ethereumjs-block` puts it together. -/
structure EthereumBlock (Header Tx : Type) where
  header : Header
  transactions : List Tx
  uncleHeaders : List Header
  deriving DecidableEq, Repr

/-- What the rover uses of the libraries, and the hash of the fork block. -/
structure EthLib (Hash Header Tx : Type) where
  lru : LruCache
  hash : Header → Hash
  /-- `new EthereumBlock.Header(undefined)`. -/
  emptyHeader : Header
  txHash : Tx → Hash
  /-- `tx.validate(false)`. -/
  validate : Tx → Bool
  validateUnclesHash : EthereumBlock Header Tx → Bool
  validateTransactionsTrie : EthereumBlock Header Tx → Except JsError Bool
  ETH_1920000 : Hash

/-- `isValidBlock`: how its promise settles. -/
def isValidBlock (lib : EthLib Hash Header Tx) (block : EthereumBlock Header Tx) :
    Except JsError Bool :=
  if !lib.validateUnclesHash block then .ok false
  else if !block.transactions.all lib.validate then .ok false
  else lib.validateTransactionsTrie block

/-! ## The network -/

/-- `_peerRequests` of a peer. -/
structure PeerRequests (Hash Header : Type) where
  headers : List Hash := []
  bodies : List Header := []
  deriving DecidableEq, Repr

/-- What a timer does when it fires. -/
inductive Callback (Hash Header : Type) where
  | requestHeader (blockHash : Hash)
  | requestBody (blockHash : Hash) (header : Header)
  | drop
  deriving DecidableEq, Repr

structure Timer (Hash Header : Type) where
  id : Nat
  peer : Nat
  callback : Callback Hash Header
  deriving DecidableEq, Repr

/-- A block that is being validated.  A peer is dropped for an invalid body, and for an
invalid block in full it is not. -/
structure Validation (Header Tx : Type) where
  block : EthereumBlock Header Tx
  peer : Nat
  fromBody : Bool
  deriving DecidableEq, Repr

/-- `Network`, with its timers and validations. -/
structure EthNetwork (Hash Header Tx : Type) where
  txCache : List Hash := []
  blocksCache : List Hash := []
  /-- The entry of an address is `true` or missing. -/
  forkVerifiedForPeer : String → Bool := fun _ => false
  forkDrops : String → Option Nat := fun _ => none
  peerRequests : String → Option (PeerRequests Hash Header) := fun _ => none
  timers : List (Timer Hash Header) := []
  validations : List (Validation Header Tx) := []
  nextTimer : Nat := 0

/-- What peers send. -/
inductive Message (Hash Header Tx : Type) where
  /-- A body that makes no block is `none`. -/
  | blockBodies (payload : List (Option (List Tx × List Header)))
  | blockHeaders (payload : List Header)
  | getBlockBodies
  | getBlockHeaders (number : Nat)
  | getNodeData
  | getReceipts
  | newBlock (block : EthereumBlock Header Tx)
  | newBlockHashes (payload : List Hash)
  | tx (payload : List Tx)
  | receipts
  | nodeData
  deriving DecidableEq, Repr

/-- What is sent to peers. -/
inductive Outgoing (Hash : Type) where
  | status
  | getForkHeader
  | getBlockHeaders (blockHash : Hash)
  | getBlockBodies (blockHash : Hash)
  | blockBodies
  | forkHeader
  | noHeaders
  | nodeData
  | receipts
  deriving DecidableEq, Repr

inductive Action (Hash Header Tx : Type) where
  | newBlock (block : EthereumBlock Header Tx)
  | send (peer : Nat) (message : Outgoing Hash)
  | disconnect (peer : Nat)
  deriving DecidableEq, Repr

/-- `max` of the two caches. -/
def TX_CACHE_MAX : Nat := 2000

def BLOCKS_CACHE_MAX : Nat := 118

abbrev Effect (Hash Header Tx : Type) :=
  EthNetwork Hash Header Tx × List (Action Hash Header Tx)

namespace EthNetwork

variable [DecidableEq Hash] (lib : EthLib Hash Header Tx)

/-- `onNewTx`. -/
def onNewTx (net : EthNetwork Hash Header Tx) (tx : Tx) : EthNetwork Hash Header Tx :=
  if lib.txHash tx ∈ net.txCache then net
  else { net with txCache := lib.lru.use TX_CACHE_MAX net.txCache (lib.txHash tx) }

/-- `onNewBlock`. -/
def onNewBlock (net : EthNetwork Hash Header Tx) (block : EthereumBlock Header Tx) :
    Effect Hash Header Tx :=
  if lib.hash block.header ∈ net.blocksCache then (net, [])
  else
    let net := { net with
      blocksCache := lib.lru.use BLOCKS_CACHE_MAX net.blocksCache (lib.hash block.header) }
    (block.transactions.foldl (onNewTx lib) net, [.newBlock block])

omit [DecidableEq Hash] in
/-- `setTimeout`. -/
def setTimeout (net : EthNetwork Hash Header Tx) (peer : Nat)
    (callback : Callback Hash Header) : EthNetwork Hash Header Tx :=
  { net with
    timers := net.timers ++ [⟨net.nextTimer, peer, callback⟩]
    nextTimer := net.nextTimer + 1 }

omit [DecidableEq Hash] in
/-- A change to the requests of an address, where there are any. -/
def note (net : EthNetwork Hash Header Tx) (addr : String)
    (change : PeerRequests Hash Header → PeerRequests Hash Header) :
    EthNetwork Hash Header Tx :=
  { net with
    peerRequests := Function.update net.peerRequests addr
      ((net.peerRequests addr).map change) }

/-- `clearTimeout` of the drop of an address, if there is one. -/
def clearDrop (net : EthNetwork Hash Header Tx) (addr : String) :
    EthNetwork Hash Header Tx :=
  match net.forkDrops addr with
  | none => net
  | some timeout => { net with timers := net.timers.filter fun timer => timer.id != timeout }

/-- `handleMessageBlockBodies`: each header that waits gets the one body there is. -/
def handleMessageBlockBodies (net : EthNetwork Hash Header Tx) (peer : Nat) (addr : String)
    (payload : List (Option (List Tx × List Header))) : EthNetwork Hash Header Tx :=
  if !net.forkVerifiedForPeer addr then net
  else
    match payload, net.peerRequests addr with
    | [some body], some requests =>
        { net.note addr fun requests => { requests with bodies := [] } with
          validations := net.validations ++ requests.bodies.map fun header =>
            { block := ⟨header, body.1, body.2⟩, peer, fromBody := true } }
    | [none], some _ =>
        net.note addr fun requests => { requests with bodies := requests.bodies.tail }
    | _, _ => net

/-- The hashes behind the one that was found, or none. -/
def behind (hash : Hash) : List Hash → Bool × List Hash
  | [] => (false, [])
  | blockHash :: headers => if hash = blockHash then (true, headers) else behind hash headers

/-- `handleMessageBlockHeaders`. -/
def handleMessageBlockHeaders (net : EthNetwork Hash Header Tx) (peer : Nat)
    (addr : String) (payload : List Header) : EthNetwork Hash Header Tx :=
  if !net.forkVerifiedForPeer addr then
    match payload with
    | [header] =>
        if lib.hash header = lib.ETH_1920000 then
          let net := net.clearDrop addr
          { net with
            forkVerifiedForPeer := Function.update net.forkVerifiedForPeer addr true }
        else net
    | _ => net
  else if payload.length > 1 then net
  else
    let header := payload.head?.getD lib.emptyHeader
    match net.peerRequests addr with
    | none => net
    | some requests =>
        let (found, headers) := behind (lib.hash header) requests.headers
        let net := net.note addr fun requests => { requests with headers }
        if found then net.setTimeout peer (.requestBody (lib.hash header) header) else net

/-- `handleMessageNewBlock`. -/
def handleMessageNewBlock (net : EthNetwork Hash Header Tx) (peer : Nat) (addr : String)
    (newBlock : EthereumBlock Header Tx) : EthNetwork Hash Header Tx :=
  if !net.forkVerifiedForPeer addr then net
  else
    { net with
      validations := net.validations ++ [{ block := newBlock, peer, fromBody := false }] }

/-- One of the hashes of a message. -/
def onNewBlockHash (peer : Nat) (net : EthNetwork Hash Header Tx) (blockHash : Hash) :
    EthNetwork Hash Header Tx :=
  if blockHash ∈ net.blocksCache then net
  else net.setTimeout peer (.requestHeader blockHash)

/-- `handleMessageNewBlockHashes`, which turns away the peers that are found to be on the
other side of the fork, and no peer ever is. -/
def handleMessageNewBlockHashes (net : EthNetwork Hash Header Tx) (peer : Nat)
    (payload : List Hash) : EthNetwork Hash Header Tx :=
  payload.foldl (onNewBlockHash peer) net

/-- `handleMessageTx`. -/
def handleMessageTx (net : EthNetwork Hash Header Tx) (addr : String) (payload : List Tx) :
    EthNetwork Hash Header Tx :=
  if !net.forkVerifiedForPeer addr then net
  else
    payload.foldl (fun net tx => if lib.validate tx then net.onNewTx lib tx else net) net

/-- `handleMessage`. -/
def handleMessage (net : EthNetwork Hash Header Tx) (peer : Nat) (addr : String) :
    Message Hash Header Tx → Effect Hash Header Tx
  | .blockBodies payload => (net.handleMessageBlockBodies peer addr payload, [])
  | .blockHeaders payload => (net.handleMessageBlockHeaders lib peer addr payload, [])
  | .getBlockBodies => (net, [.send peer .blockBodies])
  | .getBlockHeaders number =>
      (net, [.send peer (if number = 1920000 then .forkHeader else .noHeaders)])
  | .getNodeData => (net, [.send peer .nodeData])
  | .getReceipts => (net, [.send peer .receipts])
  | .newBlock block => (net.handleMessageNewBlock peer addr block, [])
  | .newBlockHashes payload => (net.handleMessageNewBlockHashes peer payload, [])
  | .tx payload => (net.handleMessageTx lib addr payload, [])
  | .receipts | .nodeData => (net, [])

omit [DecidableEq Hash] in
/-- `handlePeerAdded` up to its listeners. -/
def handlePeerAdded (net : EthNetwork Hash Header Tx) (peer : Nat) (addr : String) :
    Effect Hash Header Tx :=
  ({ net with peerRequests := Function.update net.peerRequests addr (some {}) },
    [.send peer .status])

/-- The listener of `status`. -/
def onStatus (net : EthNetwork Hash Header Tx) (peer : Nat) (addr : String) :
    Effect Hash Header Tx :=
  let timeout := net.nextTimer
  let net := net.setTimeout peer .drop
  ({ net with forkDrops := Function.update net.forkDrops addr (some timeout) },
    [.send peer .getForkHeader])

/-- A timer that fires. -/
def fire (net : EthNetwork Hash Header Tx) (peer : Nat) (addr : String) :
    Callback Hash Header → Effect Hash Header Tx
  | .requestHeader blockHash =>
      (net.note addr fun requests =>
          { requests with headers := requests.headers ++ [blockHash] },
        [.send peer (.getBlockHeaders blockHash)])
  | .requestBody blockHash header =>
      (net.note addr fun requests =>
          { requests with bodies := requests.bodies ++ [header] },
        [.send peer (.getBlockBodies blockHash)])
  | .drop => (net, [.disconnect peer])

/-- A validation that settles. -/
def settle (net : EthNetwork Hash Header Tx) (validation : Validation Header Tx) :
    Effect Hash Header Tx :=
  match isValidBlock lib validation.block with
  | .error _ => (net, [])
  | .ok true => net.onNewBlock lib validation.block
  | .ok false => (net, if validation.fromBody then [.disconnect validation.peer] else [])

end EthNetwork

/-! ## Runs -/

/-- What can happen.  A timer and a validation go by their place among those under
way. -/
inductive Event (Hash Header Tx : Type) where
  | peerAdded (peer : Nat) (addr : String)
  | status (peer : Nat) (addr : String)
  | close (addr : String)
  | message (peer : Nat) (addr : String) (message : Message Hash Header Tx)
  | timer (i : Nat) (addr : String)
  | validated (i : Nat)
  deriving DecidableEq, Repr

section Runs

variable [DecidableEq Hash] (lib : EthLib Hash Header Tx)

def EthNetwork.step (net : EthNetwork Hash Header Tx) :
    Event Hash Header Tx → Effect Hash Header Tx
  | .peerAdded peer addr => net.handlePeerAdded peer addr
  | .status peer addr => net.onStatus peer addr
  | .close addr => (net.clearDrop addr, [])
  | .message peer addr message => net.handleMessage lib peer addr message
  | .timer i addr =>
      match net.timers[i]? with
      | none => (net, [])
      | some timer =>
          { net with timers := net.timers.eraseIdx i }.fire timer.peer addr timer.callback
  | .validated i =>
      match net.validations[i]? with
      | none => (net, [])
      | some validation =>
          { net with validations := net.validations.eraseIdx i }.settle lib validation

/-- The network and what it has done so far. -/
structure Session (Hash Header Tx : Type) where
  net : EthNetwork Hash Header Tx := {}
  actions : List (Action Hash Header Tx) := []

def Session.step (s : Session Hash Header Tx) (event : Event Hash Header Tx) :
    Session Hash Header Tx :=
  let stepped := s.net.step lib event
  { net := stepped.1, actions := s.actions ++ stepped.2 }

def session (events : List (Event Hash Header Tx)) : Session Hash Header Tx :=
  events.foldl (Session.step lib) {}

end Runs

/-! ## Where a block has come from -/

section Traces

variable (lib : EthLib Hash Header Tx)

/-- The address has shown the header of the fork block. -/
def ShowedFork (past : List (Event Hash Header Tx)) (addr : String) : Prop :=
  ∃ peer header, .message peer addr (.blockHeaders [header]) ∈ past ∧
    lib.hash header = lib.ETH_1920000

/-- Some peer has announced the hash. -/
def Announced (past : List (Event Hash Header Tx)) (hash : Hash) : Prop :=
  ∃ peer addr payload, .message peer addr (.newBlockHashes payload) ∈ past ∧ hash ∈ payload

/-- The message has the block in full, or the body of a block whose hash was
announced. -/
def Brings (past : List (Event Hash Header Tx)) (block : EthereumBlock Header Tx) :
    Message Hash Header Tx → Prop
  | .newBlock sent => sent = block
  | .blockBodies payload =>
      payload = [some (block.transactions, block.uncleHeaders)] ∧
        Announced past (lib.hash block.header)
  | _ => False

/-- A peer that had shown the fork block has sent a message that brings the block. -/
def Sent (past : List (Event Hash Header Tx)) (block : EthereumBlock Header Tx) : Prop :=
  ∃ before peer addr message after, past = before ++ .message peer addr message :: after ∧
    ShowedFork lib before addr ∧ Brings lib before block message

/-- What a timer has been set for was announced. -/
def Callback.Traced (past : List (Event Hash Header Tx)) : Callback Hash Header → Prop
  | .requestHeader blockHash => Announced past blockHash
  | .requestBody _ header => Announced past (lib.hash header)
  | .drop => True

/-- What is waited for was announced. -/
structure PeerRequests.Traced (past : List (Event Hash Header Tx))
    (requests : PeerRequests Hash Header) : Prop where
  headers : ∀ hash ∈ requests.headers, Announced past hash
  bodies : ∀ header ∈ requests.bodies, Announced past (lib.hash header)

/-- Everything that is under way has a reason in the past. -/
structure EthNetwork.Traced (past : List (Event Hash Header Tx))
    (net : EthNetwork Hash Header Tx) : Prop where
  verified : ∀ addr, net.forkVerifiedForPeer addr = true → ShowedFork lib past addr
  requests : ∀ addr requests, net.peerRequests addr = some requests →
    requests.Traced lib past
  timers : ∀ timer ∈ net.timers, timer.callback.Traced lib past
  validations : ∀ validation ∈ net.validations, Sent lib past validation.block

variable {lib} {past : List (Event Hash Header Tx)} {net : EthNetwork Hash Header Tx}

theorem ShowedFork.mono {addr : String} (h : ShowedFork lib past addr)
    (event : Event Hash Header Tx) : ShowedFork lib (past ++ [event]) addr := by
  obtain ⟨peer, header, hmem, hhash⟩ := h
  exact ⟨peer, header, List.mem_append_left _ hmem, hhash⟩

theorem Announced.mono {hash : Hash} (h : Announced past hash)
    (event : Event Hash Header Tx) : Announced (past ++ [event]) hash := by
  obtain ⟨peer, addr, payload, hmem, hhash⟩ := h
  exact ⟨peer, addr, payload, List.mem_append_left _ hmem, hhash⟩

theorem Sent.mono {block : EthereumBlock Header Tx} (h : Sent lib past block)
    (event : Event Hash Header Tx) : Sent lib (past ++ [event]) block := by
  obtain ⟨before, peer, addr, message, after, rfl, hfork, hbrings⟩ := h
  exact ⟨before, peer, addr, message, after ++ [event], by simp, hfork, hbrings⟩

theorem EthNetwork.Traced.mono (h : net.Traced lib past) (event : Event Hash Header Tx) :
    net.Traced lib (past ++ [event]) where
  verified addr haddr := (h.verified addr haddr).mono event
  requests addr requests hrequests :=
    have hold := h.requests addr requests hrequests
    ⟨fun hash hhash => (hold.headers hash hhash).mono event,
      fun header hheader => (hold.bodies header hheader).mono event⟩
  timers timer htimer := by
    have hold := h.timers timer htimer
    cases hcallback : timer.callback with
    | requestHeader blockHash => rw [hcallback] at hold; exact hold.mono event
    | requestBody blockHash header => rw [hcallback] at hold; exact hold.mono event
    | drop => trivial
  validations validation hvalidation := (h.validations validation hvalidation).mono event

theorem EthNetwork.Traced.setTimeout (h : net.Traced lib past) (peer : Nat)
    {callback : Callback Hash Header} (hcallback : callback.Traced lib past) :
    (net.setTimeout peer callback).Traced lib past where
  verified := h.verified
  requests := h.requests
  validations := h.validations
  timers timer htimer := by
    rcases List.mem_append.1 htimer with hold | hlast
    · exact h.timers timer hold
    · rw [List.mem_singleton.1 hlast]
      exact hcallback

theorem EthNetwork.Traced.note (h : net.Traced lib past) (addr : String)
    (change : PeerRequests Hash Header → PeerRequests Hash Header)
    (hchange : ∀ requests, requests.Traced lib past → (change requests).Traced lib past) :
    (net.note addr change).Traced lib past where
  verified := h.verified
  timers := h.timers
  validations := h.validations
  requests addr' requests hrequests := by
    by_cases haddr : addr' = addr
    · subst haddr
      simp only [EthNetwork.note, Function.update_self, Option.map_eq_some_iff] at hrequests
      obtain ⟨old, hold, rfl⟩ := hrequests
      exact hchange old (h.requests addr' old hold)
    · simp only [EthNetwork.note, Function.update_of_ne haddr] at hrequests
      exact h.requests addr' requests hrequests

theorem EthNetwork.Traced.clearDrop (h : net.Traced lib past) (addr : String) :
    (net.clearDrop addr).Traced lib past := by
  rw [EthNetwork.clearDrop]
  split
  · exact h
  · exact ⟨h.verified, h.requests,
      fun timer htimer => h.timers timer (List.mem_of_mem_filter htimer), h.validations⟩

variable [DecidableEq Hash]

/-- A transaction changes one cache. -/
theorem EthNetwork.onNewTx_eq (lib : EthLib Hash Header Tx)
    (net : EthNetwork Hash Header Tx) (tx : Tx) :
    ∃ txCache, net.onNewTx lib tx = { net with txCache } := by
  rw [EthNetwork.onNewTx]
  split
  · exact ⟨net.txCache, rfl⟩
  · exact ⟨_, rfl⟩

/-- Whatever does not depend on that cache is kept by transactions. -/
theorem EthNetwork.foldl_onNewTx {P : EthNetwork Hash Header Tx → Prop}
    (hP : ∀ net txCache, P net → P { net with txCache }) (hnet : P net) (txs : List Tx) :
    P (txs.foldl (EthNetwork.onNewTx lib) net) := by
  refine foldl_invariant (fun net tx h => ?_) hnet txs
  obtain ⟨txCache, heq⟩ := net.onNewTx_eq lib tx
  rw [heq]
  exact hP net txCache h

omit [DecidableEq Hash] in
theorem EthNetwork.Traced.txCache (h : net.Traced lib past) (txCache : List Hash) :
    EthNetwork.Traced lib past { net with txCache } :=
  ⟨h.verified, h.requests, h.timers, h.validations⟩

theorem mem_of_mem_behind {hash other : Hash} {headers : List Hash}
    (h : other ∈ (EthNetwork.behind hash headers).2) : other ∈ headers := by
  induction headers with
  | nil => exact h
  | cons head headers ih =>
      rw [EthNetwork.behind] at h
      split at h
      · exact List.mem_cons_of_mem _ h
      · exact List.mem_cons_of_mem _ (ih h)

theorem mem_of_behind {hash : Hash} {headers : List Hash}
    (h : (EthNetwork.behind hash headers).1 = true) : hash ∈ headers := by
  induction headers with
  | nil => cases h
  | cons head headers ih =>
      rw [EthNetwork.behind] at h
      split at h
      · next heq => rw [heq]; exact List.mem_cons_self
      · exact List.mem_cons_of_mem _ (ih h)

end Traces

section Steps

variable [DecidableEq Hash] {lib : EthLib Hash Header Tx}
  {past : List (Event Hash Header Tx)} {net : EthNetwork Hash Header Tx}

omit [DecidableEq Hash] in
theorem EthNetwork.Traced.verify (h : net.Traced lib past) {addr : String}
    (hfork : ShowedFork lib past addr) :
    EthNetwork.Traced lib past { net with
      forkVerifiedForPeer := Function.update net.forkVerifiedForPeer addr true } := by
  refine ⟨fun addr' haddr' => ?_, h.requests, h.timers, h.validations⟩
  by_cases haddr : addr' = addr
  · rw [haddr]
    exact hfork
  · simp only [Function.update_of_ne haddr] at haddr'
    exact h.verified addr' haddr'

/-- The header that was waited for has a body that is. -/
theorem EthNetwork.Traced.handleMessageBlockHeaders (h : net.Traced lib past) (peer : Nat)
    (addr : String) (payload : List Header) :
    (net.handleMessageBlockHeaders lib peer addr payload).Traced lib
      (past ++ [.message peer addr (.blockHeaders payload)]) := by
  have hmono := h.mono (.message peer addr (.blockHeaders payload))
  unfold EthNetwork.handleMessageBlockHeaders
  by_cases hverified : net.forkVerifiedForPeer addr = true
  · rw [if_neg (by simp [hverified])]
    by_cases hlong : payload.length > 1
    · rw [if_pos hlong]
      exact hmono
    · rw [if_neg hlong]
      cases hrequests : net.peerRequests addr with
      | none => exact hmono
      | some requests =>
          have hwaiting := hmono.requests addr requests hrequests
          have hnote := hmono.note addr (fun old => { old with
            headers := (behind (lib.hash (payload.head?.getD lib.emptyHeader))
              requests.headers).2 }) fun old hold =>
                ⟨fun hash hhash => hwaiting.headers hash (mem_of_mem_behind hhash),
                  hold.bodies⟩
          by_cases hfound : (behind (lib.hash (payload.head?.getD lib.emptyHeader))
              requests.headers).1 = true
          · simp only [hfound, if_true]
            exact hnote.setTimeout peer (hwaiting.headers _ (mem_of_behind hfound))
          · simp only [hfound]
            exact hnote
  · rw [if_pos (by simp [hverified])]
    cases payload with
    | nil => exact hmono
    | cons header rest =>
        cases rest with
        | cons => exact hmono
        | nil =>
            by_cases hfork : lib.hash header = lib.ETH_1920000
            · simp only [if_pos hfork]
              exact (hmono.clearDrop addr).verify ⟨peer, header,
                List.mem_append_right _ (List.mem_singleton_self _), hfork⟩
            · simp only [if_neg hfork]
              exact hmono

omit [DecidableEq Hash] in
/-- The bodies that were waited for make blocks. -/
theorem EthNetwork.Traced.handleMessageBlockBodies (h : net.Traced lib past) (peer : Nat)
    (addr : String) (payload : List (Option (List Tx × List Header))) :
    (net.handleMessageBlockBodies peer addr payload).Traced lib
      (past ++ [.message peer addr (.blockBodies payload)]) := by
  have hmono := h.mono (.message peer addr (.blockBodies payload))
  unfold EthNetwork.handleMessageBlockBodies
  by_cases hverified : net.forkVerifiedForPeer addr = true
  · rw [if_neg (by simp [hverified])]
    split
    · next body requests hrequests =>
        have hnote := hmono.note addr (fun old => { old with
          bodies := [] }) fun old hold => ⟨hold.headers, nofun⟩
        refine ⟨hnote.verified, hnote.requests, hnote.timers, fun validation hmem => ?_⟩
        rcases List.mem_append.1 hmem with hold | hnew
        · exact hmono.validations validation hold
        · obtain ⟨header, hheader, rfl⟩ := List.mem_map.1 hnew
          exact ⟨past, peer, addr, _, [], rfl, h.verified addr hverified, rfl,
            (h.requests addr requests hrequests).bodies header hheader⟩
    · exact hmono.note addr _ fun old hold =>
        ⟨hold.headers, fun header hheader => hold.bodies header (List.mem_of_mem_tail hheader)⟩
    · exact hmono
  · rw [if_pos (by simp [hverified])]
    exact hmono

omit [DecidableEq Hash] in
theorem EthNetwork.Traced.handleMessageNewBlock (h : net.Traced lib past) (peer : Nat)
    (addr : String) (block : EthereumBlock Header Tx) :
    (net.handleMessageNewBlock peer addr block).Traced lib
      (past ++ [.message peer addr (.newBlock block)]) := by
  have hmono := h.mono (.message peer addr (.newBlock block))
  unfold EthNetwork.handleMessageNewBlock
  by_cases hverified : net.forkVerifiedForPeer addr = true
  · rw [if_neg (by simp [hverified])]
    refine ⟨hmono.verified, hmono.requests, hmono.timers, fun validation hmem => ?_⟩
    rcases List.mem_append.1 hmem with hold | hnew
    · exact hmono.validations validation hold
    · rw [List.mem_singleton.1 hnew]
      exact ⟨past, peer, addr, _, [], rfl, h.verified addr hverified, rfl⟩
  · rw [if_pos (by simp [hverified])]
    exact hmono

theorem EthNetwork.Traced.handleMessageNewBlockHashes (h : net.Traced lib past) (peer : Nat)
    (addr : String) (payload : List Hash) :
    (net.handleMessageNewBlockHashes peer payload).Traced lib
      (past ++ [.message peer addr (.newBlockHashes payload)]) := by
  have hmono := h.mono (.message peer addr (.newBlockHashes payload))
  rw [EthNetwork.handleMessageNewBlockHashes]
  refine Along.invariant (C := fun _ hash => hash ∈ payload) (fun net hash hnet hhash => ?_)
    (Along.of_mem (fun _ => id) net) hmono
  rw [EthNetwork.onNewBlockHash]
  split
  · exact hnet
  · exact hnet.setTimeout peer ⟨peer, addr, payload,
      List.mem_append_right _ (List.mem_singleton_self _), hhash⟩

/-- What a message leads to has the message for a reason, or an earlier one. -/
theorem EthNetwork.Traced.handleMessage (h : net.Traced lib past) (peer : Nat)
    (addr : String) (message : Message Hash Header Tx) :
    (net.handleMessage lib peer addr message).1.Traced lib
      (past ++ [.message peer addr message]) := by
  cases message with
  | blockBodies payload => exact h.handleMessageBlockBodies peer addr payload
  | blockHeaders payload => exact h.handleMessageBlockHeaders peer addr payload
  | newBlock block => exact h.handleMessageNewBlock peer addr block
  | newBlockHashes payload => exact h.handleMessageNewBlockHashes peer addr payload
  | tx payload =>
      have hmono := h.mono (.message peer addr (.tx payload))
      simp only [EthNetwork.handleMessage, EthNetwork.handleMessageTx]
      split
      · exact hmono
      · refine foldl_invariant (fun net tx hnet => ?_) hmono payload
        split
        · obtain ⟨txCache, heq⟩ := net.onNewTx_eq lib tx
          rw [heq]
          exact hnet.txCache txCache
        · exact hnet
  | getBlockBodies => exact h.mono _
  | getBlockHeaders number => exact h.mono _
  | getNodeData => exact h.mono _
  | getReceipts => exact h.mono _
  | receipts => exact h.mono _
  | nodeData => exact h.mono _

theorem EthNetwork.Traced.onNewBlock (h : net.Traced lib past)
    (block : EthereumBlock Header Tx) : (net.onNewBlock lib block).1.Traced lib past := by
  rw [EthNetwork.onNewBlock]
  split
  · exact h
  · refine EthNetwork.foldl_onNewTx (P := EthNetwork.Traced lib past)
      (fun _ txCache hnet => hnet.txCache txCache) ?_ block.transactions
    exact ⟨h.verified, h.requests, h.timers, h.validations⟩

omit [DecidableEq Hash] in
theorem EthNetwork.Traced.fire (h : net.Traced lib past) (peer : Nat) (addr : String)
    {callback : Callback Hash Header} (hcallback : callback.Traced lib past) :
    (net.fire peer addr callback).1.Traced lib past := by
  cases callback with
  | requestHeader blockHash =>
      refine h.note addr _ fun requests hold => ⟨fun hash hhash => ?_, hold.bodies⟩
      rcases List.mem_append.1 hhash with hmem | hlast
      · exact hold.headers hash hmem
      · rw [List.mem_singleton.1 hlast]
        exact hcallback
  | requestBody blockHash header =>
      refine h.note addr _ fun requests hold => ⟨hold.headers, fun other hother => ?_⟩
      rcases List.mem_append.1 hother with hmem | hlast
      · exact hold.bodies other hmem
      · rw [List.mem_singleton.1 hlast]
        exact hcallback
  | drop => exact h

/-- **Every step keeps the reasons.** -/
theorem EthNetwork.Traced.step (h : net.Traced lib past) (event : Event Hash Header Tx) :
    (net.step lib event).1.Traced lib (past ++ [event]) := by
  have hmono := h.mono event
  cases event with
  | peerAdded peer addr =>
      refine ⟨hmono.verified, fun addr' requests hrequests => ?_, hmono.timers,
        hmono.validations⟩
      by_cases haddr : addr' = addr
      · subst haddr
        simp only [EthNetwork.step, EthNetwork.handlePeerAdded, Function.update_self,
          Option.some.injEq] at hrequests
        rw [← hrequests]
        exact ⟨nofun, nofun⟩
      · simp only [EthNetwork.step, EthNetwork.handlePeerAdded,
          Function.update_of_ne haddr] at hrequests
        exact hmono.requests addr' requests hrequests
  | status peer addr =>
      have htimer : (net.setTimeout peer .drop).Traced lib _ :=
        hmono.setTimeout peer trivial
      exact ⟨htimer.verified, htimer.requests, htimer.timers, htimer.validations⟩
  | close addr => exact hmono.clearDrop addr
  | message peer addr message => exact h.handleMessage peer addr message
  | timer i addr =>
      rw [EthNetwork.step]
      split
      · exact hmono
      · next timer hi =>
          have herased : EthNetwork.Traced lib (past ++ [.timer i addr])
              { net with timers := net.timers.eraseIdx i } :=
            ⟨hmono.verified, hmono.requests,
              fun t ht => hmono.timers t (List.mem_of_mem_eraseIdx ht), hmono.validations⟩
          exact herased.fire timer.peer addr
            (hmono.timers timer (List.mem_of_getElem? hi))
  | validated i =>
      rw [EthNetwork.step]
      split
      · exact hmono
      · next validation hi =>
          have herased : EthNetwork.Traced lib (past ++ [.validated i])
              { net with validations := net.validations.eraseIdx i } :=
            ⟨hmono.verified, hmono.requests, hmono.timers,
              fun v hv => hmono.validations v (List.mem_of_mem_eraseIdx hv)⟩
          rw [EthNetwork.settle]
          split
          · exact herased
          · exact herased.onNewBlock validation.block
          · exact herased

end Steps

/-! ## What is passed on -/

/-- The block that an action passes on. -/
def Action.block? : Action Hash Header Tx → Option (EthereumBlock Header Tx)
  | .newBlock block => some block
  | _ => none

/-- The blocks that have been passed on, the first one first. -/
def Session.emitted (s : Session Hash Header Tx) : List (EthereumBlock Header Tx) :=
  s.actions.filterMap Action.block?

section Emitted

variable [DecidableEq Hash] (lib : EthLib Hash Header Tx)

/-- What a step passes on is one of the blocks that were being validated, valid and not
among the last ones. -/
structure Emits (net : EthNetwork Hash Header Tx) (stepped : Effect Hash Header Tx)
    (block : EthereumBlock Header Tx) : Prop where
  validating : ∃ validation ∈ net.validations, validation.block = block
  valid : isValidBlock lib block = .ok true
  new : lib.hash block.header ∉ net.blocksCache
  emitted : stepped.2.filterMap Action.block? = [block]
  cache : stepped.1.blocksCache =
    lib.lru.use BLOCKS_CACHE_MAX net.blocksCache (lib.hash block.header)

variable {lib}

theorem EthNetwork.blocksCache_onNewTxs (txs : List Tx) (net : EthNetwork Hash Header Tx) :
    (txs.foldl (EthNetwork.onNewTx lib) net).blocksCache = net.blocksCache :=
  EthNetwork.foldl_onNewTx (P := fun net' => net'.blocksCache = net.blocksCache)
    (fun _ _ => id) rfl txs

omit [DecidableEq Hash] in
theorem EthNetwork.blocksCache_clearDrop (net : EthNetwork Hash Header Tx) (addr : String) :
    (net.clearDrop addr).blocksCache = net.blocksCache := by
  rw [EthNetwork.clearDrop]
  split <;> rfl

/-- A message passes nothing on by itself. -/
theorem EthNetwork.handleMessage_silent (net : EthNetwork Hash Header Tx) (peer : Nat)
    (addr : String) (message : Message Hash Header Tx) :
    (net.handleMessage lib peer addr message).2.filterMap Action.block? = [] ∧
      (net.handleMessage lib peer addr message).1.blocksCache = net.blocksCache := by
  cases message with
  | blockBodies payload =>
      refine ⟨rfl, ?_⟩
      simp only [EthNetwork.handleMessage, EthNetwork.handleMessageBlockBodies]
      split
      · rfl
      · split <;> rfl
  | blockHeaders payload =>
      refine ⟨rfl, ?_⟩
      simp only [EthNetwork.handleMessage]
      unfold EthNetwork.handleMessageBlockHeaders
      by_cases hverified : net.forkVerifiedForPeer addr = true
      · rw [if_neg (by simp [hverified])]
        split
        · rfl
        · split
          · rfl
          · simp only [EthNetwork.setTimeout, EthNetwork.note]
            split <;> rfl
      · rw [if_pos (by simp [hverified])]
        split
        · split
          · exact net.blocksCache_clearDrop addr
          · rfl
        · rfl
  | newBlock block =>
      refine ⟨rfl, ?_⟩
      simp only [EthNetwork.handleMessage, EthNetwork.handleMessageNewBlock]
      split <;> rfl
  | newBlockHashes payload =>
      refine ⟨rfl, ?_⟩
      refine foldl_invariant (I := fun net' : EthNetwork Hash Header Tx =>
        net'.blocksCache = net.blocksCache)
        (fun net' hash hnet => ?_) rfl payload
      rw [EthNetwork.onNewBlockHash]
      split <;> exact hnet
  | tx payload =>
      refine ⟨rfl, ?_⟩
      simp only [EthNetwork.handleMessage, EthNetwork.handleMessageTx]
      split
      · rfl
      · refine foldl_invariant (I := fun net' : EthNetwork Hash Header Tx =>
        net'.blocksCache = net.blocksCache)
          (fun net' tx hnet => ?_) rfl payload
        split
        · obtain ⟨txCache, heq⟩ := net'.onNewTx_eq lib tx
          rw [heq]
          exact hnet
        · exact hnet
  | getBlockBodies => exact ⟨rfl, rfl⟩
  | getBlockHeaders number => exact ⟨rfl, rfl⟩
  | getNodeData => exact ⟨rfl, rfl⟩
  | getReceipts => exact ⟨rfl, rfl⟩
  | receipts => exact ⟨rfl, rfl⟩
  | nodeData => exact ⟨rfl, rfl⟩

/-- **A step passes on one block or none.** -/
theorem EthNetwork.step_emits (lib : EthLib Hash Header Tx) (net : EthNetwork Hash Header Tx)
    (event : Event Hash Header Tx) :
    ((net.step lib event).2.filterMap Action.block? = [] ∧
      (net.step lib event).1.blocksCache = net.blocksCache) ∨
    ∃ block, Emits lib net (net.step lib event) block := by
  cases event with
  | peerAdded peer addr => exact .inl ⟨rfl, rfl⟩
  | status peer addr => exact .inl ⟨rfl, rfl⟩
  | close addr => exact .inl ⟨rfl, net.blocksCache_clearDrop addr⟩
  | message peer addr message => exact .inl (net.handleMessage_silent peer addr message)
  | timer i addr =>
      left
      rw [EthNetwork.step]
      split
      · exact ⟨rfl, rfl⟩
      · next timer hi => cases timer.callback <;> exact ⟨rfl, rfl⟩
  | validated i =>
      rw [EthNetwork.step]
      split
      · exact .inl ⟨rfl, rfl⟩
      · next validation hi =>
          rw [EthNetwork.settle]
          split
          · exact .inl ⟨rfl, rfl⟩
          · next hvalid =>
              rw [EthNetwork.onNewBlock]
              split
              · exact .inl ⟨rfl, rfl⟩
              · next hnew =>
                  exact .inr ⟨validation.block, ⟨validation, List.mem_of_getElem? hi, rfl⟩,
                    hvalid, hnew, rfl, EthNetwork.blocksCache_onNewTxs _ _⟩
          · left
            split <;> exact ⟨rfl, rfl⟩

theorem Session.emitted_step (s : Session Hash Header Tx) (event : Event Hash Header Tx) :
    (s.step lib event).emitted =
      s.emitted ++ (s.net.step lib event).2.filterMap Action.block? :=
  List.filterMap_append

variable (lib)

/-- **Where a block has come from.**  In every run, what is passed on is valid, and was
sent, in full or as the body to a header whose hash had been announced, by a peer whose
address had shown the fork block before. -/
theorem emitted_traced (events : List (Event Hash Header Tx)) :
    ∀ block ∈ (session lib events).emitted,
      isValidBlock lib block = .ok true ∧ Sent lib events block := by
  have htraced : (session lib events).net.Traced lib events ∧
      ∀ block ∈ (session lib events).emitted,
        isValidBlock lib block = .ok true ∧ Sent lib events block := by
    refine foldl_history (I := fun past (s : Session Hash Header Tx) =>
      s.net.Traced lib past ∧ ∀ block ∈ s.emitted,
        isValidBlock lib block = .ok true ∧ Sent lib past block)
      (fun past s event h => ⟨h.1.step event, fun block hblock => ?_⟩) ⟨?_, ?_⟩ events
    · rw [Session.emitted_step] at hblock
      have hold (hmem : block ∈ s.emitted) :=
        (h.2 block hmem).imp_right fun hsent => hsent.mono event
      rcases s.net.step_emits lib event with ⟨hnone, -⟩ | ⟨emitted, hemits⟩
      · rw [hnone, List.append_nil] at hblock
        exact hold hblock
      · rw [hemits.emitted] at hblock
        rcases List.mem_append.1 hblock with hmem | hlast
        · exact hold hmem
        · rw [List.mem_singleton.1 hlast]
          obtain ⟨validation, hvalidation, hblock⟩ := hemits.validating
          exact ⟨hemits.valid, hblock ▸ (h.1.validations validation hvalidation).mono event⟩
    · exact ⟨nofun, nofun, nofun, nofun⟩
    · intro block hblock
      cases hblock
  exact htraced.2

/-- **How long it takes until a block is passed on again.**  In every run, between two
blocks of one hash there are 118 of other hashes. -/
theorem emitted_spaced (events : List (Event Hash Header Tx)) :
    Lru.Spaced BLOCKS_CACHE_MAX
      ((session lib events).emitted.map fun block => lib.hash block.header) := by
  have hspaced : Lru.Remembers BLOCKS_CACHE_MAX (session lib events).net.blocksCache
        ((session lib events).emitted.map fun block => lib.hash block.header).reverse ∧
      Lru.Spaced BLOCKS_CACHE_MAX
        ((session lib events).emitted.map fun block => lib.hash block.header).reverse := by
    refine foldl_invariant (I := fun s : Session Hash Header Tx =>
      Lru.Remembers BLOCKS_CACHE_MAX s.net.blocksCache
          (s.emitted.map fun block => lib.hash block.header).reverse ∧
        Lru.Spaced BLOCKS_CACHE_MAX
          (s.emitted.map fun block => lib.hash block.header).reverse)
      (fun s event h => ?_) ?_ events
    · rw [Session.emitted_step]
      rcases s.net.step_emits lib event with ⟨hnone, hcache⟩ | ⟨block, hemits⟩
      · rw [hnone, List.append_nil, Session.step, hcache]
        exact h
      · rw [hemits.emitted, List.map_append, List.map_singleton, List.reverse_append,
          List.reverse_singleton, List.singleton_append, Session.step, hemits.cache]
        exact ⟨h.1.use lib.lru _, h.2.cons h.1 hemits.new⟩
    · exact ⟨Lru.Remembers.nil _, Lru.Spaced.nil _⟩
  rw [← List.reverse_reverse (List.map _ _)]
  exact hspaced.2.reverse

end Emitted

/-- Numbers for everything, each its own hash. -/
def sampleEthLib : EthLib Nat Nat Nat where
  lru := Lru.taking
  hash := id
  emptyHeader := 0
  txHash := id
  validate _ := true
  validateUnclesHash _ := true
  validateTransactionsTrie block := .ok (block.transactions = [block.header])
  ETH_1920000 := 1920000

/-- A block in three steps, from a peer that has shown the fork block. -/
def sampleFetch : List (Event Nat Nat Nat) :=
  [.peerAdded 0 "a", .message 0 "a" (.blockHeaders [1920000]),
    .message 0 "a" (.newBlockHashes [7]), .timer 0 "a", .message 0 "a" (.blockHeaders [7]),
    .timer 0 "a", .message 0 "a" (.blockBodies [some ([7], [])]), .validated 0]

example : (session sampleEthLib sampleFetch).emitted = [⟨7, [7], []⟩] := by decide

theorem emitted_traced_sample :
    isValidBlock sampleEthLib ⟨7, [7], []⟩ = .ok true ∧
      Sent sampleEthLib sampleFetch ⟨7, [7], []⟩ :=
  emitted_traced sampleEthLib sampleFetch ⟨7, [7], []⟩ (by decide)

end BcNode.Rover.Eth
