import BcNode.Js.Objects
import BcNode.Verified.Run

/-!
# The peer manager

`PeerManager` keeps the peers the node is connected to in one book and those it has
only heard of in another.  The bundle tells it of discoveries, connections and
disconnections.  A discovered peer is dialled, and the status of a connected one is
checked; both end in callbacks that come when they come, and those that tell of a
failure take the peer out of the book again.

A `PeerManager` here is what these handlers read and write, and a run is any sequence
of their calls and callbacks.  `peer-book` is a parameter.  The connections
themselves, the events that are emitted and the messages that are logged are left
out.

A discovered peer is dialled while the book has fewer than `QUORUM_SIZE` peers, but a
connection is refused only when it has more.  So a connection to a full book puts one
peer too many into it, and `connected_bounded_iff` says that nothing else does.
-/

namespace BcNode.P2p

open BcNode.Verified BcNode.Js

variable {Meta : Type}

/-- A `PeerInfo`; `id` is its `id.toB58String()`, and `info` its `meta`. -/
structure PeerInfo (Meta : Type) where
  id : String
  info : Option Meta := none
  deriving DecidableEq, Repr

/-- The class `Book` of the package `peer-book`, on its `_peers`. -/
structure PeerBook (Meta : Type) where
  has : Obj (PeerInfo Meta) → PeerInfo Meta → Bool
  put : Obj (PeerInfo Meta) → PeerInfo Meta → Obj (PeerInfo Meta)
  remove : Obj (PeerInfo Meta) → PeerInfo Meta → Obj (PeerInfo Meta)

/-- What the package promises: a peer is kept under its identifier. -/
structure PeerBook.Lawful (book : PeerBook Meta) : Prop where
  has_iff : ∀ peers peer, book.has peers peer = true ↔ peer.id ∈ peers.map Prod.fst
  put_new : ∀ peers peer, book.has peers peer = false →
    book.put peers peer = peers ++ [(peer.id, peer)]
  remove_eq : ∀ peers peer,
    book.remove peers peer = peers.filter fun entry => entry.1 != peer.id

/-- `put` of `ManagedPeerBook`: a peer that was in the book keeps its `meta` unless it
comes with one. -/
def PeerBook.managedPut (book : PeerBook Meta) (peers : Obj (PeerInfo Meta))
    (peer : PeerInfo Meta) : Obj (PeerInfo Meta) :=
  match peers.lookup peer.id with
  | none => book.put peers peer
  | some oldPeer => (book.put peers peer).map fun entry =>
      if entry.1 == peer.id then
        (entry.1, { entry.2 with info := peer.info.or oldPeer.info })
      else entry

/-- `getPeersCount` of `ManagedPeerBook`. -/
def getPeersCount (peers : Obj (PeerInfo Meta)) : Nat := peers.keys.length

/-- The two sizes and the switch the manager starts with. -/
structure ManagerConfig where
  QUORUM_SIZE : Nat
  PEER_QUORUM_SIZE : Int
  BC_P2P_PASSIVE : Bool
  deriving DecidableEq, Repr

/-- The state of a `PeerManager`.  `started` are the identifiers of the peers for which a
dial or a check has been started. -/
structure PeerManager (Meta : Type) where
  peerBookConnected : Obj (PeerInfo Meta) := []
  peerBookDiscovered : Obj (PeerInfo Meta) := []
  peerBookSchedule : Obj (List (PeerInfo Meta)) := []
  lastQuorumSync : Option Nat := none
  quorumSyncing : Bool := false
  started : List String := []

/-- What a handler has returned. -/
inductive Answer where
  | resolved (value : Bool)
  | rejected
  | pending
  deriving DecidableEq, Repr

section Handlers

variable (book : PeerBook Meta) (config : ManagerConfig) (peer : PeerInfo Meta)
  (manager : PeerManager Meta)

/-- `disconnectPeer`. -/
def PeerManager.disconnectPeer : PeerManager Meta :=
  if book.has manager.peerBookConnected peer then
    { manager with peerBookConnected := book.remove manager.peerBookConnected peer }
  else manager

/-- `removePeer`. -/
def PeerManager.removePeer : PeerManager Meta :=
  if book.has manager.peerBookDiscovered peer then
    { manager with peerBookDiscovered := book.remove manager.peerBookDiscovered peer }
  else manager

/-- `onPeerDiscovery`; `throws` says that `dial` does. -/
def PeerManager.onPeerDiscovery (throws : Bool) : Answer × PeerManager Meta :=
  if !book.has manager.peerBookDiscovered peer &&
      config.QUORUM_SIZE ≤ getPeersCount manager.peerBookConnected then
    let discovered := book.managedPut manager.peerBookDiscovered peer
    (.resolved false,
      { manager with peerBookDiscovered := discovered }.disconnectPeer book peer)
  else if config.QUORUM_SIZE ≤ getPeersCount manager.peerBookConnected then
    (.resolved false, manager.disconnectPeer book peer)
  else if !config.BC_P2P_PASSIVE && !book.has manager.peerBookConnected peer &&
      getPeersCount manager.peerBookConnected < config.QUORUM_SIZE then
    if throws then (.rejected, manager.removePeer book peer)
    else (.pending, { manager with started := peer.id :: manager.started })
  else (.resolved false, manager)

/-- The synchronisation that the first connection of a full quorum sets off. -/
def PeerManager.startQuorumSync (clock : Nat) : PeerManager Meta :=
  if manager.lastQuorumSync.isNone ∧
      config.PEER_QUORUM_SIZE ≤ getPeersCount manager.peerBookConnected then
    { manager with quorumSyncing := true, lastQuorumSync := some clock }
  else manager

/-- The entry of a connected peer in the schedule, at a random number of seconds below
700 from now. -/
def PeerManager.schedulePeer (clock bound : Nat) : PeerManager Meta :=
  let count := getPeersCount manager.peerBookConnected
  if 0 < count ∧ config.QUORUM_SIZE / 2 < count then
    let time := toString (clock / 1000 + bound)
    let scheduled := (manager.peerBookSchedule.lookup time).getD []
    { manager with
      peerBookSchedule := manager.peerBookSchedule.assign time (scheduled ++ [peer]) }
  else manager

/-- `onPeerConnect`, up to the status check. -/
def PeerManager.onPeerConnect (clock bound : Nat) : Answer × PeerManager Meta :=
  if book.has manager.peerBookConnected peer then (.resolved false, manager)
  else if config.QUORUM_SIZE < getPeersCount manager.peerBookConnected then
    (.resolved false, manager.disconnectPeer book peer)
  else
    let manager := (manager.startQuorumSync config clock).schedulePeer config peer
      clock bound
    (.pending, { manager with
      peerBookConnected := book.managedPut manager.peerBookConnected peer
      started := peer.id :: manager.started })

/-- `onPeerDisconnect`.  To the books it does what `disconnectPeer` and `removePeer`
do. -/
def PeerManager.onPeerDisconnect : Answer × PeerManager Meta :=
  (.resolved true, (manager.disconnectPeer book peer).removePeer book peer)

/-- The status of a peer has been read: `info` is its `meta` from now on. -/
def PeerManager.readStatus (info : Meta) : PeerManager Meta :=
  if book.has manager.peerBookConnected peer then
    { manager with peerBookConnected := manager.peerBookConnected.map fun entry =>
        if entry.1 == peer.id then (entry.1, { entry.2 with info := some info })
        else entry }
  else manager

end Handlers

/-! ## Runs -/

/-- The calls of the handlers, and the callbacks of what they have started: a dial or a
check has failed, or a status has been read. -/
inductive PeerEvent (Meta : Type) where
  | discovery (peer : PeerInfo Meta) (throws : Bool)
  | connect (peer : PeerInfo Meta) (clock bound : Nat)
  | disconnect (peer : PeerInfo Meta)
  | failed (peer : PeerInfo Meta)
  | status (peer : PeerInfo Meta) (info : Meta)

/-- One event.  A callback comes only for a peer whose dial or check has been started; it
may come more than once, because a check that has timed out can still fail. -/
def PeerManager.step (book : PeerBook Meta) (config : ManagerConfig)
    (manager : PeerManager Meta) : PeerEvent Meta → PeerManager Meta
  | .discovery peer throws => (manager.onPeerDiscovery book config peer throws).2
  | .connect peer clock bound => (manager.onPeerConnect book config peer clock bound).2
  | .disconnect peer => (manager.onPeerDisconnect book peer).2
  | .failed peer =>
      if peer.id ∈ manager.started then manager.disconnectPeer book peer else manager
  | .status peer info =>
      if peer.id ∈ manager.started then manager.readStatus book peer info else manager

/-- The book of connected peers holds each peer once and is not over the quorum. -/
structure PeerManager.Bounded (config : ManagerConfig) (manager : PeerManager Meta) :
    Prop where
  once : (manager.peerBookConnected.values.map (·.id)).Nodup
  count : getPeersCount manager.peerBookConnected ≤ config.QUORUM_SIZE

/-- A new peer does not connect while the book is full. -/
def PeerManager.HasRoom (book : PeerBook Meta) (config : ManagerConfig)
    (manager : PeerManager Meta) : PeerEvent Meta → Prop
  | .connect peer _ _ =>
      getPeersCount manager.peerBookConnected = config.QUORUM_SIZE →
        book.has manager.peerBookConnected peer = true
  | _ => True

/-! ## What an event does to the book -/

/-- The keys of a book, each with the identifier of the peer it leads to. -/
def filed (peers : Obj (PeerInfo Meta)) : List (String × String) :=
  peers.map fun entry => (entry.1, entry.2.id)

/-- Every peer is under its own identifier. -/
def Filed (peers : Obj (PeerInfo Meta)) : Prop := ∀ entry ∈ filed peers, entry.1 = entry.2

theorem getPeersCount_eq (peers : Obj (PeerInfo Meta)) :
    getPeersCount peers = peers.length := by
  rw [getPeersCount, peers.keys_perm.length_eq, List.length_map]

theorem ids_eq (peers : Obj (PeerInfo Meta)) :
    peers.values.map (·.id) = (filed peers).map Prod.snd := by
  rw [Obj.values, filed, List.map_map, List.map_map]
  rfl

variable {book : PeerBook Meta} {config : ManagerConfig} {peer : PeerInfo Meta}
  {manager : PeerManager Meta}

theorem filed_disconnectPeer (hbook : book.Lawful) :
    (filed (manager.disconnectPeer book peer).peerBookConnected).Sublist
      (filed manager.peerBookConnected) := by
  rw [PeerManager.disconnectPeer]
  split
  · rw [hbook.remove_eq]
    exact List.filter_sublist.map _
  · exact List.Sublist.refl _

theorem filed_readStatus (info : Meta) :
    filed (manager.readStatus book peer info).peerBookConnected =
      filed manager.peerBookConnected := by
  rw [PeerManager.readStatus]
  split
  · rw [filed, List.map_map]
    refine List.map_congr_left fun entry _ => ?_
    by_cases hentry : entry.1 = peer.id <;> simp [hentry]
  · rfl

theorem removePeer_connected :
    (manager.removePeer book peer).peerBookConnected = manager.peerBookConnected := by
  rw [PeerManager.removePeer]
  split <;> rfl

theorem startQuorumSync_connected (clock : Nat) :
    (manager.startQuorumSync config clock).peerBookConnected =
      manager.peerBookConnected := by
  rw [PeerManager.startQuorumSync]
  split <;> rfl

theorem schedulePeer_connected (clock bound : Nat) :
    (manager.schedulePeer config peer clock bound).peerBookConnected =
      manager.peerBookConnected := by
  simp only [PeerManager.schedulePeer]
  split <;> rfl

/-- Discoveries take no peer in. -/
theorem filed_onPeerDiscovery (hbook : book.Lawful) (throws : Bool) :
    (filed (manager.onPeerDiscovery book config peer throws).2.peerBookConnected).Sublist
      (filed manager.peerBookConnected) := by
  simp only [PeerManager.onPeerDiscovery]
  split
  · exact filed_disconnectPeer hbook
  · split
    · exact filed_disconnectPeer hbook
    · split
      · split
        · rw [removePeer_connected]
        · exact List.Sublist.refl _
      · exact List.Sublist.refl _

/-- A connection of a new peer takes it in, unless the book has too many already. -/
theorem onPeerConnect_connected (hbook : book.Lawful) (clock bound : Nat)
    (hnew : book.has manager.peerBookConnected peer = false)
    (hcount : getPeersCount manager.peerBookConnected ≤ config.QUORUM_SIZE) :
    (manager.onPeerConnect book config peer clock bound).2.peerBookConnected =
      manager.peerBookConnected ++ [(peer.id, peer)] := by
  have hlookup : manager.peerBookConnected.lookup peer.id = none := by
    refine List.lookup_eq_none_iff.2 fun entry hentry => bne_iff_ne.2 fun heq => ?_
    have hkey : entry.1 ∈ manager.peerBookConnected.map Prod.fst :=
      List.mem_map_of_mem hentry
    exact absurd ((hbook.has_iff _ peer).2 (heq ▸ hkey)) (hnew ▸ Bool.false_ne_true)
  rw [PeerManager.onPeerConnect, if_neg (hnew ▸ Bool.false_ne_true),
    if_neg (Nat.not_lt.2 hcount)]
  show book.managedPut ((manager.startQuorumSync config clock).schedulePeer config peer
    clock bound).peerBookConnected peer = _
  rw [schedulePeer_connected, startQuorumSync_connected, PeerBook.managedPut, hlookup]
  exact hbook.put_new _ peer hnew

/-- **What an event does to the book.**  It takes a new peer in where there are not too
many, or it takes none in; and then, if there are not too many, no new one has come to
a full book. -/
theorem step_connected (hbook : book.Lawful) (config : ManagerConfig)
    (manager : PeerManager Meta) (event : PeerEvent Meta) :
    ((filed (manager.step book config event).peerBookConnected).Sublist
        (filed manager.peerBookConnected) ∧
      (getPeersCount manager.peerBookConnected ≤ config.QUORUM_SIZE →
        manager.HasRoom book config event)) ∨
      ∃ peer clock bound, event = .connect peer clock bound ∧
        book.has manager.peerBookConnected peer = false ∧
        (manager.step book config event).peerBookConnected =
          manager.peerBookConnected ++ [(peer.id, peer)] := by
  cases event with
  | discovery peer throws =>
      exact .inl ⟨filed_onPeerDiscovery hbook throws, fun _ => trivial⟩
  | connect peer clock bound =>
      by_cases hhas : book.has manager.peerBookConnected peer = true
      · left
        rw [PeerManager.step, PeerManager.onPeerConnect, if_pos hhas]
        exact ⟨List.Sublist.refl _, fun _ _ => hhas⟩
      · have hnew := Bool.eq_false_of_not_eq_true hhas
        by_cases hcount : getPeersCount manager.peerBookConnected ≤ config.QUORUM_SIZE
        · exact .inr ⟨peer, clock, bound, rfl, hnew,
            onPeerConnect_connected hbook clock bound hnew hcount⟩
        · left
          rw [PeerManager.step, PeerManager.onPeerConnect, if_neg hhas,
            if_pos (Nat.lt_of_not_le hcount)]
          exact ⟨filed_disconnectPeer hbook, fun hle => absurd hle hcount⟩
  | disconnect peer =>
      refine .inl ⟨?_, fun _ => trivial⟩
      rw [PeerManager.step, PeerManager.onPeerDisconnect]
      show (filed ((manager.disconnectPeer book peer).removePeer book
        peer).peerBookConnected).Sublist _
      rw [removePeer_connected]
      exact filed_disconnectPeer hbook
  | failed peer =>
      refine .inl ⟨?_, fun _ => trivial⟩
      rw [PeerManager.step]
      split
      · exact filed_disconnectPeer hbook
      · exact List.Sublist.refl _
  | status peer info =>
      refine .inl ⟨?_, fun _ => trivial⟩
      rw [PeerManager.step]
      split
      · rw [filed_readStatus]
      · exact List.Sublist.refl _

theorem filed_step (hbook : book.Lawful) (config : ManagerConfig) (event : PeerEvent Meta)
    (h : Filed manager.peerBookConnected) :
    Filed (manager.step book config event).peerBookConnected := by
  rcases step_connected hbook config manager event with
    ⟨hfewer, -⟩ | ⟨peer, clock, bound, -, -, hafter⟩
  · exact fun entry hentry => h entry (hfewer.subset hentry)
  · rw [hafter, Filed, filed, List.map_append]
    intro entry hentry
    rcases List.mem_append.1 hentry with hold | hadded
    · exact h entry hold
    · rw [List.mem_singleton.1 hadded]

/-- Fewer peers stay bounded. -/
theorem PeerManager.Bounded.of_sublist {manager' : PeerManager Meta}
    (h : manager.Bounded config) (hfewer : (filed manager'.peerBookConnected).Sublist
      (filed manager.peerBookConnected)) :
    manager'.Bounded config where
  once := by
    rw [ids_eq]
    exact (hfewer.map Prod.snd).nodup (ids_eq _ ▸ h.once)
  count := by
    have hlength := hfewer.length_le
    rw [filed, filed, List.length_map, List.length_map, ← getPeersCount_eq,
      ← getPeersCount_eq] at hlength
    exact Nat.le_trans hlength h.count

/-- A peer that the book does not have is none of its peers. -/
theorem not_mem_ids (hbook : book.Lawful) (hfiled : Filed manager.peerBookConnected)
    (hnew : book.has manager.peerBookConnected peer = false) :
    peer.id ∉ manager.peerBookConnected.values.map (·.id) := by
  intro hmem
  obtain ⟨info, hinfo, heq⟩ := List.mem_map.1 hmem
  obtain ⟨entry, hentry, rfl⟩ := List.mem_map.1 hinfo
  have hkey : entry.1 = entry.2.id :=
    hfiled (entry.1, entry.2.id) (List.mem_map_of_mem hentry)
  have hhas := (hbook.has_iff manager.peerBookConnected peer).2
    (List.mem_map.2 ⟨entry, hentry, hkey.trans heq⟩)
  exact absurd hhas (hnew ▸ Bool.false_ne_true)

/-- A step from a bounded book leads to a bounded one exactly if there is room. -/
theorem bounded_step_iff (hbook : book.Lawful) (event : PeerEvent Meta)
    (hfiled : Filed manager.peerBookConnected) (h : manager.Bounded config) :
    (manager.step book config event).Bounded config ↔
      manager.HasRoom book config event := by
  rcases step_connected hbook config manager event with
    ⟨hfewer, hroom⟩ | ⟨peer, clock, bound, rfl, hnew, hafter⟩
  · exact iff_of_true (h.of_sublist hfewer) (hroom h.count)
  · have hcount : getPeersCount (manager.step book config
          (.connect peer clock bound)).peerBookConnected =
        getPeersCount manager.peerBookConnected + 1 := by
      rw [hafter, getPeersCount_eq, getPeersCount_eq, List.length_append,
        List.length_singleton]
    constructor
    · intro hbounded hfull
      have hover := hbounded.count
      omega
    · intro hroom
      have hnotFull : getPeersCount manager.peerBookConnected ≠ config.QUORUM_SIZE :=
        fun hfull => absurd (hroom hfull) (hnew ▸ Bool.false_ne_true)
      have hbound := h.count
      refine ⟨?_, by omega⟩
      rw [hafter, Obj.values, List.map_append, List.map_append]
      refine List.nodup_append'.2 ⟨h.once, List.nodup_singleton _, ?_⟩
      exact List.disjoint_singleton.2 (not_mem_ids hbook hfiled hnew)

/-- **The book is over the quorum only after a connection to a full one.**  In every
run of a new manager the book holds each connected peer once and at most `QUORUM_SIZE`
of them throughout, if and only if no new peer connects while it holds `QUORUM_SIZE`. -/
theorem connected_bounded_iff (hbook : book.Lawful) (config : ManagerConfig)
    (events : List (PeerEvent Meta)) :
    Along (PeerManager.step book config) (PeerManager.HasRoom book config) {} events ↔
      ∀ k, ((events.take k).foldl (PeerManager.step book config) {}).Bounded config := by
  exact Along.iff_invariant_within
    (T := fun manager : PeerManager Meta => Filed manager.peerBookConnected)
    (fun _ event h => filed_step hbook config event h)
    (fun _ event hfiled h => bounded_step_iff hbook event hfiled h)
    (fun _ h => absurd h List.not_mem_nil) ⟨List.nodup_nil, Nat.zero_le _⟩

/-- A book as the package keeps it. -/
def sampleBook : PeerBook Unit where
  has peers peer := peers.any fun entry => entry.1 == peer.id
  put peers peer :=
    if peers.any fun entry => entry.1 == peer.id then peers else peers ++ [(peer.id, peer)]
  remove peers peer := peers.filter fun entry => entry.1 != peer.id

theorem sampleBook_lawful : sampleBook.Lawful where
  has_iff := by
    intro peers peer
    show (peers.any fun entry => entry.1 == peer.id) = true ↔ _
    rw [List.any_eq_true, List.mem_map]
    simp only [beq_iff_eq]
  put_new := by
    intro peers peer h
    exact if_neg (Bool.eq_false_iff.1 h)
  remove_eq := fun _ _ => rfl

/-- A quorum of one. -/
def sampleQuorum : ManagerConfig where
  QUORUM_SIZE := 1
  PEER_QUORUM_SIZE := 1
  BC_P2P_PASSIVE := false

/-- Two peers are discovered, and then both connect. -/
def sampleCrowd : List (PeerEvent Unit) :=
  [.discovery { id := "a" } false, .discovery { id := "b" } false,
    .connect { id := "a" } 1000 0, .connect { id := "b" } 1000 0]

theorem sampleCrowd_bounded_iff :
    Along (PeerManager.step sampleBook sampleQuorum)
        (PeerManager.HasRoom sampleBook sampleQuorum) {} sampleCrowd ↔
      ∀ k, ((sampleCrowd.take k).foldl (PeerManager.step sampleBook sampleQuorum)
        {}).Bounded sampleQuorum :=
  connected_bounded_iff sampleBook_lawful sampleQuorum sampleCrowd

/-- The book of the quorum of one ends with two peers. -/
theorem sampleCrowd_over :
    (sampleCrowd.foldl (PeerManager.step sampleBook sampleQuorum)
        {}).peerBookConnected.map Prod.fst = ["a", "b"] ∧
      ¬ ∀ (book : PeerBook Unit), book.Lawful →
        ∀ (config : ManagerConfig) (events : List (PeerEvent Unit)) (k : Nat),
          ((events.take k).foldl (PeerManager.step book config) {}).Bounded config := by
  refine ⟨by decide +kernel, fun h => ?_⟩
  have hcount := (h sampleBook sampleBook_lawful sampleQuorum sampleCrowd 4).count
  exact absurd hcount (by decide +kernel)

end BcNode.P2p
