import BcNode.P2p.Node

/-!
# Announcing a block to all but some

`broadcastNewBlock` puts the connections to leave out into the payload of an
`announceblock` event.  The listener of the event takes the block out of the payload
and calls `qbroadcast`, which has a parameter for the hosts to leave out, without it.

The way from the call to the sockets is `broadcastNewBlock`, `emitted` and
`announceblock` one after the other.
-/

namespace BcNode.P2p

open BcNode.Verified BcNode.Js BcNode.Protos BcNode.Persistence

/-- Whom a caller names to be left out: a connection, as the engine does, or a host, as
`qbroadcast` looks for. -/
inductive Filter where
  | connection (conn : Connection)
  | host (text : String)
  deriving DecidableEq, Repr

/-- What the second argument of `broadcastNewBlock` can be. -/
inductive Without where
  | undefined
  | array (filters : List Filter)
  | one (filter : Filter)
  deriving DecidableEq, Repr

/-- The payload of `announceblock`. -/
structure AnnounceBlock where
  data : BcBlock
  filters : List Filter
  deriving DecidableEq, Repr

/-- `broadcastNewBlock`: the payload it emits. -/
def broadcastNewBlock (block : BcBlock) (withoutPeerId : Without) : AnnounceBlock :=
  let filters :=
    match withoutPeerId with
    | .undefined => []
    | .array filters => filters
    | .one filter => [filter]
  { data := block, filters }

/-- What the listener of `announceblock` writes for a payload. -/
def announced (wire : Wire) (order : List Nat) (connections : List Connection)
    (msg : AnnounceBlock) (store : Store) : Except JsError (List Write) :=
  (Async.exec (announceblock wire order connections msg.data) store).1

/-- A connection is left out when it is named, or its host is. -/
def Excludes (msg : AnnounceBlock) (conn : Connection) : Prop :=
  Filter.connection conn ∈ msg.filters ∨
    ∃ text, conn.idr = some text ∧ Filter.host text ∈ msg.filters

instance (msg : AnnounceBlock) (conn : Connection) : Decidable (Excludes msg conn) :=
  decidable_of_iff
    (Filter.connection conn ∈ msg.filters ∨
      ∃ text ∈ conn.idr, Filter.host text ∈ msg.filters) Iff.rfl

/-- The announcement is written once to each connection that is not left out, and to no
other. -/
def ReachesOthers (wire : Wire) (order : List Nat) (connections : List Connection)
    (msg : AnnounceBlock) (store : Store) : Prop :=
  ∃ list, (Async.exec (getLiteMultiverse order msg.data) store).1 = .ok list ∧
    announced wire order connections msg store =
      .ok ((connections.filter fun conn => ¬ Excludes msg conn).map fun conn =>
        (conn, announcement wire list))

/-- The listener writes to every connection. -/
theorem announced_all (wire : Wire) (order : List Nat) (connections : List Connection)
    {msg : AnnounceBlock} {store : Store} {list : List BcBlock}
    (h : Async.exec (getLiteMultiverse order msg.data) store = (.ok list, store)) :
    announced wire order connections msg store =
      .ok (connections.map fun conn => (conn, announcement wire list)) := by
  simp only [announced, announceblock, Async.exec_bind, h, Async.exec_pure, qbroadcast_all]

/-- **Nobody is left out.**  A broadcast reaches exactly the connections it should when
there is none among them to leave out. -/
theorem broadcastNewBlock_iff (wire : Wire) (order : List Nat)
    (connections : List Connection) {block : BcBlock} (withoutPeerId : Without)
    {store : Store} (hstore : HoldsBlocks store block) :
    ReachesOthers wire order connections (broadcastNewBlock block withoutPeerId) store ↔
      ∀ conn ∈ connections, ¬ Excludes (broadcastNewBlock block withoutPeerId) conn := by
  obtain ⟨highest, rest, hexec, -, -, -⟩ := getLiteMultiverse_exec order hstore
  have hwrites := @announced_all wire order connections
    (broadcastNewBlock block withoutPeerId) _ _ hexec
  constructor
  · rintro ⟨list, hlist, hothers⟩
    rw [hwrites] at hothers
    -- Dropping the messages leaves the connections on either side.
    have hconnections := congrArg (List.map Prod.fst) (Except.ok.inj hothers)
    simp only [List.map_map, Function.comp_def, List.map_id'] at hconnections
    intro conn hconn
    rw [hconnections] at hconn
    exact of_decide_eq_true (List.mem_filter.1 hconn).2
  · intro hnone
    have hall : (connections.filter fun conn =>
        ¬ Excludes (broadcastNewBlock block withoutPeerId) conn) = connections :=
      List.filter_eq_self.2 fun conn hconn => decide_eq_true (hnone conn hconn)
    refine ⟨highest :: rest, congrArg Prod.fst hexec, ?_⟩
    rw [hall, hwrites]

theorem holdsBlocks_sample : HoldsBlocks sampleHeights (sampleTip 5) := by
  intro h value hh hvalue
  rcases sampleHeights_eq hh hvalue with rfl | rfl <;> exact ⟨_, rfl⟩

/-- The sender of a block is named, and gets the announcement all the same. -/
theorem broadcastNewBlock_sender :
    ¬ ReachesOthers sampleWire [] [sampleConnection]
        (broadcastNewBlock (sampleTip 5) (.one (.connection sampleConnection)))
        sampleHeights ∧
      (announced sampleWire [] [sampleConnection]
        (broadcastNewBlock (sampleTip 5) (.one (.connection sampleConnection)))
        sampleHeights).map (·.map Prod.fst) = .ok [sampleConnection] := by
  have hwritten : (announced sampleWire [] [sampleConnection]
      (broadcastNewBlock (sampleTip 5) (.one (.connection sampleConnection)))
      sampleHeights).map (·.map Prod.fst) = .ok [sampleConnection] := by decide +kernel
  have hothers : ([sampleConnection].filter fun conn => ¬ Excludes
      (broadcastNewBlock (sampleTip 5) (.one (.connection sampleConnection))) conn) =
        [] := by decide
  refine ⟨?_, hwritten⟩
  rintro ⟨list, -, hwrites⟩
  rw [hwrites, hothers] at hwritten
  cases hwritten

theorem broadcastNewBlock_iff_sample :
    ReachesOthers sampleWire [] [sampleConnection]
      (broadcastNewBlock (sampleTip 5) (.array [.host "10.0.0.2"])) sampleHeights :=
  (broadcastNewBlock_iff sampleWire [] [sampleConnection] (.array [.host "10.0.0.2"])
    holdsBlocks_sample).2 (by decide)

end BcNode.P2p
