import BcNode.P2p.Wire

/-!
# Sending

The two functions that `p2p/discovery` puts on the swarm.  `qsend` is called with
whatever an event carries as its connection, and that is not always a connection:
`Peer` lists what it can be.  On anything but a connection `resume` is missing, and
the exception is caught; where there is not even an object, the handler throws
again.
-/

namespace BcNode.P2p

open BcNode.Js BcNode.Protos

/-- A connection of the swarm. -/
structure Connection where
  remoteAddress : String
  remotePort : Nat
  remoteHost : Option String := none
  host : Option String := none
  deriving DecidableEq, Repr

/-- What a `putblock` event carries. -/
structure PutBlock where
  data : BcBlock
  connection : Connection
  deriving DecidableEq, Repr

/-- What is passed where a connection is expected. -/
inductive Peer where
  | connection (conn : Connection)
  | putblock (msg : PutBlock)
  | undefined
  deriving DecidableEq, Repr

/-- A message written to a connection. -/
abbrev Write := Connection × Text

/-- What `qsend` resolves with. -/
structure SendResult where
  address : String
  success : Bool
  message : String
  deriving DecidableEq, Repr

/-- `conn.remoteAddress + ':' + conn.remotePort`. -/
def Connection.address (conn : Connection) : String :=
  conn.remoteAddress ++ ":" ++ toString conn.remotePort

/-- `qsend`: how the promise settles, and what has been written. -/
def qsend (conn : Peer) (msg : Text) : Except JsError SendResult × List Write :=
  match conn with
  | .connection conn =>
      (.ok { address := conn.address, success := true, message := "success" },
        [(conn, msg)])
  | .putblock _ =>
      (.ok { address := "undefined:undefined", success := false,
             message := "conn.resume is not a function" }, [])
  | .undefined => (.error .typeError, [])

@[simp] theorem qsend_connection (conn : Connection) (msg : Text) :
    (qsend (.connection conn) msg).2 = [(conn, msg)] := rfl

/-- `conn.remoteHost || conn.host`. -/
def Connection.idr (conn : Connection) : Option String :=
  match conn.remoteHost with
  | some "" | none => conn.host
  | some host => some host

/-- `qbroadcast`: the failures, and what has been written.  `filters` holds the
hosts to leave out. -/
def qbroadcast (connections : List Connection) (msg : Text)
    (filters : List (Option String)) : List (Except JsError SendResult) × List Write :=
  let sent := (connections.filter fun conn => !filters.contains conn.idr).map fun conn =>
    qsend (.connection conn) msg
  let failed (res : Except JsError SendResult) : Bool :=
    match res with
    | .ok res => !res.success
    | .error _ => true
  ((sent.map Prod.fst).filter failed, sent.flatMap Prod.snd)

/-- Without filters everyone gets the message. -/
theorem qbroadcast_all (connections : List Connection) (msg : Text) :
    (qbroadcast connections msg []).2 = connections.map fun conn => (conn, msg) := by
  have hall : (connections.filter fun conn => !([] : List (Option String)).contains
      conn.idr) = connections := by simp
  simp only [qbroadcast, hall, List.flatMap_map, qsend_connection]
  exact List.map_eq_flatMap.symm

end BcNode.P2p
