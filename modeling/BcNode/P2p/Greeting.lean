import BcNode.Js.Text
import BcNode.P2p.Node

/-!
# Greeting a connection

The listener of `connection` of `p2p/node`.  It counts the connections there are, keeps
the result under `bc.dht.quorum`, and sends the new connection the multiverse of the
latest block.  A timer puts the quorum back when there are too few connections.

The quorum is text, and is read with `parseInt`.
-/

namespace BcNode.P2p

open BcNode.Verified BcNode.Js BcNode.Protos BcNode.Persistence

/-! ## The quorum -/

/-- What the environment and `config.bc.quorum` say. -/
structure QuorumConfig where
  USER_QUORUM : Nat
  MIN_HEALTH_NET : Bool
  deriving DecidableEq, Repr

/-- `parseInt(value, 10)`.  The text of what is no text opens with a letter or a
bracket, unless it is a number. -/
def valueParseInt : Value → Option Int
  | .string text => parseInt text
  | .number n => some n
  | _ => none

/-- What a new connection puts under `bc.dht.quorum`, if anything. -/
def quorumUpdate (config : QuorumConfig) (totalConnections : Nat) (quorum : Option Int) :
    Option String :=
  if totalConnections < config.USER_QUORUM ∧ quorum = some 1 ∧
      config.MIN_HEALTH_NET = false then
    some "0"
  else if totalConnections ≥ config.USER_QUORUM ∧ quorum = some 0 then some "1"
  else if quorum = some 0 ∧ config.MIN_HEALTH_NET = true then some "1"
  else none

/-- The timer. -/
def countWaypoints (config : QuorumConfig) (totalConnections : Nat) : Task Store Unit :=
  if totalConnections < config.USER_QUORUM ∧ config.MIN_HEALTH_NET ≠ true then
    put .quorum (.string "0")
  else pure ()

/-! ## The listener of `connection` -/

/-- What a greeting uses besides the store. -/
structure GreetingEnv where
  config : QuorumConfig
  totalConnections : Nat
  order : List Nat := []
  deriving DecidableEq, Repr

/-- `persistence.put('bc.dht.quorum', text)`, where there is something to put. -/
def putQuorum : Option String → StoreM Unit
  | none => return ()
  | some text => Async.ofTask (put .quorum (.string text))

/-- The listener of `connection`. -/
def greeting (wire : Wire) (env : GreetingEnv) (conn : Connection) :
    StoreM (List Write) := do
  let latestBlock ← get (.block .bc .latest)
  let quorumState ← get .quorum
  let quorum := valueParseInt quorumState
  putQuorum (quorumUpdate env.config env.totalConnections quorum)
  let latestBlock ← Async.ofExcept latestBlock.asBcBlock
  let list ← getLiteMultiverse env.order latestBlock
  return (qsend (.connection conn) (announcement wire list)).2

/-- A greeting changes nothing but the quorum. -/
def QuorumFrame (s s' : Store) : Prop := ∀ key, key ≠ .quorum → s' key = s key

theorem QuorumFrame.refl (s : Store) : QuorumFrame s s := fun _ _ => rfl

theorem getLiteMultiverse_always {F : Store → Store → Prop} (hrefl : ∀ s, F s s)
    (order : List Nat) (latest : BcBlock) :
    Async.Always F (getLiteMultiverse order latest) := by
  unfold getLiteMultiverse
  split
  · trivial
  · refine Async.Always.bind (Async.Always.ofTask (Task.Always.bind
      (Task.Always.all order ?_) fun _ => trivial)) fun set =>
        Async.Always.bind (Async.Always.ofExcept _) fun blocks => trivial
    intro t ht
    obtain ⟨key, _, rfl⟩ := List.mem_map.1 ht
    exact Task.Always.read hrefl _

theorem greeting_always (wire : Wire) (env : GreetingEnv) (conn : Connection) :
    Async.Always QuorumFrame (greeting wire env conn) := by
  have hget (key : Key) : Async.Always QuorumFrame (get key) :=
    Task.Always.read QuorumFrame.refl _
  have hput (update : Option String) : Async.Always QuorumFrame (putQuorum update) := by
    cases update with
    | none => trivial
    | some text => exact Async.Always.ofTask fun s =>
        ⟨fun key hkey => Store.set_ne s hkey _, trivial⟩
  exact (hget _).bind fun latestBlock => (hget _).bind fun quorumState =>
    (hput _).bind fun _ => (Async.Always.ofExcept _).bind fun latest =>
      (getLiteMultiverse_always QuorumFrame.refl env.order latest).bind fun _ => trivial

end BcNode.P2p
