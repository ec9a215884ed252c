import BcNode.Engine.Station
import Mathlib.Algebra.BigOperators.Group.Finset.Basic
import Mathlib.Algebra.Order.BigOperators.Group.List
import Mathlib.Data.Fintype.Card
import Mathlib.Logic.Relation

/-!
# Announcements in a network

Stations that are connected in any way at all, and the messages between them.  A message
may arrive late, in any order or not at all, others may send whatever they like, and each
station goes on when it does.

A station that accepts a block announces it to everyone it is connected to, the sender of
the block included, and everyone does.  Two things follow from its known blocks.

* There is no storm: `deliveries_le` bounds the number of messages that are ever
  delivered, whatever the network looks like.
* And there is no gap: once nothing is under way any more, everyone that can be reached
  through stations that have announced a block knows it, by `everyone_knows`.  Here what
  is written has to arrive, over links that stay, and what is stored has to be in order.

Both are about runs in which there is room for all hashes in the cache of known blocks.
-/

namespace BcNode.Engine

open BcNode.Verified BcNode.Js BcNode.Protos BcNode.Mining BcNode.Bc BcNode.Persistence
open BcNode.P2p

/-! ## The network -/

/-- A message under way to a station, which has a connection of its own for it. -/
structure Packet (ι : Type) where
  receiver : ι
  conn : Connection
  text : Text
  deriving DecidableEq

/-- The other end of a connection: which station it is, and its connection. -/
abbrev Wiring (ι : Type) := ι → Connection → Option (ι × Connection)

structure Network (ι : Type) where
  stations : ι → Station
  flight : List (Packet ι) := []

inductive NetworkEvent (ι : Type) where
  /-- Something happens at a station. -/
  | station (i : ι) (event : StationEvent)
  | deliver (k : Nat)
  | lose (k : Nat)
  /-- Somebody else sends a message. -/
  | inject (packet : Packet ι)

variable {ι : Type}

/-- What becomes of the writes of a station. -/
def Wiring.route (wiring : Wiring ι) (i : ι) (writes : List Write) : List (Packet ι) :=
  writes.filterMap fun write => (wiring i write.1).map fun far => ⟨far.1, far.2, write.2⟩

/-- A network in which nothing has happened yet. -/
def Network.start (nodes : ι → Node) (connections : ι → List Connection) : Network ι where
  stations i := { known := [], node := nodes i, connections := connections i }

section Step

variable [DecidableEq ι]

def Network.step (env : StationEnv) (wiring : Wiring ι) (net : Network ι) :
    NetworkEvent ι → Network ι
  | .station i event =>
      let stepped := (net.stations i).step env event
      { stations := Function.update net.stations i stepped.1
        flight := net.flight ++ wiring.route i stepped.2 }
  | .deliver k =>
      match net.flight[k]? with
      | none => net
      | some packet =>
          { stations := Function.update net.stations packet.receiver
              ((net.stations packet.receiver).receive env packet.conn packet.text)
            flight := net.flight.eraseIdx k }
  | .lose k => { net with flight := net.flight.eraseIdx k }
  | .inject packet => { net with flight := net.flight ++ [packet] }

/-! ## No storm -/

/-- Only a message that is under way can be delivered. -/
def NetworkEvent.Possible (net : Network ι) : NetworkEvent ι → Prop
  | .deliver k => k < net.flight.length
  | _ => True

instance (net : Network ι) : ∀ event : NetworkEvent ι, Decidable (event.Possible net)
  | .deliver k => inferInstanceAs (Decidable (k < net.flight.length))
  | .station _ _ => .isTrue trivial
  | .lose _ => .isTrue trivial
  | .inject _ => .isTrue trivial

/-- How many messages an event delivers. -/
def NetworkEvent.deliveries : NetworkEvent ι → Nat
  | .deliver _ => 1
  | _ => 0

/-- How many it allows for: a message that comes from elsewhere may be answered. -/
def NetworkEvent.credit (degree : Nat) : NetworkEvent ι → Nat
  | .station _ event => event.credit degree
  | .inject _ => 2
  | _ => 0

/-- A message that is under way is to be delivered, and perhaps answered. -/
def Packet.cost (packet : Packet ι) : Nat := 1 + answers packet.text

def Network.cost [Fintype ι] (hashes : Finset String) (degree : Nat) (net : Network ι) :
    Nat :=
  ∑ i, (net.stations i).cost hashes degree + (net.flight.map Packet.cost).sum

def Network.Fits (hashes : Finset String) (degree : Nat) (net : Network ι) : Prop :=
  ∀ i, (net.stations i).Fits hashes degree

instance (hashes : Finset String) (degree : Nat) (s : Station) :
    Decidable (s.Fits hashes degree) :=
  decidable_of_iff ((∀ hash ∈ s.known, hash ∈ hashes) ∧ s.connections.length ≤ degree)
    ⟨fun h => ⟨h.1, h.2⟩, fun h => ⟨h.known, h.connections⟩⟩

instance [Fintype ι] (hashes : Finset String) (degree : Nat) (net : Network ι) :
    Decidable (net.Fits hashes degree) :=
  inferInstanceAs (Decidable (∀ i, (net.stations i).Fits hashes degree))

def Network.Sound (net : Network ι) : Prop := ∀ i, (net.stations i).Sound

/-- To change one station changes one summand. -/
theorem sum_update [Fintype ι] (cost : Station → Nat) (stations : ι → Station) (i : ι)
    (station : Station) :
    ∑ j, cost (Function.update stations i station j) + cost (stations i) =
      ∑ j, cost (stations j) + cost station := by
  rw [← Finset.add_sum_erase _ _ (Finset.mem_univ i),
    ← Finset.add_sum_erase Finset.univ (fun j => cost (stations j)) (Finset.mem_univ i),
    Function.update_self]
  have hrest : ∑ j ∈ Finset.univ.erase i, cost (Function.update stations i station j) =
      ∑ j ∈ Finset.univ.erase i, cost (stations j) :=
    Finset.sum_congr rfl fun j hj =>
      congrArg cost (Function.update_of_ne (Finset.ne_of_mem_erase hj) ..)
  omega

omit [DecidableEq ι] in
/-- Without requests the messages cost as much as there are, if they arrive. -/
theorem Wiring.route_cost (wiring : Wiring ι) (i : ι) {writes : List Write}
    (h : ∀ write ∈ writes, isRequest write.2 = false) :
    ((wiring.route i writes).map Packet.cost).sum ≤ writes.length := by
  induction writes with
  | nil => exact Nat.le_refl 0
  | cons write writes ih =>
      have hrest := ih fun w hw => h w (List.mem_cons_of_mem _ hw)
      have hwrite := h write List.mem_cons_self
      rw [Wiring.route] at hrest ⊢
      rw [List.filterMap_cons, List.length_cons]
      cases wiring i write.1 with
      | none => exact hrest.trans (Nat.le_succ _)
      | some far =>
          simp only [Option.map_some, List.map_cons, List.sum_cons, Packet.cost, answers,
            hwrite, Bool.false_eq_true, if_false]
          omega

variable {env : StationEnv} {wiring : Wiring ι} {net : Network ι}

theorem Network.sound_step (h : net.Sound) (event : NetworkEvent ι) :
    (net.step env wiring event).Sound := by
  have hupdate (i : ι) {station : Station} (hstation : station.Sound) :
      ∀ j, (Function.update net.stations i station j).Sound := by
    intro j
    by_cases hj : j = i
    · rw [hj, Function.update_self]
      exact hstation
    · rw [Function.update_of_ne hj]
      exact h j
  cases event with
  | station i event => exact hupdate i (Station.sound_step (h i) event)
  | deliver k =>
      rw [Network.step]
      split
      · exact h
      · next packet hk =>
          exact hupdate _ (Station.sound_trigger (h packet.receiver) env.wire _)
  | lose k => exact h
  | inject packet => exact h

/-- **The budget of the network.**  A step takes from it what it delivers. -/
theorem Network.cost_step [Fintype ι] {hashes : Finset String} {degree : Nat}
    (hroom : hashes.card ≤ KNOWN_BLOCKS_MAX) (h : net.Sound)
    (hfits : net.Fits hashes degree)
    {event : NetworkEvent ι} (hpossible : event.Possible net)
    (hfits' : (net.step env wiring event).Fits hashes degree) :
    (net.step env wiring event).cost hashes degree + event.deliveries ≤
      net.cost hashes degree + event.credit degree := by
  cases event with
  | station i event =>
      have hstation : ((net.stations i).step env event).1.Fits hashes degree := by
        have hi := hfits' i
        simp only [Network.step, Function.update_self] at hi
        exact hi
      have hstep := Station.cost_step hroom (h i) (hfits i) hstation
      have hroute := wiring.route_cost i (Station.step_answers env (h i) event)
      have hsum := sum_update (Station.cost hashes degree) net.stations i
        ((net.stations i).step env event).1
      simp only [Network.cost, Network.step, List.map_append, List.sum_append,
        NetworkEvent.deliveries, NetworkEvent.credit]
      omega
  | deliver k =>
      obtain ⟨packet, hk⟩ : ∃ packet, net.flight[k]? = some packet :=
        ⟨_, List.getElem?_eq_getElem hpossible⟩
      have hflight := sum_map_eraseIdx Packet.cost hk
      have hsum := sum_update (Station.cost hashes degree) net.stations packet.receiver
        ((net.stations packet.receiver).receive env packet.conn packet.text)
      rw [Station.receive, Station.cost_trigger] at hsum
      simp only [Network.step, hk, Network.cost, NetworkEvent.deliveries,
        NetworkEvent.credit, Station.receive, Packet.cost, Trigger.cost] at hsum hflight ⊢
      omega
  | lose k =>
      have hlost : ((net.flight.eraseIdx k).map Packet.cost).sum ≤
          (net.flight.map Packet.cost).sum :=
        ((List.eraseIdx_sublist _ k).map _).sum_le_sum fun _ _ => Nat.zero_le _
      simp only [Network.cost, Network.step, NetworkEvent.deliveries, NetworkEvent.credit]
      omega
  | inject packet =>
      have hanswers : answers packet.text ≤ 1 := by
        rw [answers]
        split <;> decide
      simp only [Network.cost, Network.step, NetworkEvent.deliveries, NetworkEvent.credit,
        List.map_append, List.sum_append, List.map_singleton, List.sum_singleton,
        Packet.cost]
      omega

omit [DecidableEq ι] in
theorem Network.sound_start (nodes : ι → Node) (connections : ι → List Connection) :
    (Network.start nodes connections).Sound :=
  fun _ => ⟨List.nodup_nil, nofun⟩

/-- **No storm.**  In a run in which there is room for all hashes, no more messages are
delivered than there is one for each station, hash and connection, and what comes from
outside: the blocks mined here, new connections, and twice the messages of others. -/
theorem deliveries_le [Fintype ι] (env : StationEnv) (wiring : Wiring ι)
    (nodes : ι → Node) (connections : ι → List Connection) {hashes : Finset String}
    {degree : Nat} (hroom : hashes.card ≤ KNOWN_BLOCKS_MAX)
    (hdegree : ∀ i, (connections i).length ≤ degree) {events : List (NetworkEvent ι)}
    (hrun : Along (Network.step env wiring)
      (fun net event => event.Possible net ∧ (net.step env wiring event).Fits hashes degree)
      (Network.start nodes connections) events) :
    (events.map NetworkEvent.deliveries).sum ≤
      Fintype.card ι * (degree * hashes.card) +
        (events.map (NetworkEvent.credit degree)).sum := by
  have hcost : (Network.start nodes connections).cost hashes degree =
      Fintype.card ι * (degree * hashes.card) := by
    simp [Network.cost, Network.start, Station.cost]
  rw [← hcost]
  exact Along.cost_le (I := fun net => net.Sound ∧ net.Fits hashes degree) _ _ _
    (fun net event h hstep => ⟨Network.sound_step h.1 event, hstep.2⟩)
    (fun net event h hstep => Network.cost_step hroom h.1 h.2 hstep.1 hstep.2) hrun
    ⟨Network.sound_start nodes connections, fun i => ⟨List.forall_mem_nil _, hdegree i⟩⟩

end Step

/-! ### Two stations -/

/-- Two stations with a connection between them. -/
def sampleWiring : Wiring Bool := fun i conn =>
  if conn = sampleConnection then some (!i, sampleConnection) else none

def sampleNodes : Bool → Node := fun _ => { chain := [], store := Store.empty }

def sampleConnections : Bool → List Connection := fun _ => [sampleConnection]

def sampleStationEnv : StationEnv where
  pkg := samplePackages
  wire := sampleWire
  lru := Lru.taking

/-- A block is mined at one, accepted and announced; the other accepts it, and announces
it back. -/
def sampleGossip : List (NetworkEvent Bool) :=
  [.station false (.minerBlockNew (some (sampleTip 3)) []), .station false (.resume 0 0 []),
    .station false (.resume 0 0 []), .station false (.work 0), .deliver 0,
    .station true (.work 0), .station true (.validated 0 true),
    .station true (.resume 0 0 []), .station true (.resume 0 0 []),
    .station true (.work 0), .deliver 0, .station false (.work 0)]

/-- Both announcements are delivered. -/
theorem deliveries_le_sample :
    (sampleGossip.map NetworkEvent.deliveries).sum = 2 ∧
    (sampleGossip.map NetworkEvent.deliveries).sum ≤
      Fintype.card Bool * (1 * ({"a3"} : Finset String).card) +
        (sampleGossip.map (NetworkEvent.credit 1)).sum :=
  ⟨by decide, deliveries_le sampleStationEnv sampleWiring sampleNodes sampleConnections
    (by decide) (by decide) (by decide +kernel)⟩

/-! ## No gap -/

section Spread

variable [DecidableEq ι] {env : StationEnv} {wiring : Wiring ι} {net : Network ι}

/-- What the codec and the connections have to do for announcements to arrive, over
connections that stay. -/
structure Network.Regular (env : StationEnv) (hashes : Finset String)
    (links : ι → List Connection) (net : Network ι) : Prop where
  known : ∀ i, ∀ hash ∈ (net.stations i).known, hash ∈ hashes
  lossless : ∀ i, ∀ op ∈ (net.stations i).operations, Lossless env.wire op.newBlock
  links : ∀ i, ∀ conn ∈ links i, conn ∈ (net.stations i).connections
  sizes : ∀ packet ∈ net.flight, jsLength packet.text ≤ 95000

def Network.HoldsHeights (net : Network ι) : Prop :=
  ∀ i, Engine.HoldsHeights (net.stations i).node.store

/-- Nothing is lost, and others keep the stores in order. -/
def NetworkEvent.Reliable : NetworkEvent ι → Prop
  | .station _ event => event.KeepsHeights
  | .lose _ => False
  | _ => True

/-- A message with the block is under way to a station, or has arrived. -/
def Network.Reaches (env : StationEnv) (net : Network ι) (block : BcBlock) (j : ι) : Prop :=
  (∃ packet ∈ net.flight, packet.receiver = j ∧
    ∃ rest, packet.text = announcement env.wire (block :: rest)) ∨
  (net.stations j).Receiving block ∨ block.hash ∈ (net.stations j).known

/-- What a station has handed on is announced, or on its way to everyone it is linked
with. -/
def Network.Spreads (env : StationEnv) (wiring : Wiring ι) (links : ι → List Connection)
    (net : Network ι) : Prop :=
  ∀ i block, (∃ op ∈ (net.stations i).operations, op.broadcast? = some block) →
    ∀ conn ∈ links i, ∀ far, wiring i conn = some far →
      (net.stations i).Announcing env.wire block ∨ net.Reaches env block far.1

variable {links : ι → List Connection} {hashes : Finset String}

/-- Of the stations a step changes one at most. -/
theorem Network.stations_step (env : StationEnv) (wiring : Wiring ι) (net : Network ι)
    (event : NetworkEvent ι) (j : ι) :
    (∃ e, event = .station j e) ∨
    (∃ conn text, ((net.step env wiring event).stations j) =
      (net.stations j).receive env conn text) ∨
    (net.step env wiring event).stations j = net.stations j := by
  cases event with
  | station i event =>
      by_cases hj : j = i
      · exact .inl ⟨event, by rw [hj]⟩
      · exact .inr (.inr (Function.update_of_ne hj ..))
  | deliver k =>
      right
      rw [Network.step]
      split
      · exact .inr rfl
      · next packet hk =>
          by_cases hj : j = packet.receiver
          · rw [hj]
            exact .inl ⟨packet.conn, packet.text, Function.update_self ..⟩
          · exact .inr (Function.update_of_ne hj ..)
  | lose k => exact .inr (.inr rfl)
  | inject packet => exact .inr (.inr rfl)

theorem Network.heights_step (hsound : net.Sound) (h : net.HoldsHeights)
    {event : NetworkEvent ι} (hreliable : event.Reliable) :
    (net.step env wiring event).HoldsHeights := by
  intro j
  rcases Network.stations_step env wiring net event j with
    ⟨e, rfl⟩ | ⟨conn, text, hj⟩ | hj
  · simp only [Network.step, Function.update_self]
    exact Station.heights_step (hsound j) (h j) hreliable
  · rw [hj]
    exact h j
  · rw [hj]
    exact h j

theorem Station.receiving_trigger {s : Station} {block : BcBlock} (wire : Wire)
    (trigger : Trigger) (h : s.Receiving block) : (s.trigger wire trigger).Receiving block :=
  h.imp fun _ => And.imp_left (List.mem_append_left _)

/-- **A message with the block gets closer.** -/
theorem Network.reaches_step (hroom : hashes.card ≤ KNOWN_BLOCKS_MAX) (hsound : net.Sound)
    (hregular : net.Regular env hashes links) {event : NetworkEvent ι}
    (hreliable : event.Reliable)
    (hregular' : (net.step env wiring event).Regular env hashes links) {block : BcBlock}
    (hlossless : Lossless env.wire block) {j : ι} (h : net.Reaches env block j) :
    (net.step env wiring event).Reaches env block j := by
  rcases h with ⟨packet, hpacket, hj, rest, htext⟩ | hreceiving | hknown
  · cases event with
    | station i event =>
        exact .inl ⟨packet, List.mem_append_left _ hpacket, hj, rest, htext⟩
    | inject other =>
        exact .inl ⟨packet, List.mem_append_left _ hpacket, hj, rest, htext⟩
    | lose k => exact hreliable.elim
    | deliver k =>
        obtain ⟨m, hm⟩ := List.mem_iff_getElem?.1 hpacket
        by_cases hmk : m = k
        · -- the message is the one that is delivered
          right
          left
          rw [hmk] at hm
          simp only [Network.step, hm, ← hj, Function.update_self, htext]
          exact Station.receiving_receive rfl hlossless
            (htext ▸ hregular.sizes packet hpacket) packet.conn
        · left
          rw [Network.step]
          split
          · exact ⟨packet, hpacket, hj, rest, htext⟩
          · exact ⟨packet, List.mem_eraseIdx_iff_getElem?.2 ⟨m, hmk, hm⟩, hj, rest, htext⟩
  · right
    rcases Network.stations_step env wiring net event j with
      ⟨e, rfl⟩ | ⟨conn, text, hj⟩ | hj
    · simp only [Network.step, Function.update_self]
      exact Station.receiving_step e hreceiving
    · rw [hj]
      exact .inl (Station.receiving_trigger env.wire _ hreceiving)
    · rw [hj]
      exact .inl hreceiving
  · right
    right
    rcases Network.stations_step env wiring net event j with
      ⟨e, rfl⟩ | ⟨conn, text, hj⟩ | hj
    · have hknown' := hregular'.known j
      simp only [Network.step, Function.update_self] at hknown' ⊢
      exact Station.known_step hroom (hsound j) (hregular.known j) hknown' _ hknown
    · rw [hj]
      exact hknown
    · rw [hj]
      exact hknown

omit [DecidableEq ι] in
/-- What is written to a connection is on its way to the other end. -/
theorem Wiring.mem_route {i : ι} {conn : Connection} {far : ι × Connection} {text : Text}
    {writes : List Write} (hfar : wiring i conn = some far) (h : (conn, text) ∈ writes) :
    ⟨far.1, far.2, text⟩ ∈ wiring.route i writes :=
  List.mem_filterMap.2 ⟨(conn, text), h, by simp [hfar]⟩

/-- Every step keeps what a station has handed on spreading. -/
theorem Network.spreads_step (hroom : hashes.card ≤ KNOWN_BLOCKS_MAX) (hsound : net.Sound)
    (hregular : net.Regular env hashes links) (hheights : net.HoldsHeights)
    (hspreads : net.Spreads env wiring links) {event : NetworkEvent ι}
    (hreliable : event.Reliable)
    (hregular' : (net.step env wiring event).Regular env hashes links) :
    (net.step env wiring event).Spreads env wiring links := by
  intro i block hop conn hconn far hfar
  have hlossless : Lossless env.wire block := by
    obtain ⟨op, hop, hblock⟩ := hop
    have hop := hregular'.lossless i op hop
    unfold Operation.broadcast? at hblock
    split at hblock
    · cases hblock
      exact hop
    · cases hblock
  have hreaches : net.Reaches env block far.1 →
      (net.step env wiring event).Reaches env block far.1 :=
    Network.reaches_step hroom hsound hregular hreliable hregular' hlossless
  rcases Network.stations_step env wiring net event i with
    ⟨e, rfl⟩ | ⟨conn', text, hi⟩ | hi
  · have hheights : Engine.HoldsHeights ((net.stations i).step env e).1.node.store :=
      Station.heights_step (hsound i) (hheights i) hreliable
    have hlinks := hregular'.links i conn hconn
    simp only [Network.step, Function.update_self] at hop hlinks ⊢
    obtain ⟨op, hop, hblock⟩ := hop
    rcases Station.broadcast_step hheights hop hblock with hold | hnew
    · rcases hspreads i block hold conn hconn far hfar with hannouncing | hunder
      · rcases Station.announcing_step hheights hannouncing with hstays | ⟨rest, hwritten⟩
        · exact .inl hstays
        · right
          left
          exact ⟨_, List.mem_append_right _ (Wiring.mem_route hfar (hwritten conn hlinks)),
            rfl, rest, rfl⟩
      · exact .inr (hreaches hunder)
    · exact .inl hnew
  · rw [hi] at hop ⊢
    rcases hspreads i block hop conn hconn far hfar with ⟨job, hjob, hsafe⟩ | hunder
    · exact .inl ⟨job, List.mem_append_left _ hjob, hsafe⟩
    · exact .inr (hreaches hunder)
  · rw [hi] at hop ⊢
    exact (hspreads i block hop conn hconn far hfar).imp_right hreaches

/-- Nothing is under way any more. -/
def Network.Quiet (net : Network ι) : Prop :=
  net.flight = [] ∧ ∀ i, (net.stations i).jobs = []

/-- A station has announced a block with the hash. -/
def Network.Announced (net : Network ι) (i : ι) (hash : String) : Prop :=
  ∃ op ∈ (net.stations i).operations, op.broadcast?.map (·.hash) = some hash

/-- Two stations with a link between them. -/
def Neighbours (wiring : Wiring ι) (links : ι → List Connection) (i j : ι) : Prop :=
  ∃ conn ∈ links i, ∃ conn', wiring i conn = some (j, conn')

/-- A link from a station that has announced a block with the hash. -/
def Network.Passes (wiring : Wiring ι) (links : ι → List Connection) (net : Network ι)
    (hash : String) (i j : ι) : Prop :=
  net.Announced i hash ∧ Neighbours wiring links i j

omit [DecidableEq ι] in
/-- What is announced gets to the other end of every link. -/
theorem Network.Spreads.passes (hspreads : net.Spreads env wiring links)
    (hquiet : net.Quiet) {hash : String} {i j : ι} (h : net.Passes wiring links hash i j) :
    hash ∈ (net.stations j).known := by
  obtain ⟨⟨op, hop, hhash⟩, conn, hconn, conn', hfar⟩ := h
  obtain ⟨block, hblock, rfl⟩ := Option.map_eq_some_iff.1 hhash
  rcases hspreads i block ⟨op, hop, hblock⟩ conn hconn _ hfar with
    ⟨job, hjob, -⟩ | ⟨packet, hpacket, -⟩ | ⟨job, hjob, -⟩ | hknown
  · rw [hquiet.2 i] at hjob
    cases hjob
  · rw [hquiet.1] at hpacket
    cases hpacket
  · rw [hquiet.2 j] at hjob
    cases hjob
  · exact hknown

/-- **No gap.**  In a run that loses nothing, once nothing is under way any more, a hash
is known to all that can be reached from a station that has announced it through others
that have. -/
theorem everyone_knows (env : StationEnv) (wiring : Wiring ι) (nodes : ι → Node)
    (connections : ι → List Connection) (links : ι → List Connection)
    {hashes : Finset String} (hroom : hashes.card ≤ KNOWN_BLOCKS_MAX)
    (hstores : ∀ i, HoldsHeights (nodes i).store)
    (hstart : (Network.start nodes connections).Regular env hashes links)
    {events : List (NetworkEvent ι)}
    (hrun : Along (Network.step env wiring)
      (fun net event => event.Reliable ∧
        (net.step env wiring event).Regular env hashes links)
      (Network.start nodes connections) events)
    {net : Network ι}
    (hnet : events.foldl (Network.step env wiring) (Network.start nodes connections) = net)
    (hquiet : net.Quiet) {hash : String} {i j : ι}
    (hlinked : Relation.TransGen (net.Passes wiring links hash) i j) :
    hash ∈ (net.stations j).known := by
  have hspreads : net.Spreads env wiring links := by
    have hinvariant : net.Sound ∧ net.Regular env hashes links ∧ net.HoldsHeights ∧
        net.Spreads env wiring links := by
      rw [← hnet]
      refine Along.invariant (I := fun net => net.Sound ∧ net.Regular env hashes links ∧
        net.HoldsHeights ∧ net.Spreads env wiring links) (fun net event h hstep => ?_) hrun
        ⟨Network.sound_start nodes connections, hstart, hstores, ?_⟩
      · obtain ⟨hsound, hregular, hheights, hspreads⟩ := h
        exact ⟨Network.sound_step hsound event, hstep.2,
          Network.heights_step hsound hheights hstep.1,
          Network.spreads_step hroom hsound hregular hheights hspreads hstep.1 hstep.2⟩
      · rintro i block ⟨op, hop, -⟩
        cases hop
    exact hinvariant.2.2.2
  cases hlinked with
  | single hlast => exact hspreads.passes hquiet hlast
  | tail _ hlast => exact hspreads.passes hquiet hlast

end Spread

instance (wire : Wire) (block : BcBlock) : Decidable (Lossless wire block) :=
  decidable_of_iff (wire.serializeBinary block ≠ [] ∧
      wire.deserializeBinary (wire.serializeBinary block) = .ok block)
    ⟨fun h => ⟨h.1, h.2⟩, fun h => ⟨h.bytes, h.read⟩⟩

instance [Fintype ι] (env : StationEnv) (hashes : Finset String)
    (links : ι → List Connection) (net : Network ι) :
    Decidable (net.Regular env hashes links) :=
  decidable_of_iff
    ((∀ i, ∀ hash ∈ (net.stations i).known, hash ∈ hashes) ∧
      (∀ i, ∀ op ∈ (net.stations i).operations, Lossless env.wire op.newBlock) ∧
      (∀ i, ∀ conn ∈ links i, conn ∈ (net.stations i).connections) ∧
      ∀ packet ∈ net.flight, jsLength packet.text ≤ 95000)
    ⟨fun h => ⟨h.1, h.2.1, h.2.2.1, h.2.2.2⟩,
      fun h => ⟨h.known, h.lossless, h.links, h.sizes⟩⟩

instance [Fintype ι] (net : Network ι) : Decidable net.Quiet :=
  inferInstanceAs (Decidable (net.flight = [] ∧ ∀ i, (net.stations i).jobs = []))

theorem everyone_knows_sample :
    "a3" ∈ ((sampleGossip.foldl (Network.step sampleStationEnv sampleWiring)
      (Network.start sampleNodes sampleConnections)).stations true).known := by
  have hregular : Along (Network.step sampleStationEnv sampleWiring)
      (fun net event => (net.step sampleStationEnv sampleWiring event).Regular
        sampleStationEnv {"a3"} sampleConnections)
      (Network.start sampleNodes sampleConnections) sampleGossip := by decide +kernel
  have hreliable : ∀ event ∈ sampleGossip, event.Reliable := by
    simp [sampleGossip, NetworkEvent.Reliable, StationEvent.KeepsHeights]
  refine everyone_knows sampleStationEnv sampleWiring sampleNodes sampleConnections
    sampleConnections (by decide) (fun _ => nofun) (by decide +kernel)
    ((Along.of_mem hreliable _).and hregular) rfl (by decide +kernel) (i := false)
    (.single ⟨?_, sampleConnection, List.mem_singleton_self _, sampleConnection, by decide⟩)
  unfold Network.Announced
  decide +kernel

end BcNode.Engine
