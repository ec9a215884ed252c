import BcNode.Engine.MinedBlocks
import BcNode.Engine.Peers
import BcNode.P2p.Broadcast
import BcNode.P2p.Greeting
import BcNode.Verified.Lru

/-!
# A station

One node of the network as far as blocks and their announcements go: the engine's
listeners of `miner.block.new` and `putblock` and those of `connection`, `data` and
`announceblock` in `p2p/node`.

Nothing of it happens at once.  A block on its way is an `Operation`; what the listeners
of `p2p/node` do is a `Job`, and each of its accesses to the store is a step of its own.
Operations and jobs go on in any order, and in between the verdict on a peer's block may
come in, connections come and go, and anything may happen to the multiverse and the
store.

A step of a station returns what it writes to its connections.  A peer's block that is
not accepted may make the engine emit `getmultiverse` or `sendblock`.  Their listeners are
left out, because they write nothing for it: see `putblock_unanswered`.
-/

namespace BcNode.Engine

open BcNode.Verified BcNode.Js BcNode.Protos BcNode.Mining BcNode.Bc BcNode.Persistence
open BcNode.P2p

/-! ## Jobs -/

/-- What sets off a job. -/
inductive Trigger where
  | announceblock (data : BcBlock) (order : List Nat)
  | connection (conn : Connection) (greeting : GreetingEnv)
  | data (conn : Connection) (str : Option Text)
  deriving DecidableEq

/-- What a job comes to: a message for whoever is connected by then, or what it has
done. -/
inductive Outcome where
  | broadcast (msg : Text)
  | handled (done : Handled)
  deriving DecidableEq

/-- What has been emitted for the engine. -/
def Outcome.emitted : Outcome → List Emission
  | .broadcast _ => []
  | .handled done => done.emitted

/-- What is written, given the connections. -/
def Outcome.written (connections : List Connection) : Outcome → List Write
  | .broadcast msg => (qbroadcast connections msg []).2
  | .handled done => done.written

/-- The listeners. -/
def Trigger.listener (wire : Wire) : Trigger → StoreM Outcome
  | .announceblock block order => do
      let list ← getLiteMultiverse order block
      return .broadcast (announcement wire list)
  | .connection conn env => do
      let written ← greeting wire env conn
      return .handled { written }
  | .data conn str => do
      let done ← peerDataHandler wire conn str
      return .handled done

/-- A listener at work. -/
structure Job where
  trigger : Trigger
  rest : Task Store (Except JsError Outcome)

/-! ## The station -/

/-- What a station uses besides its state. -/
structure StationEnv where
  pkg : Packages
  wire : Wire
  lru : LruCache

/-- The known blocks, the multiverse with the store, the connections, and everything that
is on its way. -/
structure Station where
  known : KnownBlocks
  node : Node
  connections : List Connection
  operations : List Operation := []
  jobs : List Job := []

inductive StationEvent where
  | minerBlockNew (newBlock : Option BcBlock) (order : List Nat)
  /-- The verdict on a peer's block. -/
  | validated (i : Nat) (valid : Bool)
  /-- A block goes on, at a clock reading. -/
  | resume (i now : Nat) (order : List Nat)
  /-- A job goes on. -/
  | work (i : Nat)
  | connection (conn : Connection) (greeting : GreetingEnv)
  | closed (conn : Connection)
  /-- Whatever others do to the multiverse and the store. -/
  | others (node : Node)

def Station.trigger (wire : Wire) (s : Station) (trigger : Trigger) : Station :=
  { s with jobs := s.jobs ++ [⟨trigger, ExceptT.run (trigger.listener wire)⟩] }

/-- `broadcastNewBlock`, which emits `announceblock`. -/
def Station.broadcastNewBlock (wire : Wire) (s : Station) (block : BcBlock)
    (order : List Nat) : Station :=
  s.trigger wire (.announceblock (P2p.broadcastNewBlock block .undefined).data order)

def Station.start (s : Station) (op : Operation) : Station :=
  { s with operations := s.operations ++ [op] }

def Station.learn (env : StationEnv) (s : Station) (newBlock : BcBlock) : Station :=
  { s with known := env.lru.use KNOWN_BLOCKS_MAX s.known newBlock.hash }

/-- The listener of `miner.block.new` up to `addNextBlock`.  A `has` is no use. -/
def Station.processMinedBlock (env : StationEnv) (s : Station) (newBlock : BcBlock)
    (order : List Nat) : Station :=
  if newBlock.hash ∈ s.known then
    (s.start ⟨.mined, newBlock, .handled none true⟩).broadcastNewBlock env.wire newBlock
      order
  else (s.learn env newBlock).start ⟨.mined, newBlock, .awaiting (.called newBlock)⟩

/-- `blockFromPeer` up to `isValidBlockCached`.  A `get` that finds the hash is a use. -/
def Station.blockFromPeer (env : StationEnv) (s : Station) (newBlock : BcBlock) : Station :=
  if newBlock.hash ∈ s.known then s.learn env newBlock
  else (s.learn env newBlock).start ⟨.peer, newBlock, .validating⟩

/-- What listens to an emission.  Lists of blocks are left to the others. -/
def Station.listen (env : StationEnv) (s : Station) : Emission → Station
  | .putblock msg => s.blockFromPeer env msg.data
  | .putblocklist _ _ _ => s
  | .putmultiverse _ _ => s

/-- The block that an operation hands to `broadcastNewBlock` when it goes on. -/
def Operation.handsOn (node : Node) (op : Operation) : Option BcBlock :=
  match op.progress with
  | .decided isNextBlock =>
      if broadcastsAfter node op.source isNextBlock then some op.newBlock else none
  | _ => none

/-- An operation goes on. -/
def Station.resume (env : StationEnv) (s : Station) (i now : Nat) (order : List Nat) :
    Station :=
  match s.operations[i]? with
  | none => s
  | some op =>
      let advanced := op.advance env.pkg now s.node
      let next := { s with node := advanced.1, operations := s.operations.set i advanced.2 }
      match op.handsOn s.node with
      | none => next
      | some block => next.broadcastNewBlock env.wire block order

/-- What comes of a job; an exception is logged. -/
def Station.finish (env : StationEnv) (s : Station) :
    Except JsError Outcome → Station × List Write
  | .error _ => (s, [])
  | .ok outcome =>
      (outcome.emitted.foldl (Station.listen env) s, outcome.written s.connections)

/-- A job goes on. -/
def Station.work (env : StationEnv) (s : Station) (i : Nat) : Station × List Write :=
  match s.jobs[i]? with
  | none => (s, [])
  | some ⟨trigger, .act update next⟩ =>
      ({ s with
          node := { s.node with store := update s.node.store }
          jobs := s.jobs.set i ⟨trigger, next s.node.store⟩ }, [])
  | some ⟨_, .done result⟩ => { s with jobs := s.jobs.eraseIdx i }.finish env result

def Station.step (env : StationEnv) (s : Station) : StationEvent → Station × List Write
  | .minerBlockNew none _ => (s, [])
  | .minerBlockNew (some newBlock) order =>
      (s.processMinedBlock env newBlock order, [])
  | .validated i valid =>
      match s.operations[i]? with
      | none => (s, [])
      | some op =>
          ({ s with operations := s.operations.set i (op.afterValidation valid) }, [])
  | .resume i now order => (s.resume env i now order, [])
  | .work i => s.work env i
  | .connection conn greeting =>
      ({ s with connections := s.connections ++ [conn] }.trigger env.wire
        (.connection conn greeting), [])
  | .closed conn => ({ s with connections := s.connections.erase conn }, [])
  | .others node => ({ s with node }, [])

/-- A message comes in. -/
def Station.receive (env : StationEnv) (s : Station) (conn : Connection) (text : Text) :
    Station :=
  s.trigger env.wire (.data conn (some text))

/-! ## What a listener writes -/

/-- A message that asks for the latest block, the only kind that is answered. -/
def isRequest (text : Text) : Bool :=
  decide (P2p.MessageType.ofText? (text.take 7) = some .r0008)

/-- How many messages a message is answered with. -/
def answers (text : Text) : Nat := if isRequest text then 1 else 0

/-- What a job may still write where there are up to `degree` connections. -/
def Trigger.cost (degree : Nat) : Trigger → Nat
  | .announceblock _ _ => degree
  | .connection _ _ => 1
  | .data _ none => 0
  | .data _ (some str) => answers str

/-- An outcome is no more than its trigger allows: so many messages, none of them a
request, and one block at most. -/
structure Trigger.Allows (trigger : Trigger) (outcome : Outcome) : Prop where
  written : ∀ connections, (outcome.written connections).length ≤
    trigger.cost connections.length
  answers : ∀ connections, ∀ write ∈ outcome.written connections, isRequest write.2 = false
  emitted : outcome.emitted.length ≤ 1

theorem isRequest_announcement (wire : Wire) (list : List BcBlock) :
    isRequest (announcement wire list) = false := by
  rw [isRequest, announcement, message_take, P2p.MessageType.ofText?_text]
  decide

/-- What one message is answered with. -/
structure Answers (n : Nat) (done : Handled) : Prop where
  written : done.written.length ≤ n
  answers : ∀ write ∈ done.written, isRequest write.2 = false
  emitted : done.emitted.length ≤ 1

theorem Answers.nothing (n : Nat) : Answers n {} := ⟨Nat.zero_le _, nofun, Nat.zero_le _⟩

theorem receiveBlock_answers (wire : Wire) (conn : Connection) (type : P2p.MessageType)
    (str : Text) (n : Nat) : ∀ done, receiveBlock wire conn type str = .ok done →
      Answers n done := by
  intro done h
  obtain ⟨block, rfl⟩ := receiveBlock_emitted h
  exact ⟨Nat.zero_le _, nofun, Nat.le_refl 1⟩

theorem receiveBlockList_answers (wire : Wire) (conn : Connection) (type : P2p.MessageType)
    (str : Text) (n : Nat) : ∀ done, receiveBlockList wire conn type str = .ok done →
      Answers n done := by
  intro done h
  -- an array cannot be split
  rw [receiveBlockList] at h
  cases h

/-- The latest block is sent as one announcement. -/
theorem respondLatest_answers (wire : Wire) (conn : Connection) :
    Async.Resolves (Answers 1) (respondLatest wire conn) := by
  refine Async.Resolves.bind (V := fun _ => True) (.of_forall (fun _ => trivial) _)
    fun latestBlock _ => .pure ⟨Nat.le_refl 1, ?_, Nat.zero_le _⟩
  intro write hwrite
  rw [qsend_connection, List.mem_singleton] at hwrite
  rw [hwrite, isRequest]
  refine decide_eq_false ?_
  rw [List.take_append_of_le_length (by decide),
    List.take_append_of_le_length (by decide)]
  decide

/-- No range is ever answered: what is called back with is one value. -/
theorem respondRange_answers (wire : Wire) (conn : Connection) (type : P2p.MessageType)
    (str : Text) (n : Nat) : Task.Ends (Answers n) (respondRange wire conn type str) := by
  rw [respondRange]
  split
  · exact .nothing n
  · next query hquery =>
      refine Task.Ends.bind (V := (· = [])) ?_ ?_
      · refine Task.Ends.bind (V := fun _ => True) (.of_forall (fun _ => trivial) _)
          fun results _ => ?_
        show (results.flatMap fun result => _) = []
        rw [List.flatMap_eq_nil_iff]
        intro result hresult
        cases result <;> rfl
      · rintro written rfl
        exact ⟨Nat.zero_le _, List.forall_mem_nil _, Nat.zero_le _⟩

theorem dispatch_answers (wire : Wire) (conn : Connection) (type : P2p.MessageType)
    (str : Text) {n : Nat} (hn : type = .r0008 → n = 1) :
    Async.Resolves (Answers n) (dispatch wire conn type str) := by
  rw [dispatch]
  split
  · exact .ofExcept (receiveBlock_answers wire conn type str _)
  · split
    · next htype =>
        rw [hn htype]
        exact respondLatest_answers wire conn
    · split
      · exact .ofTask (respondRange_answers wire conn type str _)
      · split
        · exact .ofExcept (receiveBlock_answers wire conn type str _)
        · split
          · exact .ofExcept (receiveBlockList_answers wire conn type str _)
          · exact .pure (.nothing _)

theorem peerDataHandler_answers (wire : Wire) (conn : Connection) (str : Text) :
    Async.Resolves (Answers (answers str)) (peerDataHandler wire conn (some str)) := by
  rw [peerDataHandler]
  split
  · exact .pure (.nothing _)
  · split
    · exact .pure (.nothing _)
    · split
      · exact .pure (.nothing _)
      · next type htype =>
          refine dispatch_answers wire conn type str fun hrequest => ?_
          rw [answers, isRequest, htype, hrequest]
          rfl

/-- **What a listener comes to** is what its trigger allows. -/
theorem listener_allows (wire : Wire) (trigger : Trigger) :
    Async.Resolves trigger.Allows (trigger.listener wire) := by
  cases trigger with
  | announceblock block order =>
      refine Async.Resolves.bind (V := fun _ => True) (.of_forall (fun _ => trivial) _)
        fun list _ => .pure ⟨fun connections => ?_, fun connections write hwrite => ?_,
          Nat.zero_le _⟩
      · rw [Outcome.written, qbroadcast_all, List.length_map]
        exact Nat.le_refl _
      · rw [Outcome.written, qbroadcast_all] at hwrite
        obtain ⟨conn, _, rfl⟩ := List.mem_map.1 hwrite
        exact isRequest_announcement wire list
  | connection conn env =>
      have hgreeting : Async.Resolves (fun written : List Write =>
          ∃ list, written = [(conn, announcement wire list)]) (greeting wire env conn) := by
        have hany {α : Type} (t : StoreM α) : Async.Resolves (fun _ => True) t :=
          .of_forall (fun _ => trivial) t
        exact (hany _).bind fun _ _ => (hany _).bind fun _ _ => (hany _).bind fun _ _ =>
          (hany _).bind fun _ _ => (hany _).bind fun list _ => .pure ⟨list, rfl⟩
      refine hgreeting.bind ?_
      rintro written ⟨list, rfl⟩
      refine .pure ⟨fun _ => Nat.le_refl 1, fun _ write hwrite => ?_, Nat.zero_le _⟩
      rw [Outcome.written, List.mem_singleton] at hwrite
      rw [hwrite]
      exact isRequest_announcement wire list
  | data conn str =>
      cases str with
      | none =>
          refine Async.Resolves.bind (V := (· = {})) (.pure rfl) ?_
          rintro done rfl
          exact .pure ⟨fun _ => Nat.zero_le _, fun _ => nofun, Nat.zero_le _⟩
      | some str =>
          refine (peerDataHandler_answers wire conn str).bind fun done hdone => ?_
          exact .pure ⟨fun _ => hdone.written, fun _ => hdone.answers, hdone.emitted⟩

/-- A message is handled without a change to the store. -/
theorem peerDataHandler_always {F : Store → Store → Prop} (hrefl : ∀ s, F s s) (wire : Wire)
    (conn : Connection) (str : Option Text) :
    Async.Always F (peerDataHandler wire conn str) := by
  have hdispatch (type : P2p.MessageType) (str : Text) :
      Async.Always F (dispatch wire conn type str) := by
    rw [dispatch]
    split
    · exact Async.Always.ofExcept _
    · split
      · exact Async.Always.bind (Task.Always.read hrefl _) fun _ => trivial
      · split
        · refine Async.Always.ofTask ?_
          rw [respondRange]
          split
          · trivial
          · refine Task.Always.bind (Task.Always.bind (Task.Always.sequence ?_)
              fun _ => trivial) fun _ => trivial
            intro t ht
            obtain ⟨key, _, rfl⟩ := List.mem_map.1 ht
            exact Task.Always.read hrefl _
        · split
          · exact Async.Always.ofExcept _
          · split
            · exact Async.Always.ofExcept _
            · trivial
  rw [peerDataHandler.eq_def]
  split
  · trivial
  · split
    · trivial
    · split
      · trivial
      · split
        · trivial
        · exact hdispatch _ _

theorem listener_always (wire : Wire) (trigger : Trigger) :
    Async.Always QuorumFrame (trigger.listener wire) := by
  cases trigger with
  | announceblock block order =>
      exact (getLiteMultiverse_always QuorumFrame.refl order block).bind fun _ => trivial
  | connection conn env => exact (greeting_always wire env conn).bind fun _ => trivial
  | data conn str =>
      exact (peerDataHandler_always QuorumFrame.refl wire conn str).bind fun _ => trivial

/-- What is left of a job comes to what its trigger allows, and changes nothing but the
quorum on the way. -/
structure Job.Allowed (job : Job) : Prop where
  ends : Task.Ends
    (fun result => ∀ outcome, result = .ok outcome → job.trigger.Allows outcome) job.rest
  frame : Task.Always QuorumFrame job.rest

/-! ## What a station may still write -/

/-- What a station remembers of its known blocks and owes with its jobs. -/
structure Station.Sound (s : Station) : Prop where
  known : s.known.Nodup
  jobs : ∀ job ∈ s.jobs, job.Allowed

/-- The hashes that come up are among `hashes`, and there are no more than `degree`
connections. -/
structure Station.Fits (hashes : Finset String) (degree : Nat) (s : Station) : Prop where
  known : ∀ hash ∈ s.known, hash ∈ hashes
  connections : s.connections.length ≤ degree

/-- A block that is not handled may still be announced. -/
def Operation.cost (degree : Nat) (op : Operation) : Nat :=
  match op.progress with
  | .handled _ _ => 0
  | _ => degree

/-- An announcement for each hash that is not known yet, and for each block that is not
handled; and what the jobs may write. -/
def Station.cost (hashes : Finset String) (degree : Nat) (s : Station) : Nat :=
  degree * (hashes \ s.known.toFinset).card + (s.operations.map (Operation.cost degree)).sum +
    (s.jobs.map fun job => job.trigger.cost degree).sum

/-- What an event allows to be written. -/
def StationEvent.credit (degree : Nat) : StationEvent → Nat
  | .minerBlockNew _ _ => degree
  | .connection _ _ => 1
  | _ => 0

section Cost

variable {hashes : Finset String} {degree : Nat} {env : StationEnv} {s : Station}

theorem Station.sound_trigger (h : s.Sound) (wire : Wire) (trigger : Trigger) :
    (s.trigger wire trigger).Sound := by
  refine ⟨h.known, fun job hjob => ?_⟩
  rcases List.mem_append.1 hjob with hold | hlast
  · exact h.jobs job hold
  · rw [List.mem_singleton.1 hlast]
    exact ⟨listener_allows wire trigger, listener_always wire trigger⟩

theorem Station.cost_trigger (wire : Wire) (trigger : Trigger) :
    (s.trigger wire trigger).cost hashes degree =
      s.cost hashes degree + trigger.cost degree := by
  simp [Station.cost, Station.trigger, Nat.add_assoc]

theorem Station.sound_learn (h : s.Sound) (newBlock : BcBlock) :
    (s.learn env newBlock).Sound :=
  ⟨Lru.nodup_use env.lru KNOWN_BLOCKS_MAX newBlock.hash h.known, h.jobs⟩

theorem Station.cost_start (op : Operation) :
    (s.start op).cost hashes degree = s.cost hashes degree + op.cost degree := by
  simp [Station.cost, Station.start]
  omega

/-- What a station comes to know is taken off the hashes that it does not know. -/
theorem Station.unknown_learn (env : StationEnv) (hroom : hashes.card ≤ KNOWN_BLOCKS_MAX)
    (h : s.Sound) (hfits : ∀ hash ∈ s.known, hash ∈ hashes) {newBlock : BcBlock}
    (hhash : newBlock.hash ∈ hashes) :
    hashes \ (s.learn env newBlock).known.toFinset =
      (hashes \ s.known.toFinset).erase newBlock.hash := by
  ext hash
  have huse : hash ∈ (s.learn env newBlock).known ↔ hash = newBlock.hash ∨ hash ∈ s.known :=
    Lru.mem_use_iff env.lru h.known hfits hhash hroom
  simp only [Finset.mem_sdiff, List.mem_toFinset, Finset.mem_erase, huse]
  tauto

/-- A new hash pays for its announcement. -/
theorem Station.cost_learn (env : StationEnv) (degree : Nat)
    (hroom : hashes.card ≤ KNOWN_BLOCKS_MAX) (h : s.Sound)
    (hfits : ∀ hash ∈ s.known, hash ∈ hashes) {newBlock : BcBlock}
    (hhash : newBlock.hash ∈ hashes) :
    (s.learn env newBlock).cost hashes degree +
        (if newBlock.hash ∈ s.known then 0 else degree) =
      s.cost hashes degree := by
  have hunknown := Station.unknown_learn env hroom h hfits hhash
  rw [Station.cost, Station.cost, hunknown]
  split
  · next hknown =>
      rw [Finset.erase_eq_of_notMem (by simp [hknown])]
      rfl
  · next hnew =>
      have hmem : newBlock.hash ∈ hashes \ s.known.toFinset := by simp [hnew, hhash]
      have hcard := Finset.card_erase_add_one hmem
      rw [← hcard, Nat.mul_add, Nat.mul_one]
      simp only [Station.learn]
      omega

theorem Station.mem_learn (s : Station) (newBlock : BcBlock) :
    newBlock.hash ∈ (s.learn env newBlock).known :=
  Lru.mem_use_self env.lru (by decide)

theorem Station.sound_blockFromPeer (h : s.Sound) (newBlock : BcBlock) :
    (s.blockFromPeer env newBlock).Sound := by
  rw [Station.blockFromPeer]
  split
  · exact Station.sound_learn h newBlock
  · exact ⟨(Station.sound_learn h newBlock).known, h.jobs⟩

theorem Station.known_blockFromPeer (s : Station) (newBlock : BcBlock) :
    (s.blockFromPeer env newBlock).known = (s.learn env newBlock).known := by
  rw [Station.blockFromPeer]
  split <;> rfl

theorem Station.cost_blockFromPeer (hroom : hashes.card ≤ KNOWN_BLOCKS_MAX) (h : s.Sound)
    (hfits : ∀ hash ∈ s.known, hash ∈ hashes) {newBlock : BcBlock}
    (hfits' : ∀ hash ∈ (s.blockFromPeer env newBlock).known, hash ∈ hashes) :
    (s.blockFromPeer env newBlock).cost hashes degree = s.cost hashes degree := by
  rw [Station.known_blockFromPeer] at hfits'
  have hlearn := Station.cost_learn env degree hroom h hfits
    (hfits' _ (s.mem_learn newBlock))
  rw [Station.blockFromPeer]
  split
  · next hold => rw [← hlearn, if_pos hold, Nat.add_zero]
  · next hnew => rw [Station.cost_start, ← hlearn, if_neg hnew]; rfl

theorem Station.sound_listen (h : s.Sound) (emission : Emission) :
    (s.listen env emission).Sound := by
  cases emission with
  | putblock msg => exact Station.sound_blockFromPeer h msg.data
  | putblocklist low high conn => exact h
  | putmultiverse data conn => exact h

theorem Station.cost_listen (hroom : hashes.card ≤ KNOWN_BLOCKS_MAX) (h : s.Sound)
    (hfits : ∀ hash ∈ s.known, hash ∈ hashes) {emission : Emission}
    (hfits' : ∀ hash ∈ (s.listen env emission).known, hash ∈ hashes) :
    (s.listen env emission).cost hashes degree = s.cost hashes degree := by
  cases emission with
  | putblock msg => exact Station.cost_blockFromPeer hroom h hfits hfits'
  | putblocklist low high conn => rfl
  | putmultiverse data conn => rfl

/-- With at most one of them, what has been emitted is listened to once or not at all. -/
theorem Outcome.listened {outcome : Outcome} (h : outcome.emitted.length ≤ 1)
    {P : Station → Prop} (hnone : P s) (hone : ∀ emission, P (s.listen env emission)) :
    P (outcome.emitted.foldl (Station.listen env) s) := by
  cases hemitted : outcome.emitted with
  | nil => exact hnone
  | cons emission rest =>
      rw [hemitted, List.length_cons] at h
      rw [List.eq_nil_of_length_eq_zero (show rest.length = 0 by omega)]
      exact hone emission

theorem Trigger.cost_mono (trigger : Trigger) {m n : Nat} (h : m ≤ n) :
    trigger.cost m ≤ trigger.cost n := by
  cases trigger with
  | announceblock block order => exact h
  | connection conn env => exact Nat.le_refl _
  | data conn str => cases str <;> exact Nat.le_refl _

end Cost

/-! ## One step -/

section Step

variable {hashes : Finset String} {degree : Nat} {env : StationEnv} {s : Station}

theorem Operation.afterValidation_cost (degree : Nat) (op : Operation) (valid : Bool) :
    (op.afterValidation valid).cost degree ≤ op.cost degree := by
  unfold Operation.afterValidation
  split
  · next hprogress =>
      rw [Operation.cost.eq_def degree op, hprogress]
      split
      · exact Nat.le_refl _
      · exact Nat.zero_le _
  · exact Nat.le_refl _

/-- An operation pays for the announcement of its block when it hands it on. -/
theorem Operation.advance_cost (degree : Nat) (pkg : Packages) (now : Nat) (node : Node)
    (op : Operation) :
    (op.advance pkg now node).2.cost degree +
        (if (op.handsOn node).isSome then degree else 0) ≤ op.cost degree := by
  unfold Operation.advance Operation.handsOn
  split
  · next call hprogress =>
      rw [Operation.cost.eq_def degree op, hprogress]
      split <;> exact Nat.le_refl _
  · next answer hprogress =>
      rw [Operation.cost.eq_def degree op, hprogress]
      simp only [Operation.cost]
      split <;> split <;> omega
  · next hawaiting hdecided =>
      split
      · next answer hprogress => exact absurd hprogress (hdecided answer)
      · exact Nat.le_refl _

theorem Station.jobs_erased (h : s.Sound) (i : Nat) :
    Station.Sound { s with jobs := s.jobs.eraseIdx i } :=
  ⟨h.known, fun job hjob => h.jobs job (List.mem_of_mem_eraseIdx hjob)⟩

theorem Station.sound_resume (h : s.Sound) (i now : Nat) (order : List Nat) :
    (s.resume env i now order).Sound := by
  rw [Station.resume]
  split
  · exact h
  · split
    · exact ⟨h.known, h.jobs⟩
    · refine Station.sound_trigger ?_ env.wire _
      exact ⟨h.known, h.jobs⟩

theorem Station.sound_work (h : s.Sound) (i : Nat) : (s.work env i).1.Sound := by
  rw [Station.work]
  split
  · exact h
  · next trigger update next hi =>
      have hjob := h.jobs _ (List.mem_of_getElem? hi)
      refine ⟨h.known, fun job hmem => ?_⟩
      rcases List.mem_or_eq_of_mem_set hmem with hold | rfl
      · exact h.jobs job hold
      · exact ⟨hjob.ends s.node.store, (hjob.frame s.node.store).2⟩
  · next trigger result hi =>
      have hjob := h.jobs _ (List.mem_of_getElem? hi)
      cases result with
      | error e => exact Station.jobs_erased h i
      | ok outcome =>
          exact Outcome.listened (hjob.ends outcome rfl).emitted (Station.jobs_erased h i)
            (Station.sound_listen (Station.jobs_erased h i))

/-- Every step keeps a station sound. -/
theorem Station.sound_step (h : s.Sound) (event : StationEvent) :
    (s.step env event).1.Sound := by
  cases event with
  | minerBlockNew newBlock order =>
      cases newBlock with
      | none => exact h
      | some newBlock =>
          rw [Station.step, Station.processMinedBlock]
          split
          · refine Station.sound_trigger ?_ env.wire _
            exact ⟨h.known, h.jobs⟩
          · exact ⟨(Station.sound_learn h newBlock).known, h.jobs⟩
  | validated i valid =>
      rw [Station.step]
      split <;> exact ⟨h.known, h.jobs⟩
  | resume i now order => exact Station.sound_resume h i now order
  | work i => exact Station.sound_work h i
  | connection conn greeting =>
      refine Station.sound_trigger ?_ env.wire _
      exact ⟨h.known, h.jobs⟩
  | closed conn => exact ⟨h.known, h.jobs⟩
  | others node => exact ⟨h.known, h.jobs⟩

/-- No step writes a request. -/
theorem Station.step_answers (env : StationEnv) (h : s.Sound) (event : StationEvent) :
    ∀ write ∈ (s.step env event).2, isRequest write.2 = false := by
  cases event with
  | minerBlockNew newBlock order => cases newBlock <;> exact nofun
  | validated i valid =>
      rw [Station.step]
      split <;> exact nofun
  | resume i now order => exact nofun
  | connection conn greeting => exact nofun
  | closed conn => exact nofun
  | others node => exact nofun
  | work i =>
      rw [Station.step, Station.work]
      split
      · exact nofun
      · exact nofun
      · next trigger result hi =>
          cases result with
          | error e => exact nofun
          | ok outcome =>
              have hjob := h.jobs _ (List.mem_of_getElem? hi)
              exact (hjob.ends outcome rfl).answers s.connections

theorem Station.cost_resume (i now : Nat) (order : List Nat) :
    (s.resume env i now order).cost hashes degree ≤ s.cost hashes degree := by
  rw [Station.resume]
  split
  · exact Nat.le_refl _
  · next op hi =>
      have hop := op.advance_cost degree env.pkg now s.node
      have hset := sum_map_set (Operation.cost degree) hi
        (op.advance env.pkg now s.node).2
      split
      · next hnone =>
          rw [hnone] at hop
          simp only [Station.cost, Option.isSome_none, Bool.false_eq_true, if_false] at hop ⊢
          omega
      · next block hsome =>
          rw [hsome] at hop
          rw [Station.broadcastNewBlock, Station.cost_trigger]
          simp only [Station.cost, Option.isSome_some, if_true, Trigger.cost] at hop ⊢
          omega

theorem Station.cost_erased {i : Nat} {job : Job} (hi : s.jobs[i]? = some job) :
    Station.cost hashes degree { s with jobs := s.jobs.eraseIdx i } +
        job.trigger.cost degree = s.cost hashes degree := by
  have herase := sum_map_eraseIdx (fun job : Job => job.trigger.cost degree) hi
  simp only [Station.cost]
  omega

/-- A job pays for what it writes. -/
theorem Station.cost_work (hroom : hashes.card ≤ KNOWN_BLOCKS_MAX) (h : s.Sound)
    (hfits : s.Fits hashes degree) {i : Nat} (hfits' : (s.work env i).1.Fits hashes degree) :
    (s.work env i).1.cost hashes degree + (s.work env i).2.length ≤ s.cost hashes degree := by
  rw [Station.work] at hfits' ⊢
  split at hfits'
  · exact Nat.le_refl _
  · next trigger update next hi =>
      have hset := sum_map_set (fun job : Job => job.trigger.cost degree) hi
        ⟨trigger, next s.node.store⟩
      simp only [Station.cost, List.length_nil, Nat.add_zero] at hset ⊢
      omega
  · next trigger result hi =>
      have herased : Station.cost hashes degree { s with jobs := s.jobs.eraseIdx i } +
          trigger.cost degree = s.cost hashes degree := Station.cost_erased hi
      cases result with
      | error e =>
          simp only [Station.finish, List.length_nil, Nat.add_zero]
          omega
      | ok outcome =>
          have hjob := (h.jobs _ (List.mem_of_getElem? hi)).ends outcome rfl
          have hwritten := (hjob.written s.connections).trans
            (trigger.cost_mono hfits.connections)
          -- what is emitted costs nothing more
          have hlisten : Station.cost hashes degree
              (outcome.emitted.foldl (Station.listen env)
                { s with jobs := s.jobs.eraseIdx i }) =
                Station.cost hashes degree { s with jobs := s.jobs.eraseIdx i } :=
            Outcome.listened (P := fun s' => (∀ hash ∈ s'.known, hash ∈ hashes) →
                s'.cost hashes degree = _) hjob.emitted (fun _ => rfl)
              (fun emission hknown =>
                Station.cost_listen hroom (Station.jobs_erased h i) hfits.known hknown)
              hfits'.known
          simp only [Station.finish]
          omega

/-- **The budget of a station.**  With room for all hashes, a step takes from it what it
writes. -/
theorem Station.cost_step (hroom : hashes.card ≤ KNOWN_BLOCKS_MAX) (h : s.Sound)
    (hfits : s.Fits hashes degree) {event : StationEvent}
    (hfits' : (s.step env event).1.Fits hashes degree) :
    (s.step env event).1.cost hashes degree + (s.step env event).2.length ≤
      s.cost hashes degree + event.credit degree := by
  cases event with
  | minerBlockNew newBlock order =>
      cases newBlock with
      | none => exact Nat.le_add_right _ _
      | some newBlock =>
          have hknown := hfits'.known
          simp only [Station.step, List.length_nil, Nat.add_zero, StationEvent.credit]
          rw [Station.step, Station.processMinedBlock] at hknown
          rw [Station.processMinedBlock]
          split
          · rw [Station.broadcastNewBlock, Station.cost_trigger, Station.cost_start]
            simp [Operation.cost, Trigger.cost]
          · next hnew =>
              rw [if_neg hnew] at hknown
              have hlearn := Station.cost_learn env degree hroom h hfits.known
                (hknown _ (s.mem_learn newBlock))
              rw [if_neg hnew] at hlearn
              rw [Station.cost_start]
              simp only [Operation.cost]
              omega
  | validated i valid =>
      rw [Station.step]
      split
      · exact Nat.le_add_right _ _
      · next op hi =>
          have hop := op.afterValidation_cost degree valid
          have hset := sum_map_set (Operation.cost degree) hi
            (op.afterValidation valid)
          simp only [Station.cost, List.length_nil, StationEvent.credit]
          omega
  | resume i now order =>
      exact (Station.cost_resume i now order).trans (Nat.le_add_right _ _)
  | work i => exact (Station.cost_work hroom h hfits hfits').trans (Nat.le_add_right _ _)
  | connection conn greeting =>
      simp only [Station.step, Station.cost_trigger, List.length_nil, Nat.add_zero]
      exact Nat.le_refl _
  | closed conn => exact Nat.le_refl _
  | others node => exact Nat.le_refl _

end Step

/-! ## An announcement on its way

What becomes of an announcement at the station that makes it and at the one that gets it,
if the codec and the store do what they should.
-/

/-- A block that can be read again. -/
structure Lossless (wire : Wire) (block : BcBlock) : Prop where
  bytes : wire.serializeBinary block ≠ []
  read : wire.deserializeBinary (wire.serializeBinary block) = .ok block

/-- What is stored under a height is a block of that height. -/
def HoldsHeights (store : Store) : Prop :=
  ∀ h value, store (.block .bc (.height h)) = some value →
    ∃ block, value = .bcBlock block ∧ block.height = h

/-- Steps that keep it so. -/
def KeepsHeights (store store' : Store) : Prop := HoldsHeights store → HoldsHeights store'

theorem KeepsHeights.trans {s₁ s₂ s₃ : Store} (h : KeepsHeights s₁ s₂)
    (h' : KeepsHeights s₂ s₃) : KeepsHeights s₁ s₃ := fun hs => h' (h hs)

/-- With lower blocks a block comes first. -/
theorem sortDescending_head {block : BcBlock} {lower : List BcBlock}
    (h : ∀ b ∈ lower, b.height < block.height) :
    ∃ rest, sortDescending (·.height) (block :: lower) = block :: rest := by
  obtain ⟨highest, rest, hsorted, hhighest⟩ :=
    exists_sortDescending_cons (·.height) (List.cons_ne_nil block lower)
  have hmem (b : BcBlock) : b ∈ highest :: rest ↔ b ∈ block :: lower := by
    rw [← hsorted]
    exact (sortDescending_perm _ _).mem_iff
  have hle := hhighest block ((hmem block).2 List.mem_cons_self)
  rcases List.mem_cons.1 ((hmem highest).1 List.mem_cons_self) with rfl | hlower
  · exact ⟨rest, hsorted⟩
  · have hlt := h highest hlower
    exact absurd hle (by omega)

/-- Whatever happens to the store in between, the multiverse of a block opens with it. -/
theorem getLiteMultiverse_safe (order : List Nat) (block : BcBlock) {store : Store}
    (h : HoldsHeights store) :
    Task.Safe KeepsHeights (fun result _ => ∃ rest, result = .ok (block :: rest))
      (ExceptT.run (getLiteMultiverse order block)) store := by
  unfold getLiteMultiverse
  split
  · exact fun _ _ => ⟨[], rfl⟩
  · next hlow =>
      have hrefl : ∀ s, KeepsHeights s s := fun _ => id
      rw [Async.run_ofTask_bind, getBulk, Task.bind_assoc]
      refine Task.Safe.bind hrefl (Task.Safe.all_results hrefl (fun _ _ _ => .trans)
        (V := fun read => ∀ value, read = .ok value →
          ∃ b, value = .bcBlock b ∧ b.height < block.height) order ?_) ?_
      · intro t ht
        obtain ⟨key, hkey, rfl⟩ := List.mem_map.1 ht
        intro s hs
        refine ⟨id, fun _ _ value hvalue => ?_⟩
        rcases List.mem_pair.1 hkey with rfl | rfl
        all_goals
          obtain ⟨b, rfl, hheight⟩ := hs h _ _ (getIn_ok.1 hvalue)
          exact ⟨b, rfl, by omega⟩
      · intro reads s hreads
        have hvalues : ∀ value ∈ reads.filterMap Except.toOption,
            ∃ b, value = .bcBlock b ∧ b.height < block.height := by
          intro value hvalue
          obtain ⟨read, hread, hok⟩ := List.mem_filterMap.1 hvalue
          cases read with
          | error e => cases hok
          | ok v => cases hok; exact hreads _ hread _ rfl
        obtain ⟨blocks, hblocks, hall⟩ := mapM_asBcBlock fun value hvalue =>
          (hvalues value hvalue).imp fun _ => And.left
        have hlower : ∀ b ∈ blocks, b.height < block.height := by
          intro b hb
          obtain ⟨b', hb', hlt⟩ := hvalues (.bcBlock b) (by
            rw [hall]
            exact List.mem_map_of_mem hb)
          cases hb'
          exact hlt
        obtain ⟨rest, hrest⟩ := sortDescending_head hlower
        rw [Task.pure_eq, Task.bind_done, hblocks, Async.ofExcept_ok_bind]
        exact fun _ _ => ⟨rest, congrArg Except.ok hrest⟩

/-- A job will announce the block. -/
def Station.Announcing (wire : Wire) (s : Station) (block : BcBlock) : Prop :=
  ∃ job ∈ s.jobs, Task.Safe KeepsHeights
    (fun result _ => ∃ rest, result = .ok (.broadcast (announcement wire (block :: rest))))
    job.rest s.node.store

/-- A job will hand the block to the engine. -/
def Station.Receiving (s : Station) (block : BcBlock) : Prop :=
  ∃ job ∈ s.jobs, ∃ conn,
    job.rest = .done (.ok (.handled { emitted := [.putblock ⟨block, conn⟩] }))

section OnItsWay

variable {env : StationEnv} {s : Station} {block : BcBlock}

theorem Station.announcing_broadcastNewBlock (wire : Wire) (block : BcBlock)
    (order : List Nat) (h : HoldsHeights s.node.store) :
    (s.broadcastNewBlock wire block order).Announcing wire block := by
  refine ⟨_, List.mem_append_right _ (List.mem_singleton_self _), ?_⟩
  show Task.Safe KeepsHeights _ (ExceptT.run (getLiteMultiverse order block >>= _)) _
  rw [ExceptT.run_bind]
  refine Task.Safe.bind (fun _ => id) (getLiteMultiverse_safe order block h) ?_
  rintro result s' ⟨rest, rfl⟩
  exact fun _ _ => ⟨rest, rfl⟩

/-- **An announcement is received.** -/
theorem Station.receiving_receive {wire : Wire} (henv : env.wire = wire)
    (hlossless : Lossless wire block) {rest : List BcBlock}
    (hsize : jsLength (announcement wire (block :: rest)) ≤ 95000) (conn : Connection) :
    (s.receive env conn (announcement wire (block :: rest))).Receiving block := by
  refine ⟨_, List.mem_append_right _ (List.mem_singleton_self _), conn, ?_⟩
  have hhandler : peerDataHandler wire conn (some (announcement wire (block :: rest))) =
      Async.ofExcept (.ok { emitted := [.putblock ⟨block, conn⟩] }) := by
    have hdispatch := peerDataHandler_message wire conn .w0008 hsize
    rw [announcement, hdispatch]
    show Async.ofExcept (receiveBlock wire conn .w0008 (announcement wire (block :: rest))) = _
    rw [receiveBlock_announcement wire conn block rest hlossless.bytes, hlossless.read]
    rfl
  show ExceptT.run (peerDataHandler env.wire conn _ >>= _) = _
  rw [henv, hhandler]
  rfl

end OnItsWay

section Kept

variable {env : StationEnv} {s : Station} {block : BcBlock}

/-- A call reads the store and leaves it as it is. -/
theorem Operation.advance_store (pkg : Packages) (now : Nat) (node : Node)
    (op : Operation) : (op.advance pkg now node).1.store = node.store := by
  have hresume (call : Call) : (call.resume pkg now node).1.store = node.store := by
    cases call with
    | called newBlock =>
        rw [Call.resume]
        split <;> rfl
    | awaitingLatest newBlock =>
        rw [Call.resume, Call.after.eq_def]
        split <;> rfl
    | awaitingParent newBlock currentHighestBlock =>
        rw [Call.resume, Call.after.eq_def]
        split <;> rfl
    | deciding newBlock currentHighestBlock currentHighestParent => rfl
  unfold Operation.advance
  split
  · next call hprogress =>
      have hstore := hresume call
      split <;> next heq => rw [heq] at hstore; exact hstore
  · rfl
  · rfl

/-- Only a job that goes on is no longer what it was. -/
theorem Station.jobs_step {event : StationEvent} (h : ∀ i, event ≠ .work i) :
    ∀ job ∈ s.jobs, job ∈ (s.step env event).1.jobs := by
  intro job hjob
  cases event with
  | minerBlockNew newBlock order =>
      cases newBlock with
      | none => exact hjob
      | some newBlock =>
          rw [Station.step, Station.processMinedBlock]
          split
          · exact List.mem_append_left _ hjob
          · exact hjob
  | validated i valid =>
      rw [Station.step]
      split <;> exact hjob
  | resume i now order =>
      rw [Station.step, Station.resume]
      split
      · exact hjob
      · split
        · exact hjob
        · exact List.mem_append_left _ hjob
  | work i => exact absurd rfl (h i)
  | connection conn greeting => exact List.mem_append_left _ hjob
  | closed conn => exact hjob
  | others node => exact hjob

theorem Station.blockFromPeer_kept (s : Station) (newBlock : BcBlock) :
    (s.blockFromPeer env newBlock).jobs = s.jobs ∧
      (s.blockFromPeer env newBlock).node = s.node ∧
      (s.blockFromPeer env newBlock).connections = s.connections := by
  rw [Station.blockFromPeer]
  split <;> exact ⟨rfl, rfl, rfl⟩

/-- Of the jobs, the node and the connections listening changes nothing. -/
theorem Station.listen_kept (emissions : List Emission) (s : Station) :
    (emissions.foldl (Station.listen env) s).jobs = s.jobs ∧
      (emissions.foldl (Station.listen env) s).node = s.node ∧
      (emissions.foldl (Station.listen env) s).connections = s.connections := by
  induction emissions generalizing s with
  | nil => exact ⟨rfl, rfl, rfl⟩
  | cons emission emissions ih =>
      have hlisten : (s.listen env emission).jobs = s.jobs ∧
          (s.listen env emission).node = s.node ∧
          (s.listen env emission).connections = s.connections := by
        cases emission with
        | putblock msg => exact s.blockFromPeer_kept msg.data
        | putblocklist low high conn => exact ⟨rfl, rfl, rfl⟩
        | putmultiverse data conn => exact ⟨rfl, rfl, rfl⟩
      obtain ⟨hjobs, hnode, hconnections⟩ := ih (s.listen env emission)
      exact ⟨hjobs.trans hlisten.1, hnode.trans hlisten.2.1,
        hconnections.trans hlisten.2.2⟩

/-- The jobs that do not go on stay. -/
theorem Station.work_other {i k : Nat} {job : Job} (hk : s.jobs[k]? = some job)
    (hne : k ≠ i) : job ∈ (s.work env i).1.jobs := by
  rw [Station.work]
  split
  · exact List.mem_of_getElem? hk
  · exact List.mem_of_getElem? ((List.getElem?_set_ne (Ne.symm hne)).trans hk)
  · next trigger result hi =>
      have herased : job ∈ s.jobs.eraseIdx i :=
        List.mem_eraseIdx_iff_getElem?.2 ⟨k, hne, hk⟩
      cases result with
      | error e => exact herased
      | ok outcome =>
          rw [Station.finish, (Station.listen_kept outcome.emitted _).1]
          exact herased

/-- What others leave of the store. -/
def StationEvent.KeepsHeights : StationEvent → Prop
  | .others node => HoldsHeights node.store
  | _ => True

/-- A station itself writes no blocks here. -/
theorem Station.heights_step (h : s.Sound) (hheights : HoldsHeights s.node.store)
    {event : StationEvent} (hevent : event.KeepsHeights) :
    HoldsHeights (s.step env event).1.node.store := by
  cases event with
  | minerBlockNew newBlock order =>
      cases newBlock with
      | none => exact hheights
      | some newBlock =>
          rw [Station.step, Station.processMinedBlock]
          split <;> exact hheights
  | validated i valid =>
      rw [Station.step]
      split <;> exact hheights
  | resume i now order =>
      rw [Station.step, Station.resume]
      split
      · exact hheights
      · next op hi =>
          have hstore : (op.advance env.pkg now s.node).1.store = s.node.store :=
            Operation.advance_store ..
          have hnext : HoldsHeights (op.advance env.pkg now s.node).1.store := by
            rw [hstore]
            exact hheights
          split <;> exact hnext
  | work i =>
      rw [Station.step, Station.work]
      split
      · exact hheights
      · next trigger update next hi =>
          have hframe := ((h.jobs _ (List.mem_of_getElem? hi)).frame s.node.store).1
          intro height value hvalue
          exact hheights height value ((hframe _ (by simp)).symm.trans hvalue)
      · next trigger result hi =>
          cases result with
          | error e => exact hheights
          | ok outcome =>
              rw [Station.finish, (Station.listen_kept outcome.emitted _).2.1]
              exact hheights
  | connection conn greeting => exact hheights
  | closed conn => exact hheights
  | others node => exact hevent

/-- **An announcement stays on its way** until it has been written to everyone who is
connected. -/
theorem Station.announcing_step {event : StationEvent}
    (hheights : HoldsHeights (s.step env event).1.node.store)
    (h : s.Announcing env.wire block) :
    (s.step env event).1.Announcing env.wire block ∨
      ∃ rest, ∀ conn ∈ (s.step env event).1.connections,
        (conn, announcement env.wire (block :: rest)) ∈ (s.step env event).2 := by
  obtain ⟨job, hjob, hsafe⟩ := h
  have hkeeps : KeepsHeights s.node.store (s.step env event).1.node.store :=
    fun _ => hheights
  by_cases hwork : ∃ i, event = .work i
  · obtain ⟨i, rfl⟩ := hwork
    obtain ⟨k, hk⟩ := List.mem_iff_getElem?.1 hjob
    by_cases hki : k = i
    · rw [hki] at hk
      obtain ⟨trigger, rest⟩ := job
      cases rest with
      | act update next =>
          left
          have hlt := (List.getElem?_eq_some_iff.1 hk).1
          simp only [Station.step, Station.work, hk]
          exact ⟨⟨trigger, next s.node.store⟩, List.mem_set hlt _,
            (hsafe s.node.store id).2⟩
      | done result =>
          right
          obtain ⟨rest, rfl⟩ := hsafe s.node.store id
          refine ⟨rest, fun conn hconn => ?_⟩
          simp only [Station.step, Station.work, hk, Station.finish, Outcome.emitted,
            Outcome.written, List.foldl_nil, qbroadcast_all] at hconn ⊢
          exact List.mem_map_of_mem hconn
    · exact .inl ⟨job, Station.work_other hk hki, hsafe.rely (fun _ _ _ => .trans) hkeeps⟩
  · exact .inl ⟨job, Station.jobs_step (fun i hi => hwork ⟨i, hi⟩) job hjob,
      hsafe.rely (fun _ _ _ => .trans) hkeeps⟩

/-- What a station knows it does not forget as long as there is room. -/
theorem Station.known_step {hashes : Finset String}
    (hroom : hashes.card ≤ KNOWN_BLOCKS_MAX) (h : s.Sound)
    (hfits : ∀ hash ∈ s.known, hash ∈ hashes) {event : StationEvent}
    (hfits' : ∀ hash ∈ (s.step env event).1.known, hash ∈ hashes) :
    ∀ hash ∈ s.known, hash ∈ (s.step env event).1.known := by
  have hlearn (newBlock : BcBlock) (hhash : newBlock.hash ∈ hashes) :
      ∀ hash ∈ s.known, hash ∈ (s.learn env newBlock).known :=
    fun hash hknown => (Lru.mem_use_iff env.lru h.known hfits hhash hroom).2 (.inr hknown)
  intro hash hknown
  cases event with
  | minerBlockNew newBlock order =>
      cases newBlock with
      | none => exact hknown
      | some newBlock =>
          rw [Station.step, Station.processMinedBlock] at hfits' ⊢
          split at hfits'
          · next hold => rw [if_pos hold]; exact hknown
          · next hnew =>
              rw [if_neg hnew]
              exact hlearn newBlock (hfits' _ (s.mem_learn newBlock)) hash hknown
  | validated i valid =>
      rw [Station.step]
      split <;> exact hknown
  | resume i now order =>
      rw [Station.step, Station.resume]
      split
      · exact hknown
      · split <;> exact hknown
  | work i =>
      rw [Station.step, Station.work] at hfits' ⊢
      split at hfits'
      · exact hknown
      · exact hknown
      · next trigger result hi =>
          cases result with
          | error e => exact hknown
          | ok outcome =>
              have hjob := (h.jobs _ (List.mem_of_getElem? hi)).ends outcome rfl
              revert hfits'
              refine Outcome.listened (P := fun s' =>
                (∀ hash ∈ s'.known, hash ∈ hashes) → hash ∈ s'.known) hjob.emitted
                (fun _ => hknown) fun emission hfits' => ?_
              cases emission with
              | putblock msg =>
                  rw [Station.listen, Station.known_blockFromPeer] at hfits' ⊢
                  exact hlearn msg.data (hfits' _ (Station.mem_learn _ _)) hash hknown
              | putblocklist low high conn => exact hknown
              | putmultiverse data conn => exact hknown
  | connection conn greeting => exact hknown
  | closed conn => exact hknown
  | others node => exact hknown

/-- A block that has come in is handed to the engine, which then knows it. -/
theorem Station.receiving_step (event : StationEvent) (h : s.Receiving block) :
    (s.step env event).1.Receiving block ∨
      block.hash ∈ (s.step env event).1.known := by
  obtain ⟨job, hjob, conn, hrest⟩ := h
  by_cases hwork : ∃ i, event = .work i
  · obtain ⟨i, rfl⟩ := hwork
    obtain ⟨k, hk⟩ := List.mem_iff_getElem?.1 hjob
    by_cases hki : k = i
    · right
      rw [hki] at hk
      obtain ⟨trigger, rest⟩ := job
      cases hrest
      simp only [Station.step, Station.work, hk, Station.finish, Outcome.emitted,
        List.foldl_cons, List.foldl_nil, Station.listen, Station.known_blockFromPeer]
      exact Station.mem_learn _ block
    · exact .inl ⟨job, Station.work_other hk hki, conn, hrest⟩
  · exact .inl ⟨job, Station.jobs_step (fun i hi => hwork ⟨i, hi⟩) job hjob, conn, hrest⟩

theorem Operation.afterValidation_broadcast {op : Operation} {valid : Bool}
    (h : (op.afterValidation valid).broadcast? = some block) :
    op.broadcast? = some block := by
  unfold Operation.afterValidation at h
  split at h
  · split at h <;> cases h
  · exact h

theorem Operation.advance_broadcast {op : Operation} {pkg : Packages} {now : Nat}
    {node : Node} (h : (op.advance pkg now node).2.broadcast? = some block) :
    op.broadcast? = some block ∨ op.handsOn node = some block := by
  unfold Operation.advance at h
  split at h
  · split at h <;> cases h
  · next answer hprogress =>
      right
      rw [Operation.handsOn, hprogress]
      simp only [Operation.broadcast?] at h ⊢
      split at h
      · next hhandled =>
          rw [if_pos (Progress.handled.inj hhandled).2]
          exact h
      · cases h
  · exact .inl h

theorem Station.operations_blockFromPeer {newBlock : BcBlock} {op : Operation}
    (hop : op ∈ (s.blockFromPeer env newBlock).operations)
    (h : op.broadcast? = some block) : op ∈ s.operations := by
  rw [Station.blockFromPeer] at hop
  split at hop
  · exact hop
  · rcases List.mem_append.1 hop with hold | hlast
    · exact hold
    · rw [List.mem_singleton.1 hlast] at h
      cases h

theorem Station.operations_listen {op : Operation} (h : op.broadcast? = some block)
    (emissions : List Emission) (s : Station)
    (hop : op ∈ (emissions.foldl (Station.listen env) s).operations) : op ∈ s.operations := by
  induction emissions generalizing s with
  | nil => exact hop
  | cons emission emissions ih =>
      have hmem := ih (s.listen env emission) hop
      cases emission with
      | putblock msg => exact Station.operations_blockFromPeer hmem h
      | putblocklist low high conn => exact hmem
      | putmultiverse data conn => exact hmem

/-- **A block that gets handed on is announced.** -/
theorem Station.broadcast_step {event : StationEvent}
    (hheights : HoldsHeights (s.step env event).1.node.store) {op : Operation}
    (hop : op ∈ (s.step env event).1.operations) (h : op.broadcast? = some block) :
    (∃ op ∈ s.operations, op.broadcast? = some block) ∨
      (s.step env event).1.Announcing env.wire block := by
  cases event with
  | minerBlockNew newBlock order =>
      cases newBlock with
      | none => exact .inl ⟨op, hop, h⟩
      | some newBlock =>
          rw [Station.step, Station.processMinedBlock] at hheights hop ⊢
          split at hop
          · next hknown =>
              rw [if_pos hknown] at hheights ⊢
              rcases List.mem_append.1 hop with hold | hlast
              · exact .inl ⟨op, hold, h⟩
              · rw [List.mem_singleton.1 hlast] at h
                cases h
                exact .inr (Station.announcing_broadcastNewBlock env.wire _ order hheights)
          · rcases List.mem_append.1 hop with hold | hlast
            · exact .inl ⟨op, hold, h⟩
            · rw [List.mem_singleton.1 hlast] at h
              cases h
  | validated i valid =>
      rw [Station.step] at hop
      split at hop
      · exact .inl ⟨op, hop, h⟩
      · next before hi =>
          rcases List.mem_or_eq_of_mem_set hop with hold | rfl
          · exact .inl ⟨op, hold, h⟩
          · exact .inl ⟨before, List.mem_of_getElem? hi,
              Operation.afterValidation_broadcast h⟩
  | resume i now order =>
      rw [Station.step, Station.resume] at hheights hop ⊢
      split at hop
      · exact .inl ⟨op, hop, h⟩
      · next before hi =>
          have hmem : op ∈ s.operations.set i (before.advance env.pkg now s.node).2 := by
            split at hop <;> exact hop
          rcases List.mem_or_eq_of_mem_set hmem with hold | rfl
          · exact .inl ⟨op, hold, h⟩
          · rcases Operation.advance_broadcast h with hbefore | hhands
            · exact .inl ⟨before, List.mem_of_getElem? hi, hbefore⟩
            · right
              simp only [hi, hhands] at hheights ⊢
              exact Station.announcing_broadcastNewBlock env.wire block order hheights
  | work i =>
      left
      rw [Station.step, Station.work] at hop
      split at hop
      · exact ⟨op, hop, h⟩
      · exact ⟨op, hop, h⟩
      · next trigger result hi =>
          cases result with
          | error e => exact ⟨op, hop, h⟩
          | ok outcome =>
              exact ⟨op, Station.operations_listen h outcome.emitted
                { s with jobs := s.jobs.eraseIdx i } hop, h⟩
  | connection conn greeting => exact .inl ⟨op, hop, h⟩
  | closed conn => exact .inl ⟨op, hop, h⟩
  | others node => exact .inl ⟨op, hop, h⟩

end Kept

end BcNode.Engine
