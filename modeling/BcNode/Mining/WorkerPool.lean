import BcNode.Mining.Thread

/-!
# The worker pool

The engine, the processes it forks, and their threads.  `startMining` registers a
template and sends the work that goes with it to the pool's process, where a thread mines
it; the solution comes back, and the officer completes the template with it.

`Farm` has all of them, and `FarmEvent` what can happen: calls, messages that arrive in
any order or get lost, processes that end and are replaced.  `published_genuine` follows
a published block back to the work that was sent with its template.  Below
`UNCHECKED_HEIGHT` a block is not looked at before it is published, so that its distance
is right only because of this.  `threads_le` bounds the threads of a process.
-/

namespace BcNode.Mining.WorkerPool

open BcNode.Verified BcNode.Js BcNode.Bc

/-! ## The engine and its pool -/

/-- `_pool` is the last of `pools`.  `sent` is everything that has been sent, with the
template registered for it. -/
structure Farm where
  ledger : Ledger := {}
  sent : List (Unfinished × WorkData) := []
  pools : List Master := []
  outbox : List PoolMessage := []

namespace Farm

/-- `_scheduleNewPool`, and what `_handlePoolError` and `_handlePoolExit` do.  The process
is not sent the `config`. -/
def scheduleNewPool (farm : Farm) : Farm := { farm with pools := farm.pools ++ [{}] }

/-- `_sendMessage`.  With no process to send to, one is forked; its `online`, for which
the message waits, never comes. -/
def sendMessage (farm : Farm) (msg : Request) : Farm :=
  match farm.pools.getLast? with
  | none => farm.scheduleNewPool
  | some pool =>
      { farm with
        pools := farm.pools.dropLast ++ [{ pool with inbox := pool.inbox ++ [msg] }] }

/-- `startMining` from where its reads are done. -/
def startMining (pkg : Packages) (minerKey : String) (farm : Farm)
    (inputs : MiningInputs) : Farm :=
  let ledger := farm.ledger.startMining pkg minerKey inputs
  match farm.ledger.officer.startMining pkg minerKey inputs with
  | (_, .error _) => { farm with ledger }
  | (_, .ok (entry, update)) =>
      { farm with ledger, sent := farm.sent ++ [(entry, update)] }.sendMessage (.work update)

/-- A message of a process. -/
def handlePoolMessage (pkg : Packages) (minerKey : String) (farm : Farm) (i : Nat) : Farm :=
  match farm.outbox[i]? with
  | none => farm
  | some msg =>
      { farm with
        outbox := farm.outbox.eraseIdx i
        ledger := farm.ledger.step pkg minerKey (.poolMessage (some msg)) }

/-- A process does something. -/
def stepPool (pkg : Packages) (farm : Farm) (p : Nat) (event : MasterEvent) : Farm :=
  match farm.pools[p]? with
  | none => farm
  | some pool =>
      let (pool, msg) := pool.step pkg event
      { farm with pools := farm.pools.set p pool, outbox := farm.outbox ++ msg.toList }

end Farm

/-- What can happen. -/
inductive FarmEvent where
  | allRise
  | startMining (inputs : MiningInputs)
  | stopMining
  | cleanUnfinishedBlock
  | poolMessage (i : Nat)
  | lost (i : Nat)
  | poolError
  | poolExit (p : Nat)
  | pool (p : Nat) (event : MasterEvent)
  deriving DecidableEq, Repr

section Runs

variable (pkg : Packages) (minerKey : String) (maxWorkers : Nat)

/-- `maxWorkers` is `_maxWorkers`. -/
def Farm.step (farm : Farm) : FarmEvent → Farm
  | .allRise =>
      { farm with pools := farm.pools ++ [{ inbox := [.config maxWorkers] }] }
  | .startMining inputs => farm.startMining pkg minerKey inputs
  | .stopMining => farm.sendMessage .reset
  | .cleanUnfinishedBlock =>
      { farm with ledger := farm.ledger.step pkg minerKey .cleanUnfinishedBlock }
  | .poolMessage i => farm.handlePoolMessage pkg minerKey i
  | .lost i => { farm with outbox := farm.outbox.eraseIdx i }
  | .poolError => farm.scheduleNewPool
  | .poolExit p => { farm with pools := farm.pools.eraseIdx p }.scheduleNewPool
  | .pool p event => farm.stepPool pkg p event

/-- The farm after a run. -/
def runFarm (events : List FarmEvent) : Farm :=
  events.foldl (Farm.step pkg minerKey maxWorkers) {}

end Runs

/-! ## Where a solution comes from -/

/-- The work has been sent. -/
def Farm.Sent (farm : Farm) (data : WorkData) : Prop :=
  ∃ entry, (entry, data) ∈ farm.sent

/-- `startMining` has made the template and the work at once. -/
def Prepared (pkg : Packages) (entry : Unfinished) (data : WorkData) : Prop :=
  data.workId = entry.workId ∧
    ∃ currentTimestamp lastPreviousBlock currentBlocks block minerKey unfinishedBlock,
      prepareTemplate pkg data.workId currentTimestamp lastPreviousBlock currentBlocks block
        minerKey unfinishedBlock = .ok (entry.unfinishedBlock, data)

/-- The ledger is that of a run of the officer, whose messages are solutions of work that
has been sent. -/
structure Farm.Sound (pkg : Packages) (minerKey : String) (past : List MiningEvent)
    (farm : Farm) : Prop where
  ledger : farm.ledger = runMining pkg minerKey past
  heard : ∀ msg, .poolMessage (some msg) ∈ past → Forwarded pkg farm.Sent msg
  sent : ∀ entry data, (entry, data) ∈ farm.sent →
    entry ∈ farm.ledger.registered ∧ Prepared pkg entry data
  pools : ∀ pool ∈ farm.pools, pool.Carries pkg farm.Sent
  outbox : ∀ msg ∈ farm.outbox, Forwarded pkg farm.Sent msg

theorem startMining_prepared {pkg : Packages} {minerKey : String}
    {officer officer' : Officer} {inputs : MiningInputs} {entry : Unfinished}
    {update : WorkData}
    (h : officer.startMining pkg minerKey inputs = (officer', .ok (entry, update))) :
    Prepared pkg entry update := by
  unfold Officer.startMining at h
  split at h
  · cases h
  · next officer _ =>
      split at h
      · cases h
      · next newBlock data hprep =>
          cases h
          have hid : update.workId = inputs.workId := by
            obtain ⟨_, _, _, _, _, _, _, _, _, hdata⟩ := prepareTemplate_ok hprep
            rw [hdata]
          exact ⟨hid, _, _, _, _, _, _, hid ▸ hprep⟩

namespace Farm.Sound

variable {pkg : Packages} {minerKey : String} {past : List MiningEvent} {farm : Farm}

theorem start (pkg : Packages) (minerKey : String) : Sound pkg minerKey [] {} where
  ledger := rfl
  heard := fun _ h => nomatch h
  sent := fun _ _ h => nomatch h
  pools := List.forall_mem_nil _
  outbox := List.forall_mem_nil _

/-- Another process. -/
theorem fork (h : farm.Sound pkg minerKey past) {pool : Master}
    (hpool : pool.Carries pkg farm.Sent) :
    { farm with pools := farm.pools ++ [pool] : Farm }.Sound pkg minerKey past := by
  refine { h with pools := fun other hmem => ?_ }
  rcases List.mem_append.1 hmem with hold | hlast
  · exact h.pools other hold
  · exact List.mem_singleton.1 hlast ▸ hpool

theorem scheduleNewPool (h : farm.Sound pkg minerKey past) :
    farm.scheduleNewPool.Sound pkg minerKey past := h.fork (.start pkg _)

theorem sendMessage (h : farm.Sound pkg minerKey past) {msg : Request}
    (hmsg : ∀ data, msg = .work data → farm.Sent data) :
    (farm.sendMessage msg).Sound pkg minerKey past := by
  unfold Farm.sendMessage
  split
  · exact h.scheduleNewPool
  · next pool hlast =>
      refine { h with pools := fun other hmem => ?_ }
      rcases List.mem_append.1 hmem with hold | hnew
      · exact h.pools other (List.dropLast_subset _ hold)
      · rw [List.mem_singleton.1 hnew]
        exact (h.pools pool (List.mem_of_getLast? hlast)).send hmsg

/-- An event of the officer that brings no solution. -/
theorem officer (h : farm.Sound pkg minerKey past) {event : MiningEvent}
    (hevent : ∀ msg, event = .poolMessage (some msg) → Forwarded pkg farm.Sent msg) :
    { farm with ledger := farm.ledger.step pkg minerKey event : Farm }.Sound
      pkg minerKey (past ++ [event]) where
  ledger := by rw [runMining_snoc, ← h.ledger]
  heard msg hmsg := by
    rcases List.mem_append.1 hmsg with hold | hlast
    · exact h.heard msg hold
    · exact hevent msg (List.mem_singleton.1 hlast).symm
  sent entry data hmem := by
    obtain ⟨hregistered, hprepared⟩ := h.sent entry data hmem
    exact ⟨(Ledger.step_registered pkg minerKey farm.ledger event).subset hregistered,
      hprepared⟩
  pools := h.pools
  outbox := h.outbox

/-- More work has been sent. -/
theorem send (h : farm.Sound pkg minerKey past) {entry : Unfinished} {update : WorkData}
    (hentry : entry ∈ farm.ledger.registered) (hprepared : Prepared pkg entry update) :
    { farm with sent := farm.sent ++ [(entry, update)] : Farm }.Sound pkg minerKey past := by
  have hmore : ∀ data, farm.Sent data →
      Farm.Sent { farm with sent := farm.sent ++ [(entry, update)] } data :=
    fun data ⟨other, hmem⟩ => ⟨other, List.mem_append_left _ hmem⟩
  refine { h with heard := ?_, sent := ?_, pools := ?_, outbox := ?_ }
  · exact fun msg hmsg => (h.heard msg hmsg).mono hmore
  · intro other data hmem
    rcases List.mem_append.1 hmem with hold | hlast
    · exact h.sent other data hold
    · cases List.mem_singleton.1 hlast
      exact ⟨hentry, hprepared⟩
  · exact fun pool hmem => (h.pools pool hmem).mono hmore
  · exact fun msg hmsg => (h.outbox msg hmsg).mono hmore

theorem startMining (h : farm.Sound pkg minerKey past) (inputs : MiningInputs) :
    (farm.startMining pkg minerKey inputs).Sound pkg minerKey
      (past ++ [.startMining inputs]) := by
  have hofficer : { farm with
      ledger := farm.ledger.step pkg minerKey (.startMining inputs) : Farm }.Sound
        pkg minerKey (past ++ [.startMining inputs]) := h.officer fun msg hmsg => nomatch hmsg
  unfold Farm.startMining
  dsimp only
  split
  · exact hofficer
  · next officer' entry update hstart =>
      have hregistered :
          entry ∈ (farm.ledger.startMining pkg minerKey inputs).registered := by
        rw [Ledger.startMining, hstart]
        exact List.mem_append_right _ (List.mem_singleton_self _)
      refine (hofficer.send hregistered (startMining_prepared hstart)).sendMessage ?_
      rintro data ⟨⟩
      exact ⟨entry, List.mem_append_right _ (List.mem_singleton_self _)⟩

theorem stepPool (h : farm.Sound pkg minerKey past) (p : Nat) (event : MasterEvent) :
    (farm.stepPool pkg p event).Sound pkg minerKey past := by
  unfold Farm.stepPool
  split
  · exact h
  · next pool hp =>
      obtain ⟨hcarries, hmsg⟩ := step_carries (h.pools pool (List.mem_of_getElem? hp)) event
      refine { h with pools := fun other hmem => ?_, outbox := fun msg hmem => ?_ }
      · rcases List.mem_or_eq_of_mem_set hmem with hold | rfl
        · exact h.pools other hold
        · exact hcarries
      · rcases List.mem_append.1 hmem with hold | hnew
        · exact h.outbox msg hold
        · exact hmsg msg (Option.mem_toList.1 hnew)

/-- An event of the farm is at most one of the officer's. -/
theorem step (h : farm.Sound pkg minerKey past) (maxWorkers : Nat) (event : FarmEvent) :
    ∃ past', (farm.step pkg minerKey maxWorkers event).Sound pkg minerKey past' := by
  cases event with
  | allRise => exact ⟨past, h.fork ((Master.Carries.start pkg _).send nofun)⟩
  | startMining inputs => exact ⟨_, h.startMining inputs⟩
  | stopMining => exact ⟨past, h.sendMessage fun data hdata => nomatch hdata⟩
  | cleanUnfinishedBlock => exact ⟨_, h.officer fun msg hmsg => nomatch hmsg⟩
  | poolMessage i =>
      rw [Farm.step, Farm.handlePoolMessage]
      split
      · exact ⟨past, h⟩
      · next msg hi =>
          have hrest : { farm with outbox := farm.outbox.eraseIdx i : Farm }.Sound
              pkg minerKey past :=
            { h with outbox := fun _ hmem => h.outbox _ (List.mem_of_mem_eraseIdx hmem) }
          have hmsg := h.outbox msg (List.mem_of_getElem? hi)
          have hsolution : ∀ other, MiningEvent.poolMessage (some msg) =
              .poolMessage (some other) → Forwarded pkg farm.Sent other := by
            rintro other ⟨⟩
            exact hmsg
          exact ⟨_, hrest.officer hsolution⟩
  | lost i =>
      refine ⟨past, { h with outbox := fun msg hmem => ?_ }⟩
      exact h.outbox msg (List.mem_of_mem_eraseIdx hmem)
  | poolError => exact ⟨past, h.scheduleNewPool⟩
  | poolExit p =>
      have hrest : { farm with pools := farm.pools.eraseIdx p : Farm }.Sound
          pkg minerKey past :=
        { h with pools := fun pool hmem => h.pools pool (List.mem_of_mem_eraseIdx hmem) }
      exact ⟨past, hrest.scheduleNewPool⟩
  | pool p event => exact ⟨past, h.stepPool p event⟩

end Farm.Sound

theorem runFarm_sound (pkg : Packages) (minerKey : String) (maxWorkers : Nat)
    (events : List FarmEvent) :
    ∃ past, (runFarm pkg minerKey maxWorkers events).Sound pkg minerKey past := by
  refine foldl_invariant (I := fun farm => ∃ past, Farm.Sound pkg minerKey past farm)
    ?_ ?_ events
  · rintro farm event ⟨past, h⟩
    exact h.step maxWorkers event
  · exact ⟨[], .start pkg minerKey⟩

/-! ## What is published -/

/-- A solution of the work that goes with a template makes a block whose distance is
right, and above the difficulty that the thread has mined for. -/
theorem Prepared.distance {pkg : Packages} {entry : Unfinished} {data : WorkData}
    {solution : Solution} (h : Prepared pkg entry data)
    (hmined : MinedFrom pkg data solution) :
    isDistanceCorrectlyCalculated pkg
        (completeTemplate pkg entry.unfinishedBlock solution) = .ok true ∧
      pkg.bn solution.difficulty < pkg.bn solution.distance := by
  obtain ⟨-, _, _, _, _, _, _, hprep⟩ := h
  obtain ⟨tsStart, ticks, hmine⟩ := hmined
  obtain ⟨headers, _, root, difficulty, _, _, _, _, htemplate, hdata⟩ :=
    prepareTemplate_ok hprep
  have hsolves := mine_solves hmine
  constructor
  · rw [hdata] at hsolves
    rw [htemplate]
    simp only [isDistanceCorrectlyCalculated, completeTemplate, newTemplate,
      Protos.BcBlock.getBlockchainHeaders, bind, Except.bind, pure, Except.pure,
      hsolves.distance, beq_self_eq_true]
  · rw [hsolves.distance, Packages.bn_toString]
    exact hsolves.above

/-- The block comes of `entry` and of the work that was sent with it. -/
structure Genuine (pkg : Packages) (farm : Farm) (p : Publication) (entry : Unfinished)
    (data : WorkData) : Prop where
  sent : (entry, data) ∈ farm.sent
  /-- No other template goes by the id. -/
  registered : ∀ other ∈ farm.ledger.registered, other.workId = p.workId ↔ other = entry
  prepared : Prepared pkg entry data
  mined : MinedFrom pkg data p.solution
  block : p.unfinishedBlock = completeTemplate pkg entry.unfinishedBlock p.solution

/-- **What is published has been mined for.**  In every run with distinct work ids, each
id is published at most once; and each block published is the one template registered
under its id, completed with a solution that some thread has found in the work sent with
that template.  So its distance is right, and above the difficulty the thread has mined
for; and the thread has not found it within a millisecond. -/
theorem published_genuine (pkg : Packages) (minerKey : String) (maxWorkers : Nat)
    (events : List FarmEvent)
    (h : DistinctIds (runFarm pkg minerKey maxWorkers events).ledger) :
    let farm := runFarm pkg minerKey maxWorkers events
    (farm.ledger.published.map (·.workId)).Nodup ∧
    ∀ p ∈ farm.ledger.published,
      (∃ entry data, Genuine pkg farm p entry data) ∧
      isDistanceCorrectlyCalculated pkg p.unfinishedBlock = .ok true ∧
      pkg.bn p.solution.difficulty < pkg.bn p.unfinishedBlock.distance ∧
      p.solution.timeDiff ≠ 0 := by
  intro farm
  obtain ⟨past, hsound⟩ := runFarm_sound pkg minerKey maxWorkers events
  have hdistinct : DistinctIds (runMining pkg minerKey past) := hsound.ledger ▸ h
  have hbound := runMining_bound hdistinct
  rw [← hsound.ledger] at hbound
  refine ⟨?_, fun p hp => ?_⟩
  · have hqueue := queue_sound hdistinct
    rw [← hsound.ledger] at hqueue
    exact hqueue.taken_nodup.sublist hbound.ids
  · obtain ⟨workId, solution, hmsg, ⟨data, ⟨entry, hsent⟩, hid, hmined⟩, htime⟩ :=
      hsound.heard _ (hbound.message p hp)
    cases hmsg
    obtain ⟨hregistered, hprepared⟩ := hsound.sent entry data hsent
    have hentry : entry.workId = p.workId := hprepared.1.symm.trans hid
    obtain ⟨template, htemplate, hsame, hblock⟩ := hbound.template p hp
    have hone : template = entry :=
      h.eq_of_workId htemplate hregistered (hsame.trans hentry.symm)
    rw [hone] at hblock
    have hdistance := hprepared.distance hmined
    rw [← hblock] at hdistance
    have habove : pkg.bn p.solution.difficulty < pkg.bn p.unfinishedBlock.distance := by
      rw [hblock]
      exact hdistance.2
    refine ⟨⟨entry, data, hsent, fun other hother => ⟨fun hother' => ?_, ?_⟩, hprepared,
      hmined, hblock⟩, hdistance.1, habove, htime⟩
    · exact h.eq_of_workId hother hregistered (hother'.trans hentry.symm)
    · rintro rfl
      exact hentry

/-- One piece of work, from the start of the pool to the block. -/
def sampleFarmEvents : List FarmEvent :=
  [.allRise, .startMining (sampleInputs 0), .pool 0 .receive, .pool 0 .receive,
    .pool 0 (.resume 0),
    .pool 0 (.mined 0 1000000
      [{ now := 1000010, nowSeconds := 1000, random := 42, after := 1000012 }]),
    .pool 0 (.heard 0), .poolMessage 0]

theorem published_genuine_sample :
    (runFarm samplePackages "miner" 4 sampleFarmEvents).ledger.published.map (·.workId) =
      ["1@0"] ∧
    ∀ p ∈ (runFarm samplePackages "miner" 4 sampleFarmEvents).ledger.published,
      isDistanceCorrectlyCalculated samplePackages p.unfinishedBlock = .ok true := by
  have hdistinct :
      DistinctIds (runFarm samplePackages "miner" 4 sampleFarmEvents).ledger := by
    unfold DistinctIds
    decide +kernel
  obtain ⟨-, hgenuine⟩ := published_genuine samplePackages "miner" 4 sampleFarmEvents
    hdistinct
  exact ⟨by decide +kernel, fun p hp => (hgenuine p hp).2.1⟩

/-! ## How many threads there are -/

/-- In the process where something happens, handlers overlap no more than `overlap`
says. -/
def FarmOverlap (overlap : Nat) (farm : Farm) : FarmEvent → Prop
  | .pool p event => ∀ pool ∈ farm.pools[p]?, Overlap overlap pool event
  | _ => True

instance (overlap : Nat) (farm : Farm) (event : FarmEvent) :
    Decidable (FarmOverlap overlap farm event) := by
  unfold FarmOverlap
  split <;> infer_instance

/-- The threads there may be for one piece of work. -/
def threadLimit (maxWorkers : Nat) : Nat := max 2 (maxWorkers - 3)

section Threads

variable {pkg : Packages} {minerKey : String} {maxWorkers overlap : Nat} {farm : Farm}

/-- All processes have room. -/
def Farm.Crowd (limit overlap : Nat) (farm : Farm) : Prop :=
  ∀ pool ∈ farm.pools, pool.Crowd limit overlap

theorem Farm.Crowd.fork {limit : Nat} (h : farm.Crowd limit overlap) {pool : Master}
    (hpool : pool.Crowd limit overlap) :
    ∀ other ∈ farm.pools ++ [pool], other.Crowd limit overlap :=
  List.forall_mem_append.2 ⟨h, List.forall_mem_singleton.2 hpool⟩

theorem Farm.Crowd.sendMessage {limit : Nat} (h : farm.Crowd limit overlap)
    (htwo : 2 ≤ limit) {msg : Request} (hmsg : ∀ n, msg ≠ .config n) :
    (farm.sendMessage msg).Crowd limit overlap := by
  unfold Farm.sendMessage
  split
  · exact h.fork (.start htwo)
  · next pool hlast =>
      refine List.forall_mem_append.2 ⟨fun other hmem => ?_, ?_⟩
      · exact h other (List.dropLast_subset _ hmem)
      · rw [List.forall_mem_singleton]
        refine (h pool (List.mem_of_getLast? hlast)).send fun n hn => ?_
        exact absurd hn (hmsg n)

theorem Farm.Crowd.step (h : farm.Crowd (threadLimit maxWorkers) overlap)
    {event : FarmEvent} (hoverlap : FarmOverlap overlap farm event) :
    (farm.step pkg minerKey maxWorkers event).Crowd (threadLimit maxWorkers) overlap := by
  have htwo : 2 ≤ threadLimit maxWorkers := Nat.le_max_left ..
  cases event with
  | allRise =>
      refine h.fork ((Master.Crowd.start htwo).send fun n hn => ?_)
      cases hn
      exact Nat.le_max_right ..
  | startMining inputs =>
      rw [Farm.step, Farm.startMining]
      split
      · exact h
      · refine Farm.Crowd.sendMessage ?_ htwo fun n hn => nomatch hn
        exact h
  | stopMining => exact h.sendMessage htwo nofun
  | cleanUnfinishedBlock => exact h
  | poolMessage i =>
      rw [Farm.step, Farm.handlePoolMessage]
      split <;> exact h
  | lost i => exact h
  | poolError => exact h.fork (.start htwo)
  | poolExit p =>
      have hrest : ∀ pool ∈ farm.pools.eraseIdx p,
          pool.Crowd (threadLimit maxWorkers) overlap :=
        fun pool hmem => h pool (List.mem_of_mem_eraseIdx hmem)
      exact List.forall_mem_append.2 ⟨hrest, List.forall_mem_singleton.2 (.start htwo)⟩
  | pool p event =>
      rw [Farm.step, Farm.stepPool]
      split
      · exact h
      · next pool hp =>
          intro other hmem
          rcases List.mem_or_eq_of_mem_set hmem with hold | rfl
          · exact h other hold
          · exact step_crowd (h pool (List.mem_of_getElem? hp)) pkg (hoverlap pool hp)

/-- **How many threads there are.**  As long as no handler of a piece of work gets to its
loop while more than `overlap` others are in theirs, no process has more threads than it
may have for one piece of work, and one less for each of the others. -/
theorem threads_le {events : List FarmEvent}
    (h : Along (Farm.step pkg minerKey maxWorkers) (FarmOverlap overlap) {} events) :
    ∀ pool ∈ (runFarm pkg minerKey maxWorkers events).pools,
      pool.threads.length ≤
        threadLimit maxWorkers + overlap * (threadLimit maxWorkers - 1) := by
  have hcrowd : (runFarm pkg minerKey maxWorkers events).Crowd
      (threadLimit maxWorkers) overlap :=
    h.invariant (fun _ _ h hoverlap => h.step hoverlap) (List.forall_mem_nil _)
  intro pool hmem
  exact Nat.le_trans (Nat.le_add_right ..) (hcrowd pool hmem).bound

end Threads

/-- Two pieces of work, and the second handler starts while the first is forking. -/
def sampleOverlap : List FarmEvent :=
  [.allRise, .startMining (sampleInputs 0), .startMining (sampleInputs 1),
    .pool 0 .receive, .pool 0 .receive, .pool 0 .receive, .pool 0 (.resume 0),
    .pool 0 (.resume 1), .pool 0 (.resume 0)]

/-- There is a third thread then, where two may be. -/
theorem threads_le_sample :
    threadLimit 4 = 2 ∧
    (runFarm samplePackages "miner" 4 sampleOverlap).pools.map (·.threads.length) = [3] ∧
    ∀ pool ∈ (runFarm samplePackages "miner" 4 sampleOverlap).pools,
      pool.threads.length ≤ threadLimit 4 + 1 * (threadLimit 4 - 1) :=
  ⟨rfl, by decide +kernel, threads_le (by decide +kernel)⟩

end BcNode.Mining.WorkerPool
