import BcNode.Mining.Agreement
import BcNode.Verified.BoundedQueue
import BcNode.Verified.Run

/-!
# Work ids

`startMining` registers each template in `_unfinished` under a work id, the worker
pool answers with solutions that carry the id, and `_handleWorkerFinishedMessage`
takes the template out again, completes and publishes it.  Results may come late,
twice, or for a template that has been replaced in the meantime.

`_unfinished` is a `BoundedQueue` of 50 templates.  `MiningEvent` are the calls, in
any order; `Ledger` is the officer together with what it has registered, consumed
and published so far.  `workIds_bind` puts together what the queue gives: an id is
published at most once, with the template registered under it, and a solution finds
its template as long as the id has stayed among the 50 most recent unconsumed ones.
-/

namespace BcNode.Mining

open BcNode.Verified BcNode.Js BcNode.Protos BcNode.Bc

/-! ## `startMining` once its reads are done -/

/-- `getBlockchainsBlocksCount`. -/
def getBlockchainsBlocksCount (block : BcBlock) : Except JsError Nat := do
  let headers ← block.getBlockchainHeaders
  return headers.lists.foldl (fun acc headersList => acc + headersList.length) 0

/-- What `startMining` has read when it comes to prepare a template. -/
structure MiningInputs where
  currentTimestamp : Nat
  /-- `crypto.randomBytes(16).toString('hex')`. -/
  randomHex : String
  lastPreviousBlock : BcBlock
  currentBlocks : List Block
  /-- The block that triggered mining. -/
  block : Block
  deriving DecidableEq, Repr

/-- `workId` of `startMining`. -/
def MiningInputs.workId (inputs : MiningInputs) : String :=
  toString inputs.lastPreviousBlock.height ++ "@" ++ inputs.randomHex

/-- `_cleanUnfinishedBlock`. -/
def Officer.cleanUnfinishedBlock (officer : Officer) : Officer :=
  { officer with unfinishedBlock := none }

/-- A cached template of six or more headers is not built upon. -/
def Officer.dropWideTemplate (officer : Officer) : Except JsError Officer :=
  match officer.unfinishedBlock with
  | none => .ok officer
  | some unfinishedBlock => do
      let count ← getBlockchainsBlocksCount unfinishedBlock
      if count ≥ 6 then return officer.cleanUnfinishedBlock
      return officer

/-- `startMining` from there on: the template it registers, and the message to the
workers.  It has no `await` left, so nothing comes in between. -/
def Officer.startMining (pkg : Packages) (minerKey : String) (officer : Officer)
    (inputs : MiningInputs) : Officer × Except JsError (Unfinished × WorkData) :=
  match officer.dropWideTemplate with
  | .error e => (officer, .error e)
  | .ok officer =>
      match prepareTemplate pkg inputs.workId inputs.currentTimestamp
        inputs.lastPreviousBlock inputs.currentBlocks inputs.block minerKey
        officer.unfinishedBlock with
      | .error e => (officer, .error e)
      | .ok (newBlock, update) =>
          let entry : Unfinished := ⟨inputs.workId, newBlock⟩
          let unfinished := officer.unfinished ++ [entry]
          ({ unfinishedBlock := some newBlock
             unfinished := if unfinished.length > 50 then unfinished.tail else unfinished },
            .ok (entry, update))

/-! ## Messages of the worker pool -/

/-- A message as it comes from the pool's process. -/
structure PoolMessage where
  type : String
  data : Option Solution
  workId : Option String
  deriving DecidableEq, Repr

/-- `_handlePoolMessage`: what is emitted under `mined`. -/
def handlePoolMessage : Option PoolMessage → Option (String × Solution)
  | none => none
  | some msg =>
      if msg.type = "solution" then
        match msg.data, msg.workId with
        | some data, some workId => some (workId, data)
        | _, _ => none
      else none

/-! ## Runs of the officer -/

/-- What the officer publishes under `miner.block.new`. -/
structure Publication where
  workId : String
  unfinishedBlock : BcBlock
  solution : Solution
  deriving DecidableEq, Repr

/-- What happens to the officer. -/
inductive MiningEvent where
  | startMining (inputs : MiningInputs)
  | poolMessage (msg : Option PoolMessage)
  /-- `stop`, or the end of a mining process. -/
  | cleanUnfinishedBlock
  deriving DecidableEq, Repr

/-- The officer, with every template it has registered, every work id whose
solution found its template, and everything it has published. -/
structure Ledger where
  officer : Officer := {}
  registered : List Unfinished := []
  consumed : List String := []
  published : List Publication := []
  deriving DecidableEq, Repr

/-- A call of `startMining`. -/
def Ledger.startMining (pkg : Packages) (minerKey : String) (ledger : Ledger)
    (inputs : MiningInputs) : Ledger :=
  match ledger.officer.startMining pkg minerKey inputs with
  | (officer, .error _) => { ledger with officer }
  | (officer, .ok (entry, _)) =>
      { ledger with officer, registered := ledger.registered ++ [entry] }

/-- A solution that the pool forwards. -/
def Ledger.solve (pkg : Packages) (ledger : Ledger) (workId : String)
    (solution : Solution) : Ledger :=
  match ledger.officer.handleWorkerFinishedMessage pkg workId solution with
  | (officer, result) =>
      { ledger with
        officer
        consumed :=
          if workId ∈ ledger.officer.unfinished.map (·.workId) then
            ledger.consumed ++ [workId]
          else ledger.consumed
        published :=
          match result with
          | .ok (some unfinishedBlock) =>
              ledger.published ++ [⟨workId, unfinishedBlock, solution⟩]
          | _ => ledger.published }

def Ledger.step (pkg : Packages) (minerKey : String) (ledger : Ledger) :
    MiningEvent → Ledger
  | .startMining inputs => ledger.startMining pkg minerKey inputs
  | .poolMessage msg =>
      match handlePoolMessage msg with
      | none => ledger
      | some (workId, solution) => ledger.solve pkg workId solution
  | .cleanUnfinishedBlock =>
      { ledger with officer := ledger.officer.cleanUnfinishedBlock }

/-- The ledger after a run. -/
def runMining (pkg : Packages) (minerKey : String) (events : List MiningEvent) : Ledger :=
  events.foldl (Ledger.step pkg minerKey) {}

/-- The templates registered and not consumed, the 50 most recent of them. -/
def Ledger.recentUnconsumed (ledger : Ledger) : List Unfinished :=
  BoundedQueue.lastN 50 (ledger.registered.filter (·.workId ∉ ledger.consumed))

/-! ## The officer's queue -/

/-- The ledger as a queue of templates. -/
def Ledger.queue (ledger : Ledger) : BoundedQueue.History String Unfinished where
  kept := ledger.officer.unfinished
  pushed := ledger.registered
  taken := ledger.consumed

theorem Ledger.recentUnconsumed_eq (ledger : Ledger) :
    ledger.recentUnconsumed = ledger.queue.recent (·.workId) 50 := rfl

theorem Officer.dropWideTemplate_unfinished {officer officer' : Officer}
    (h : officer.dropWideTemplate = .ok officer') :
    officer'.unfinished = officer.unfinished := by
  unfold Officer.dropWideTemplate at h
  split at h
  · cases h
    rfl
  · obtain ⟨count, _, hcount⟩ := bind_ok.1 h
    split at hcount <;> cases hcount <;> rfl

/-- `startMining` throws and leaves `_unfinished` as it was, or registers one
template. -/
theorem Officer.startMining_cases (pkg : Packages) (minerKey : String) (officer : Officer)
    (inputs : MiningInputs) :
    (∃ officer' e, officer.startMining pkg minerKey inputs = (officer', .error e) ∧
      officer'.unfinished = officer.unfinished) ∨
    ∃ newBlock update, officer.startMining pkg minerKey inputs =
      ({ unfinishedBlock := some newBlock
         unfinished := BoundedQueue.fit 50
          (officer.unfinished ++ [⟨inputs.workId, newBlock⟩]) },
        .ok (⟨inputs.workId, newBlock⟩, update)) := by
  unfold Officer.startMining
  cases hdrop : officer.dropWideTemplate with
  | error e => exact Or.inl ⟨officer, e, rfl, rfl⟩
  | ok officer' =>
      have hsame := Officer.dropWideTemplate_unfinished hdrop
      dsimp only
      split
      · next e _ => exact Or.inl ⟨officer', e, rfl, hsame⟩
      · next newBlock update _ =>
          right
          refine ⟨newBlock, update, ?_⟩
          rw [← hsame]
          rfl

/-- A solution takes out whatever is registered under its id. -/
theorem Officer.handleWorkerFinishedMessage_unfinished (pkg : Packages) (officer : Officer)
    (workId : String) (solution : Solution) :
    (officer.handleWorkerFinishedMessage pkg workId solution).1.unfinished =
      officer.unfinished.filter (·.workId ≠ workId) := by
  unfold Officer.handleWorkerFinishedMessage
  split
  · next hnone =>
      rw [List.filter_eq_nil_iff] at hnone
      exact (List.filter_eq_self.2 (by simpa using hnone)).symm
  · dsimp only
    split <;> rfl

theorem Ledger.registered_startMining (pkg : Packages) (minerKey : String) (ledger : Ledger)
    (inputs : MiningInputs) :
    (ledger.startMining pkg minerKey inputs).queue = ledger.queue ∨
    ∃ entry, (ledger.startMining pkg minerKey inputs).queue =
      { ledger.queue with
        kept := BoundedQueue.fit 50 (ledger.queue.kept ++ [entry])
        pushed := ledger.queue.pushed ++ [entry] } := by
  unfold Ledger.startMining
  rcases ledger.officer.startMining_cases pkg minerKey inputs with
    ⟨officer', e, heq, hsame⟩ | ⟨newBlock, update, heq⟩
  · left
    rw [heq]
    simp only [Ledger.queue, hsame]
  · right
    rw [heq]
    exact ⟨⟨inputs.workId, newBlock⟩, rfl⟩

/-- Every event of the officer is one operation of its queue, as long as work ids
are not used twice. -/
theorem Ledger.step_queue (pkg : Packages) (minerKey : String) (ledger : Ledger)
    (event : MiningEvent)
    (hdistinct : ((ledger.step pkg minerKey event).registered.map (·.workId)).Nodup) :
    BoundedQueue.Step (fun entry : Unfinished => entry.workId) 50 ledger.queue
      (ledger.step pkg minerKey event).queue := by
  cases event with
  | startMining inputs =>
      rcases ledger.registered_startMining pkg minerKey inputs with hsame | ⟨entry, heq⟩
      · rw [Ledger.step, hsame]
        exact .idle _
      · have hpushed : (ledger.startMining pkg minerKey inputs).registered =
            ledger.registered ++ [entry] :=
          congrArg (fun q : BoundedQueue.History String Unfinished => q.pushed) heq
        rw [Ledger.step, hpushed, List.map_append, List.nodup_append] at hdistinct
        rw [Ledger.step, heq]
        refine .push _ entry fun hmem => ?_
        exact hdistinct.2.2 _ hmem _ (List.mem_singleton_self _) rfl
  | poolMessage msg =>
      rw [Ledger.step]
      cases hmsg : handlePoolMessage msg with
      | none => exact .idle _
      | some forwarded =>
          obtain ⟨workId, solution⟩ := forwarded
          have hkept := ledger.officer.handleWorkerFinishedMessage_unfinished pkg workId
            solution
          have hqueue : (ledger.solve pkg workId solution).queue =
              { kept := ledger.officer.unfinished.filter (·.workId ≠ workId)
                pushed := ledger.registered
                taken := if workId ∈ ledger.officer.unfinished.map (·.workId) then
                    ledger.consumed ++ [workId]
                  else ledger.consumed } := by
            rw [← hkept]
            rfl
          show BoundedQueue.Step _ 50 ledger.queue (ledger.solve pkg workId solution).queue
          rw [hqueue]
          split
          · next hfound => exact .take ledger.queue workId hfound
          · next hmissing =>
              have hsame : ledger.officer.unfinished.filter (·.workId ≠ workId) =
                  ledger.officer.unfinished := by
                rw [List.filter_eq_self]
                intro entry hentry
                have hne : entry.workId ≠ workId :=
                  fun heq => hmissing (heq ▸ List.mem_map_of_mem hentry)
                simpa using hne
              rw [hsame]
              exact .idle _
  | cleanUnfinishedBlock => exact .idle _

/-! ## Runs and their prefixes -/

theorem runMining_snoc (pkg : Packages) (minerKey : String) (events : List MiningEvent)
    (event : MiningEvent) :
    runMining pkg minerKey (events ++ [event]) =
      (runMining pkg minerKey events).step pkg minerKey event := by
  rw [runMining, List.foldl_append]
  rfl

/-- A template stays registered. -/
theorem Ledger.step_registered (pkg : Packages) (minerKey : String) (ledger : Ledger)
    (event : MiningEvent) :
    ledger.registered <+: (ledger.step pkg minerKey event).registered := by
  cases event with
  | startMining inputs =>
      rw [Ledger.step, Ledger.startMining]
      split
      · exact List.prefix_refl _
      · exact List.prefix_append _ _
  | poolMessage msg =>
      rw [Ledger.step]
      split <;> exact List.prefix_refl _
  | cleanUnfinishedBlock => exact List.prefix_refl _

theorem registered_append (pkg : Packages) (minerKey : String)
    (events later : List MiningEvent) :
    (runMining pkg minerKey events).registered <+:
      (runMining pkg minerKey (events ++ later)).registered := by
  induction later using List.reverseRecOn with
  | nil => rw [List.append_nil]
  | append_singleton later event ih =>
      rw [← List.append_assoc, runMining_snoc]
      exact ih.trans (Ledger.step_registered pkg minerKey _ event)

/-- The work ids of a run are distinct. -/
def DistinctIds (ledger : Ledger) : Prop :=
  (ledger.registered.map (·.workId)).Nodup

theorem DistinctIds.of_append {pkg : Packages} {minerKey : String}
    {events later : List MiningEvent}
    (h : DistinctIds (runMining pkg minerKey (events ++ later))) :
    DistinctIds (runMining pkg minerKey events) :=
  h.sublist ((registered_append pkg minerKey events later).sublist.map _)

/-- The officer's queue goes through a run of the library. -/
theorem queue_run {pkg : Packages} {minerKey : String} {events : List MiningEvent}
    (h : DistinctIds (runMining pkg minerKey events)) :
    BoundedQueue.Run (fun entry : Unfinished => entry.workId) 50
      fun n => (runMining pkg minerKey (events.take n)).queue where
  start := rfl
  next n := by
    rcases Nat.lt_or_ge n events.length with hn | hn
    · have htake : events.take (n + 1) = events.take n ++ [events[n]] := by
        rw [List.take_add_one, List.getElem?_eq_getElem hn, Option.toList_some]
      rw [← List.take_append_drop (n + 1) events] at h
      have hdistinct := h.of_append
      rw [htake, runMining_snoc] at hdistinct ⊢
      exact Ledger.step_queue pkg minerKey _ _ hdistinct
    · rw [List.take_of_length_le hn, List.take_of_length_le (Nat.le_succ_of_le hn)]
      exact .idle _

/-! ## What is published -/

/-- What holds of everything published, in a run that has come to `events`. -/
structure Ledger.Bound (pkg : Packages) (events : List MiningEvent) (ledger : Ledger) :
    Prop where
  /-- Each publication goes with a template that was taken. -/
  ids : (ledger.published.map (·.workId)).Sublist ledger.consumed
  template : ∀ p ∈ ledger.published, ∃ entry ∈ ledger.registered,
    entry.workId = p.workId ∧
    p.unfinishedBlock = completeTemplate pkg entry.unfinishedBlock p.solution
  message : ∀ p ∈ ledger.published,
    .poolMessage (some ⟨"solution", some p.solution, some p.workId⟩) ∈ events

/-- The pool forwards solutions, with their work id. -/
theorem handlePoolMessage_some {msg : Option PoolMessage} {workId : String}
    {solution : Solution} (h : handlePoolMessage msg = some (workId, solution)) :
    msg = some ⟨"solution", some solution, some workId⟩ := by
  unfold handlePoolMessage at h
  split at h
  · cases h
  · next msg =>
      split at h
      · next htype =>
          split at h
          · next data hworkId hdata hid =>
              cases h
              obtain ⟨type, data, workId⟩ := msg
              cases htype
              cases hdata
              cases hid
              rfl
          · cases h
      · cases h

/-- A solution publishes nothing, or one template that was still there. -/
theorem Ledger.solve_published (pkg : Packages) (ledger : Ledger) (workId : String)
    (solution : Solution) :
    (ledger.solve pkg workId solution).published = ledger.published ∨
    ∃ entry ∈ ledger.officer.unfinished, entry.workId = workId ∧
      (ledger.solve pkg workId solution).published = ledger.published ++
        [⟨workId, completeTemplate pkg entry.unfinishedBlock solution, solution⟩] := by
  unfold Ledger.solve
  rcases hsolve : ledger.officer.handleWorkerFinishedMessage pkg workId solution with
    ⟨officer', result⟩
  dsimp only
  split
  · next unfinishedBlock =>
      obtain ⟨entry, hmem, hid, rfl, _⟩ := Officer.published_eq hsolve
      exact Or.inr ⟨entry, hmem, hid, rfl⟩
  · exact Or.inl rfl

/-- A solution consumes its id if its template is still there. -/
theorem Ledger.solve_consumed (pkg : Packages) (ledger : Ledger) (workId : String)
    (solution : Solution) :
    (ledger.solve pkg workId solution).consumed =
      if workId ∈ ledger.officer.unfinished.map (·.workId) then
        ledger.consumed ++ [workId]
      else ledger.consumed := rfl

/-- What publishes nothing leaves everything published as it was. -/
theorem Ledger.Bound.mono {pkg : Packages} {events : List MiningEvent}
    {ledger ledger' : Ledger} (h : ledger.Bound pkg events)
    (hpublished : ledger'.published = ledger.published)
    (hregistered : ledger.registered ⊆ ledger'.registered)
    (hconsumed : ledger.consumed.Sublist ledger'.consumed) (event : MiningEvent) :
    ledger'.Bound pkg (events ++ [event]) := by
  refine ⟨?_, ?_, ?_⟩
  · rw [hpublished]
    exact h.ids.trans hconsumed
  · rw [hpublished]
    intro p hp
    obtain ⟨entry, hmem, hentry⟩ := h.template p hp
    exact ⟨entry, hregistered hmem, hentry⟩
  · rw [hpublished]
    exact fun p hp => List.mem_append_left _ (h.message p hp)

/-- A template that is published is taken with its solution. -/
theorem Ledger.Bound.publish {pkg : Packages} {events : List MiningEvent} {ledger : Ledger}
    (h : ledger.Bound pkg events) {entry : Unfinished} {solution : Solution}
    (hkept : entry ∈ ledger.officer.unfinished) (hregistered : entry ∈ ledger.registered)
    (hpublished : (ledger.solve pkg entry.workId solution).published = ledger.published ++
      [⟨entry.workId, completeTemplate pkg entry.unfinishedBlock solution, solution⟩]) :
    (ledger.solve pkg entry.workId solution).Bound pkg
      (events ++ [.poolMessage (some ⟨"solution", some solution, some entry.workId⟩)]) := by
  refine ⟨?_, ?_, ?_⟩
  · rw [hpublished, Ledger.solve_consumed, if_pos (List.mem_map_of_mem hkept),
      List.map_append]
    exact h.ids.append (List.Sublist.refl _)
  · rw [hpublished]
    intro p hp
    rcases List.mem_append.1 hp with hold | hlast
    · exact h.template p hold
    · cases List.mem_singleton.1 hlast
      exact ⟨entry, hregistered, rfl, rfl⟩
  · rw [hpublished]
    intro p hp
    rcases List.mem_append.1 hp with hold | hlast
    · exact List.mem_append_left _ (h.message p hold)
    · cases List.mem_singleton.1 hlast
      exact List.mem_append_right _ (List.mem_singleton_self _)

theorem Ledger.Bound.step {pkg : Packages} {events : List MiningEvent} {ledger : Ledger}
    (h : ledger.Bound pkg events) (minerKey : String)
    (hkept : ∀ entry ∈ ledger.officer.unfinished, entry ∈ ledger.registered)
    (event : MiningEvent) :
    (ledger.step pkg minerKey event).Bound pkg (events ++ [event]) := by
  have hregistered := (ledger.step_registered pkg minerKey event).subset
  cases event with
  | startMining inputs =>
      rw [Ledger.step] at hregistered ⊢
      refine h.mono ?_ hregistered ?_ _
      · unfold Ledger.startMining
        split <;> rfl
      · unfold Ledger.startMining
        split <;> exact List.Sublist.refl _
  | poolMessage msg =>
      rw [Ledger.step]
      cases hmsg : handlePoolMessage msg with
      | none => exact h.mono rfl (List.Subset.refl _) (List.Sublist.refl _) _
      | some forwarded =>
          obtain ⟨workId, solution⟩ := forwarded
          cases handlePoolMessage_some hmsg
          show (ledger.solve pkg workId solution).Bound pkg _
          rcases ledger.solve_published pkg workId solution with
            hnone | ⟨entry, hmem, rfl, hsome⟩
          · refine h.mono hnone (List.Subset.refl _) ?_ _
            rw [Ledger.solve_consumed]
            split
            · exact List.sublist_append_left _ _
            · exact List.Sublist.refl _
          · exact h.publish hmem (hkept entry hmem) hsome
  | cleanUnfinishedBlock =>
      refine h.mono ?_ hregistered ?_ _
      · rfl
      · exact List.Sublist.refl _

/-- The state of the queue after a run. -/
theorem queue_sound {pkg : Packages} {minerKey : String} {events : List MiningEvent}
    (h : DistinctIds (runMining pkg minerKey events)) :
    BoundedQueue.Sound (fun entry : Unfinished => entry.workId) 50
      (runMining pkg minerKey events).queue := by
  have hsound := (queue_run h).sound events.length
  rwa [List.take_length] at hsound

theorem runMining_bound {pkg : Packages} {minerKey : String} {events : List MiningEvent}
    (h : DistinctIds (runMining pkg minerKey events)) :
    (runMining pkg minerKey events).Bound pkg events := by
  induction events using List.reverseRecOn with
  | nil => exact ⟨List.Sublist.refl _, by simp [runMining], by simp [runMining]⟩
  | append_singleton events event ih =>
      have hbefore := h.of_append
      rw [runMining_snoc]
      refine (ih hbefore).step minerKey ?_ event
      intro entry hentry
      exact (BoundedQueue.History.mem_outstanding.1
        ((queue_sound hbefore).suffix.subset hentry)).1

/-! ## Work ids bind -/

/-- `_handleWorkerFinishedMessage` finds nothing to use a solution for. -/
def Officer.drops (officer : Officer) (workId : String) : Prop :=
  officer.unfinished.filter (·.workId = workId) = []

instance (officer : Officer) (workId : String) : Decidable (officer.drops workId) :=
  inferInstanceAs (Decidable (_ = _))

theorem Officer.not_drops_iff {officer : Officer} {workId : String} :
    ¬ officer.drops workId ↔ ∃ entry ∈ officer.unfinished, entry.workId = workId := by
  simp [Officer.drops, List.filter_eq_nil_iff]

/-- Two templates registered under one id are the same one. -/
theorem DistinctIds.eq_of_workId {ledger : Ledger} (h : DistinctIds ledger)
    {entry entry' : Unfinished} (hentry : entry ∈ ledger.registered)
    (hentry' : entry' ∈ ledger.registered) (hid : entry.workId = entry'.workId) :
    entry = entry' :=
  List.inj_on_of_nodup_map h hentry hentry' hid

/-- A template that is registered and not consumed is dropped exactly if it is no
longer in the queue. -/
theorem not_drops_iff_kept {pkg : Packages} {minerKey : String} {events : List MiningEvent}
    (h : DistinctIds (runMining pkg minerKey events)) {entry : Unfinished}
    (hentry : entry ∈ (runMining pkg minerKey events).registered) :
    ¬ (runMining pkg minerKey events).officer.drops entry.workId ↔
      entry ∈ (runMining pkg minerKey events).officer.unfinished := by
  rw [Officer.not_drops_iff]
  constructor
  · rintro ⟨other, hother, hid⟩
    have hregistered := (BoundedQueue.History.mem_outstanding.1
      ((queue_sound h).suffix.subset hother)).1
    rwa [h.eq_of_workId hentry hregistered hid.symm]
  · exact fun hkept => ⟨entry, hkept, rfl⟩

/-- **Work ids bind.**  After any run with distinct work ids, each id has been
published at most once; what was published is the one template registered under the
id, completed with a solution the pool sent for it; and the officer has a template
that is registered and not consumed exactly if, at every point of the run since it
was registered, it has been among the 50 most recent of these. -/
theorem workIds_bind (pkg : Packages) (minerKey : String) (events : List MiningEvent)
    (h : DistinctIds (runMining pkg minerKey events)) :
    let ledger := runMining pkg minerKey events
    (ledger.published.map (·.workId)).Nodup ∧
    (∀ p ∈ ledger.published,
      .poolMessage (some ⟨"solution", some p.solution, some p.workId⟩) ∈ events ∧
      ∃ entry, (∀ other ∈ ledger.registered, other.workId = p.workId ↔ other = entry) ∧
        entry ∈ ledger.registered ∧
        p.unfinishedBlock = completeTemplate pkg entry.unfinishedBlock p.solution) ∧
    ∀ entry ∈ ledger.registered, entry.workId ∉ ledger.consumed →
      (¬ ledger.officer.drops entry.workId ↔
        ∀ n ≤ events.length,
          entry ∈ (runMining pkg minerKey (events.take n)).registered →
          entry ∈ (runMining pkg minerKey (events.take n)).recentUnconsumed) := by
  have hbound := runMining_bound h
  refine ⟨(queue_sound h).taken_nodup.sublist hbound.ids, ?_, ?_⟩
  · intro p hp
    obtain ⟨entry, hmem, hid, hblock⟩ := hbound.template p hp
    refine ⟨hbound.message p hp, entry, fun other hother => ⟨?_, ?_⟩, hmem, hblock⟩
    · exact fun heq => h.eq_of_workId hother hmem (heq.trans hid.symm)
    · rintro rfl
      exact hid
  · intro entry hentry hunconsumed
    rw [not_drops_iff_kept h hentry]
    have hiff := (queue_run h).mem_kept_iff events.length (a := entry)
    rw [List.take_length] at hiff
    simp only [Ledger.recentUnconsumed_eq]
    exact hiff (BoundedQueue.History.mem_outstanding.2 ⟨hentry, hunconsumed⟩)

/-- The `n`-th call of `startMining`, on top of the genesis block. -/
def sampleInputs (n : Nat) : MiningInputs where
  currentTimestamp := 1000
  randomHex := toString n
  lastPreviousBlock := getGenesisBlock
  currentBlocks := []
  block := sampleChild .wav 1000000 11

def sampleMessage (workId : String) : MiningEvent :=
  .poolMessage (some ⟨"solution", some sampleSolution, some workId⟩)

/-- Two templates, and the solution of the first one twice. -/
def sampleMining : List MiningEvent :=
  [.startMining (sampleInputs 0), .startMining (sampleInputs 1), sampleMessage "1@0",
    sampleMessage "1@0"]

theorem workIds_bind_sample :
    ((runMining samplePackages "miner" sampleMining).published.map (·.workId)).Nodup ∧
    (runMining samplePackages "miner" sampleMining).published.map (·.workId) = ["1@0"] ∧
    ¬ (runMining samplePackages "miner" sampleMining).officer.drops "1@1" := by
  have hdistinct : DistinctIds (runMining samplePackages "miner" sampleMining) := by
    unfold DistinctIds
    decide +kernel
  obtain ⟨hnodup, -, hkept⟩ := workIds_bind samplePackages "miner" sampleMining hdistinct
  have hlast : ∃ entry ∈ (runMining samplePackages "miner" sampleMining).registered,
      entry.workId = "1@1" ∧
      entry.workId ∉ (runMining samplePackages "miner" sampleMining).consumed ∧
      ∀ n ≤ sampleMining.length,
        entry ∈ (runMining samplePackages "miner" (sampleMining.take n)).registered →
        entry ∈ (runMining samplePackages "miner"
          (sampleMining.take n)).recentUnconsumed := by
    decide +kernel
  obtain ⟨entry, hmem, hid, hunconsumed, hrecent⟩ := hlast
  exact ⟨hnodup, by decide +kernel, hid ▸ (hkept entry hmem hunconsumed).2 hrecent⟩

/-- 51 templates, the first of which the queue has dropped, and the solution of the
last one. -/
def sampleOverflow : List MiningEvent :=
  (List.range 51).map (fun n => .startMining (sampleInputs n)) ++ [sampleMessage "1@50"]

/-- To be recent in the end is not enough: of 51 templates the first is dropped, and
once the last is consumed, the first is among the 50 most recent of the rest. -/
theorem recentUnconsumed_dropped :
    ¬ ∀ (pkg : Packages) (minerKey : String) (events : List MiningEvent),
      DistinctIds (runMining pkg minerKey events) →
      ∀ entry ∈ (runMining pkg minerKey events).recentUnconsumed,
        ¬ (runMining pkg minerKey events).officer.drops entry.workId := by
  intro hall
  have hdistinct : DistinctIds (runMining samplePackages "miner" sampleOverflow) := by
    unfold DistinctIds
    decide +kernel
  have hdropped :
      ∃ entry ∈ (runMining samplePackages "miner" sampleOverflow).recentUnconsumed,
        (runMining samplePackages "miner" sampleOverflow).officer.drops entry.workId := by
    decide +kernel
  obtain ⟨entry, hrecent, hdrops⟩ := hdropped
  exact hall samplePackages "miner" sampleOverflow hdistinct entry hrecent hdrops

end BcNode.Mining
