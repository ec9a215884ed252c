import BcNode.Engine.Commit
import BcNode.Mining.StartMining
import BcNode.Rpc.CollectBlock

/-!
# Child heights from block to template

The officer shares the store with the rovers and with `updateLatestAndStore`, and
every await of `startMining` lets them in.  `World` is what they work on, `Process`
who they are.  `heights_kept_iff` says for every template of every interleaving
whether its chains have kept the heights of the latest block it is built on.
-/

namespace BcNode.Mining

open BcNode.Verified BcNode.Js BcNode.Protos BcNode.Bc BcNode.Persistence

/-! ## Everybody else -/

theorem KeepsKeys.put {key : Key} {value : Value}
    (hvalue : ∀ chain height, key = .block (.child chain) (.height height) →
      value.getBlockchain = .ok chain.name ∧ value.getHeight = .ok height) (s : Store) :
    KeepsKeys s (s.set key value) := by
  intro hs chain height stored hstored
  by_cases hkey : key = .block (.child chain) (.height height)
  · subst hkey
    rw [Store.set_self] at hstored
    cases hstored
    exact hvalue chain height rfl
  · rw [Store.set_ne _ (Ne.symm hkey)] at hstored
    exact hs chain height stored hstored

theorem keeps_putBlock {key : Key} (hkey : ∀ chain slot, key ≠ .block (.child chain) slot)
    (block : BcBlock) : Async.Always KeepsKeys (putBlock key block) :=
  Async.Always.ofTask fun s =>
    ⟨KeepsKeys.put (fun chain _ h => absurd h (hkey chain _)) s, trivial⟩

theorem keeps_getBlock (key : Key) : Async.Always KeepsKeys (getBlock key) :=
  Task.Always.read KeepsKeys.refl _

/-- A rovered block says itself under which key it goes. -/
theorem blockKey_child {label : String} {slot slot' : Slot} {chain : Chain}
    (h : blockKey label slot = .block (.child chain) slot') :
    label = chain.name ∧ slot = slot' := by
  unfold blockKey at h
  split at h
  · cases h
  · split at h
    · next chain' hfind =>
        cases h
        exact ⟨by simpa using List.find?_some hfind, rfl⟩
    · split at h <;> cases h

theorem keeps_putRovered (block : Block) {slot : Slot}
    (hslot : slot = .latest ∨ slot = .height block.height) :
    Async.Always KeepsKeys (Rpc.putRovered (blockKey block.blockchain slot) block) := by
  refine Async.Always.ofTask fun s => ⟨KeepsKeys.put (fun chain height h => ?_) s, trivial⟩
  obtain ⟨hlabel, hslot'⟩ := blockKey_child h
  rcases hslot with rfl | rfl
  · cases hslot'
  · cases hslot'
    exact ⟨by rw [Value.getBlockchain, hlabel], rfl⟩

theorem keeps_collectBlock (block : Block) :
    Async.Always KeepsKeys (Rpc.collectBlock block) := by
  have hlatest := keeps_putRovered block (Or.inl rfl)
  have hheight := keeps_putRovered block (Or.inr rfl)
  unfold Rpc.collectBlock
  apply Async.Always.bind (Async.Always.ofTask (Task.Always.read KeepsKeys.refl _))
  intro read
  split
  · apply Async.Always.bind (Async.Always.ofExcept _)
    intro chain
    apply Async.Always.bind hheight
    intro _
    split
    · exact hlatest
    · trivial
  · exact hlatest.bind fun _ => hheight

/-- The headers of a block carry the names of the chains they are listed under. -/
def Labelled (block : BcBlock) : Prop :=
  ∀ headers ∈ block.blockchainHeaders, ∀ chain, ∀ header ∈ headers.get chain,
    header.blockchain = chain.name

theorem keeps_putChildHeaders (completion : Completion) {block : BcBlock}
    (hlabels : Labelled block) :
    Async.Always KeepsKeys (putChildHeaders completion block) := by
  unfold putChildHeaders
  cases hheaders : block.blockchainHeaders with
  | none =>
      rw [BcBlock.getBlockchainHeaders, hheaders]
      exact trivial
  | some headers =>
      rw [BcBlock.getBlockchainHeaders_some hheaders, Async.ofExcept_ok_bind]
      refine Async.Always.bind (Async.Always.ofTask (Task.Always.all _ ?_)) fun _ => trivial
      intro t ht
      obtain ⟨chain, _, hmem⟩ := List.mem_flatMap.1 ht
      obtain ⟨⟨b, i⟩, hb, rfl⟩ := List.mem_map.1 hmem
      have hlisted : b ∈ headers.get chain :=
        (sortAscending_perm _ _).mem_iff.1 (List.fst_mem_of_mem_zipIdx hb)
      apply putChildHeader_always KeepsKeys.refl
      intro s slot hslot
      refine KeepsKeys.put (fun chain' height h => ?_) s
      cases h
      have hheight : b.height = height := by simpa [eq_comm] using hslot
      exact ⟨congrArg Except.ok (hlabels headers hheaders chain b hlisted),
        congrArg Except.ok hheight⟩

/-- The blocks that a message of `update.block.latest` brings. -/
def LabelledMsg (msg : Engine.UpdateMsg) : Prop :=
  Labelled msg.data ∧ ∀ blocks ∈ msg.multiverse, ∀ b ∈ blocks, Labelled b

open Engine in
theorem keeps_storeLatest (env : Env) {block : BcBlock} (hlabels : Labelled block) :
    Async.Always KeepsKeys (storeLatest env block) :=
  (keeps_putBlock (by simp) block).bind fun _ =>
    (keeps_putBlock (by simp) block).bind fun _ =>
      keeps_putChildHeaders env.completion hlabels

open Engine in
theorem keeps_perform (env : Env) {msg : UpdateMsg} (hlabels : Labelled msg.data)
    (previousLatest : BcBlock) (choice : CommitCase) :
    Async.Always KeepsKeys (perform env msg previousLatest choice) := by
  have hstore := keeps_storeLatest env hlabels
  have hparent (block : BcBlock) := @keeps_putBlock (.block .bc .parent) (by simp) block
  cases choice with
  | replaceLatest => exact hstore
  | child => exact (hparent _).bind fun _ => hstore
  | aboveGenesis => exact (hparent _).bind fun _ => hstore
  | newBranch => exact trivial
  | forced =>
      exact (keeps_putBlock (by simp) _).bind fun _ => (hparent _).bind fun _ => hstore
  | sibling =>
      refine Async.Always.bind ?_ fun _ => hstore
      unfold putSecondAsParent
      split
      · exact hparent _
      · exact trivial
  | none => exact trivial

open Engine in
theorem keeps_commit (env : Env) {msg : UpdateMsg} (hlabels : Labelled msg.data) :
    Async.Always KeepsKeys (commit env msg) :=
  (keeps_getBlock _).bind fun previousLatest =>
    (keeps_getBlock _).bind fun _ => (keeps_getBlock _).bind fun _ =>
      (Async.Always.ofExcept _).bind fun choice =>
        keeps_perform env hlabels previousLatest choice

open Engine in
theorem keeps_storeMultiverse (env : Env) {blocks : List BcBlock}
    (hlabels : ∀ b ∈ blocks, Labelled b) :
    Async.Always KeepsKeys (storeMultiverse env blocks) := by
  induction blocks with
  | nil => exact trivial
  | cons b rest ih =>
      have hrest := ih fun c hc => hlabels c (List.mem_cons_of_mem _ hc)
      have hput := (@keeps_putBlock (.block .bc (.height b.height)) (by simp) b).bind
        fun _ => keeps_putChildHeaders env.completion (hlabels b List.mem_cons_self)
      unfold storeMultiverse
      split
      · exact (Async.Always.mapError _ hput).bind fun _ => hrest
      · exact hrest

open Engine in
/-- What is left of the multiverse when an error reaches the `catch`. -/
theorem rejects_storeMultiverse (env : Env) {blocks : List BcBlock}
    (hlabels : ∀ b ∈ blocks, Labelled b) :
    Async.Rejects (fun interrupted : Interrupted =>
      ∀ left ∈ interrupted.2, ∀ b ∈ left, Labelled b) (storeMultiverse env blocks) := by
  induction blocks with
  | nil => exact Async.Rejects.pure _ _
  | cons b rest ih =>
      have hlabelsRest : ∀ c ∈ rest, Labelled c :=
        fun c hc => hlabels c (List.mem_cons_of_mem _ hc)
      unfold storeMultiverse
      split
      · refine Async.Rejects.bind (Async.Rejects.mapError (fun _ left hleft => ?_) _)
          fun _ => ih hlabelsRest
        cases hleft
        exact hlabelsRest
      · exact ih hlabelsRest

open Engine in
theorem keeps_countRoveredHeaders (env : Env) :
    Async.Always KeepsKeys (countRoveredHeaders env) := by
  unfold countRoveredHeaders
  split
  · exact trivial
  · exact (Async.Always.ofTask (getBulk_keeps _ _)).bind fun _ =>
      (Async.Always.ofExcept _).bind fun _ => trivial

/-- The blocks of a message in the order in which `pop` takes them. -/
theorem LabelledMsg.popped {msg : Engine.UpdateMsg} (h : LabelledMsg msg) :
    ∀ blocks ∈ msg.multiverse.map List.reverse, ∀ b ∈ blocks, Labelled b := by
  intro popped hpopped b hb
  obtain ⟨blocks, hblocks, rfl⟩ := Option.mem_map.1 hpopped
  exact h.2 blocks hblocks b (List.mem_reverse.1 hb)

open Engine in
theorem keeps_finish (env : Env) {msg : UpdateMsg} (hlabels : LabelledMsg msg) :
    Async.Always KeepsKeys (finish env msg) := by
  unfold finish
  split
  · next blocks hblocks =>
      exact keeps_storeMultiverse env (hlabels.popped _ (by rw [hblocks]; rfl))
  · exact Async.Always.mapError _ (keeps_countRoveredHeaders env)

open Engine in
theorem rejects_finish (env : Env) {msg : UpdateMsg} (hlabels : LabelledMsg msg) :
    Async.Rejects (fun interrupted : Interrupted =>
      ∀ left ∈ interrupted.2, ∀ b ∈ left, Labelled b) (finish env msg) := by
  unfold finish
  split
  · next blocks hblocks =>
      exact rejects_storeMultiverse env (hlabels.popped _ (by rw [hblocks]; rfl))
  · exact Async.Rejects.mapError (fun _ _ h => by cases h) _

open Engine in
theorem keeps_recover (env : Env) {msg : UpdateMsg} (hlabels : LabelledMsg msg)
    {left : Option (List BcBlock)} (hleft : ∀ blocks ∈ left, ∀ b ∈ blocks, Labelled b) :
    Async.Always KeepsKeys (recover env msg left) := by
  have hforced {t : StoreM Unit} (ht : Async.Always KeepsKeys t) : Async.Always KeepsKeys
      (do putBlock (.block .bc .parent) getGenesisBlock; storeLatest env msg.data; t) :=
    (keeps_putBlock (by simp) _).bind fun _ =>
      (keeps_storeLatest env hlabels.1).bind fun _ => ht
  unfold recover
  cases left with
  | none =>
      dsimp only
      split
      · exact hforced (t := return ()) trivial
      · exact trivial
  | some blocks =>
      have hlast := keeps_storeMultiverse env (hleft blocks rfl)
      dsimp only
      split
      · exact hforced (Async.Always.mapError _ hlast)
      · exact Async.Always.mapError _ hlast

open Engine in
theorem keeps_updateLatestAndStore (env : Env) {msg : UpdateMsg}
    (hlabels : LabelledMsg msg) :
    Async.Always KeepsKeys (updateLatestAndStore env msg) := by
  unfold updateLatestAndStore
  refine Async.Always.bind (Async.Always.rescue ?_ ?_ fun interrupted hleft =>
    keeps_recover env hlabels hleft) fun _ => trivial
  · exact (Async.Always.mapError _ (keeps_commit env hlabels.1)).bind fun _ =>
      keeps_finish env hlabels
  · exact (Async.Rejects.mapError (fun _ => hlabels.popped) _).bind fun _ =>
      rejects_finish env hlabels

/-! ## The officer among others -/

/-- What everybody works on: the store, the officer's fields, and the templates that
`startMining` has prepared so far. -/
structure World where
  store : Store
  officer : Officer := {}
  prepared : List Prepared := []

/-- What a call of `startMining` brings with it and draws. -/
structure MiningCall where
  block : Block
  currentTimestamp : Nat
  randomHex : String
  headersOrder : List Nat := []
  blocksOrder : List Nat := []

/-- `startMining` after its last `await`. -/
def World.startMining (pkg : Packages) (minerKey : String) (call : MiningCall)
    (lastPreviousBlock : BcBlock) (values : List Value) (w : World) : World :=
  match values.mapM asChildBlock with
  | .error _ =>
      match w.officer.dropWideTemplate with
      | .ok officer => { w with officer }
      | .error _ => w
  | .ok currentBlocks =>
      let inputs : MiningInputs :=
        { currentTimestamp := call.currentTimestamp
          randomHex := call.randomHex
          lastPreviousBlock
          currentBlocks
          block := call.block }
      match w.officer.startMining pkg minerKey inputs with
      | (officer, .error _) => { w with officer }
      | (officer, .ok (entry, _)) =>
          { w with
            officer
            prepared := w.prepared ++
              [⟨inputs, w.officer.unfinishedBlock, entry.unfinishedBlock⟩] }

/-- A task on the store. -/
def onStore {α : Type} : Task Store α → Task World α :=
  Task.focus World.store fun w store => { w with store }

/-- `startMining`. -/
def startMining (pkg : Packages) (minerKey : String) (knownRovers : List String)
    (call : MiningCall) : Task World Unit :=
  onStore (ExceptT.run (readForMining knownRovers call.headersOrder call.blocksOrder)) >>=
    fun read =>
      match read with
      | .error _ => .done ()
      | .ok (lastPreviousBlock, values) =>
          Task.modify (World.startMining pkg minerKey call lastPreviousBlock values)

/-- Who works on the store and the officer. -/
inductive Process where
  | startMining (call : MiningCall)
  /-- A block from a rover. -/
  | collectBlock (block : Block)
  /-- A mined block or a peer's becomes `bc.block.latest`. -/
  | updateLatestAndStore (env : Engine.Env) (msg : Engine.UpdateMsg)
  | poolMessage (msg : Option PoolMessage)
  | cleanUnfinishedBlock

def Process.task (pkg : Packages) (minerKey : String) (knownRovers : List String) :
    Process → Task World Unit
  | .startMining call => Mining.startMining pkg minerKey knownRovers call
  | .collectBlock block =>
      onStore (ExceptT.run (Rpc.collectBlock block)) >>= fun _ => .done ()
  | .updateLatestAndStore env msg =>
      onStore (ExceptT.run (Engine.updateLatestAndStore env msg)) >>= fun _ => .done ()
  | .poolMessage msg =>
      Task.modify fun w =>
        match handlePoolMessage msg with
        | none => w
        | some (workId, solution) =>
            { w with
              officer := (w.officer.handleWorkerFinishedMessage pkg workId solution).1 }
  | .cleanUnfinishedBlock =>
      Task.modify fun w => { w with officer := w.officer.cleanUnfinishedBlock }

/-- Blocks that become the latest one label their headers as they list them. -/
def Process.Labels : Process → Prop
  | .updateLatestAndStore _ msg => LabelledMsg msg
  | _ => True

/-- All of them at once, on a node that has just been started. -/
def mining (pkg : Packages) (minerKey : String) (knownRovers : List String)
    (processes : List Process) (store : Store) : Pool World Unit :=
  ⟨{ store }, processes.map (Process.task pkg minerKey knownRovers)⟩

/-- Every template that has been prepared keeps its heights exactly if it should. -/
def World.Settled (w : World) : Prop := ∀ p ∈ w.prepared, p.KeepsHeights ↔ p.Covered

/-- What every action of everybody does. -/
structure WorldRely (w w' : World) : Prop where
  store : KeepsKeys w.store w'.store
  settled : w.Settled → w'.Settled

theorem WorldRely.refl (w : World) : WorldRely w w := ⟨id, id⟩

theorem WorldRely.trans (w₁ w₂ w₃ : World) (h : WorldRely w₁ w₂) (h' : WorldRely w₂ w₃) :
    WorldRely w₁ w₃ := ⟨h'.store ∘ h.store, h'.settled ∘ h.settled⟩

theorem onStore_safe {α : Type} {t : Task Store α} {V : α → Prop} {w : World}
    (ht : Task.Safe KeepsKeys (fun a _ => V a) t w.store) :
    Task.Safe WorldRely (fun a _ => V a) (onStore t) w :=
  Task.Safe.focus World.store (fun w store => { w with store }) (fun _ _ h => h.store)
    (fun _ _ h => ⟨h, id⟩) (fun _ _ => rfl) ht

theorem onStore_safe_of_always {α : Type} {t : Async Store JsError α}
    (ht : Async.Always KeepsKeys t) (w : World) :
    Task.Safe WorldRely (fun _ _ => True)
      (onStore (ExceptT.run t) >>= fun _ => .done ()) w := by
  apply Task.Safe.bind WorldRely.refl
    (onStore_safe (Task.Safe.of_always (fun _ _ h => h) (fun _ _ _ => id) ht trivial))
  exact fun _ _ _ _ _ => trivial

theorem World.startMining_rely (pkg : Packages) (minerKey : String) (call : MiningCall)
    {lastPreviousBlock : BcBlock} {values : List Value}
    (hread : ReadFor (.ok (lastPreviousBlock, values))) (w : World) :
    WorldRely w (w.startMining pkg minerKey call lastPreviousBlock values) := by
  unfold World.startMining
  split
  · split <;> exact ⟨id, id⟩
  · next currentBlocks hblocks =>
      dsimp only
      split
      · exact ⟨id, id⟩
      · next officer entry update hstart =>
          refine ⟨id, fun hsettled p hp => ?_⟩
          rcases List.mem_append.1 hp with hold | hnew
          · exact hsettled p hold
          · rw [List.mem_singleton.1 hnew]
            exact keepsHeights_iff (hread _ _ _ rfl hblocks) hstart

theorem modify_safe {update : World → World} (h : ∀ w, WorldRely w (update w)) (w : World) :
    Task.Safe WorldRely (fun _ _ => True) (Task.modify update) w :=
  fun w' _ => ⟨h w', fun _ _ => trivial⟩

theorem startMining_safe (pkg : Packages) (minerKey : String) (knownRovers : List String)
    (call : MiningCall) {w : World} (hw : WellKeyed w.store) :
    Task.Safe WorldRely (fun _ _ => True)
      (startMining pkg minerKey knownRovers call) w := by
  apply Task.Safe.bind WorldRely.refl (onStore_safe (readForMining_safe knownRovers _ _ hw))
  intro read w' hread
  split
  · exact fun _ _ => trivial
  · exact modify_safe (World.startMining_rely pkg minerKey call hread) w'

theorem Process.task_safe (pkg : Packages) (minerKey : String) (knownRovers : List String)
    {process : Process} (hlabels : process.Labels) {w : World} (hw : WellKeyed w.store) :
    Task.Safe WorldRely (fun _ _ => True) (process.task pkg minerKey knownRovers) w := by
  cases process with
  | startMining call => exact startMining_safe pkg minerKey knownRovers call hw
  | collectBlock block => exact onStore_safe_of_always (keeps_collectBlock block) w
  | updateLatestAndStore env msg =>
      exact onStore_safe_of_always (keeps_updateLatestAndStore env hlabels) w
  | poolMessage msg =>
      refine modify_safe (fun w' => ?_) w
      split <;> exact ⟨id, id⟩
  | cleanUnfinishedBlock =>
      exact @modify_safe (fun w' => { w' with officer := w'.officer.cleanUnfinishedBlock })
        (fun _ => ⟨id, id⟩) w

/-- **When child heights are kept.**  On a store with its keys in order, with rovers
and new latest blocks coming in at any time, a template keeps the heights of the
latest block it is built on exactly if the cached template it may fall back on
does, in the chains without new child blocks. -/
theorem heights_kept_iff (pkg : Packages) (minerKey : String) (knownRovers : List String)
    {processes : List Process} (hlabels : ∀ process ∈ processes, process.Labels)
    {store : Store} (hstore : WellKeyed store) (schedule : List Nat) :
    ∀ p ∈ ((mining pkg minerKey knownRovers processes store).exec schedule).state.prepared,
      p.KeepsHeights ↔ p.Covered := by
  have hsafe : ∀ process ∈ processes, Task.Safe WorldRely (fun _ _ => True)
      (process.task pkg minerKey knownRovers) { store } :=
    fun process hmem =>
      Process.task_safe pkg minerKey knownRovers (hlabels process hmem) hstore
  have hexec := (Pool.exec_map WorldRely.refl WorldRely.trans hsafe schedule).1
  exact hexec.settled fun p hp => absurd hp List.not_mem_nil

/-! ## A template that falls back -/

/-- A template is cached on top of the sample's previous block.  A peer's block comes
in, and with the next rovered block there is a template on top of that one. -/
def sampleProcesses : List Process :=
  [.collectBlock (sampleChild .wav 1000000 11),
    .startMining
      { block := sampleChild .wav 1000000 11, currentTimestamp := 1000, randomHex := "00" },
    .updateLatestAndStore Engine.sampleEnv { data := sampleNextBlock },
    .collectBlock (sampleChild .eth 1000000 12),
    .startMining
      { block := sampleChild .eth 1000000 12, currentTimestamp := 1010, randomHex := "01" }]

/-- The first ones, one after the other. -/
def sampleTurns (count : Nat) : List Nat := (List.range count).flatMap (List.replicate 40)

def sampleMiningWorld (count : Nat) : World :=
  ((mining samplePackages "miner" (Chain.all.map Chain.name) sampleProcesses
    (sampleStore sampleParent)).exec (sampleTurns count)).state

theorem sampleStore_wellKeyed (parent : BcBlock) : WellKeyed (sampleStore parent) := by
  unfold sampleStore
  apply KeepsKeys.put (by simp)
  apply KeepsKeys.put (by simp)
  exact KeepsKeys.put (by simp) _ wellKeyed_empty

theorem sampleProcesses_labels : ∀ process ∈ sampleProcesses, process.Labels := by
  have hlabels : Labelled sampleNextBlock := by
    intro headers hheaders chain header hmem
    cases hheaders
    cases chain <;> (cases List.mem_singleton.1 hmem; rfl)
  have hmsg : LabelledMsg { data := sampleNextBlock } := ⟨hlabels, fun _ h => by cases h⟩
  simp only [sampleProcesses, List.mem_cons, List.not_mem_nil, or_false, forall_eq_or_imp,
    forall_eq]
  exact ⟨trivial, trivial, hmsg, trivial, trivial⟩

theorem heights_kept_iff_sample :
    (sampleMiningWorld 2).prepared.length = 1 ∧
    ∀ p ∈ (sampleMiningWorld 2).prepared, p.KeepsHeights := by
  refine ⟨by decide +kernel, fun p hp => ?_⟩
  have hcovered : ∀ p ∈ (sampleMiningWorld 2).prepared, p.Covered := by decide +kernel
  have hp' := hp
  unfold sampleMiningWorld at hp'
  exact (heights_kept_iff samplePackages "miner" (Chain.all.map Chain.name)
    sampleProcesses_labels (sampleStore_wellKeyed sampleParent) (sampleTurns 2) p hp').2
      (hcovered p hp)

/-- The second template falls back on the first one, which ends below the block that
came in between. -/
theorem heights_regress :
    ¬ ∀ (pkg : Packages) (minerKey : String) (knownRovers : List String)
      (processes : List Process) (store : Store) (schedule : List Nat),
      (∀ process ∈ processes, process.Labels) → WellKeyed store →
      ∀ p ∈ ((mining pkg minerKey knownRovers processes store).exec
        schedule).state.prepared, p.KeepsHeights := by
  intro hall
  have hregress : ∃ p ∈ (sampleMiningWorld 5).prepared, ¬ p.KeepsHeights := by
    decide +kernel
  obtain ⟨p, hp, hnot⟩ := hregress
  unfold sampleMiningWorld at hp
  exact hnot (hall samplePackages "miner" (Chain.all.map Chain.name) sampleProcesses
    (sampleStore sampleParent) (sampleTurns 5) sampleProcesses_labels
    (sampleStore_wellKeyed sampleParent) p hp)

end BcNode.Mining
