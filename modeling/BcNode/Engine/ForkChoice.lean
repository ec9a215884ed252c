import BcNode.Engine.Peers
import BcNode.Verified.Run

/-!
# The tip

`bc.block.latest` is the tip of the chain.  Once the engine has started, one function
writes it, `updateLatestAndStore`, for what is published under `update.block.latest`.
Four places publish there.  Two of them are in `getMultiverseHandler` behind its `return`;
the others are in `blockFromPeer` and `_processMinedBlock`, for a block that
`addNextBlock` has accepted, and in `blockFromPeer` for one that `addResyncRequest` has
approved.

`TipState.step` takes one block through all of this before the next one comes.
`tip_never_lighter` says of such runs that the tip never loses total distance.  It speaks
of runs in which no invalid block claims the hash of the tip: `forged_verdict_lowers_tip`
is what becomes of the tip otherwise.
-/

namespace BcNode.Engine

open BcNode.Verified BcNode.Js BcNode.Protos BcNode.Mining BcNode.Bc BcNode.Persistence
open BcNode.P2p

/-! ## What happens to the tip -/

/-- What the engine works on, with `_knownEvaluationsCache`. -/
structure TipState extends EngineState where
  evaluated : KnownBlocks := []

/-- What the handlers find when they run: the clock, the officer and the order in which
promises get to act. -/
structure Moment where
  now : Nat
  clock : ResyncClock
  order : Nat → List Nat
  canMine : Bool
  knownRovers : List Chain
  completion : Completion

def Moment.peerEnv (m : Moment) (pkg : Packages) (lru : LruCache) : PeerEnv where
  pkg := pkg
  lru := lru
  now := m.now
  clock := m.clock
  order := m.order

def Moment.env (m : Moment) (pkg : Packages) : Env where
  pkg := pkg
  canMine := m.canMine
  knownRovers := m.knownRovers
  completion := m.completion

/-- The subscription to `update.block.latest`. -/
def TipState.updateBlockLatest (lru : LruCache) (env : Env) (s : TipState)
    (msg : UpdateMsg) : TipState :=
  if s.evaluated.contains msg.data.hash then s
  else
    let store := (Async.exec (updateLatestAndStore env msg) s.node.store).2
    { s with
      evaluated := lru.use KNOWN_BLOCKS_MAX s.evaluated msg.data.hash
      node := { s.node with store } }

/-- What a listener changes.  The others only write to connections. -/
def TipState.listen (lru : LruCache) (env : Env) (s : TipState) : EngineEvent → TipState
  | .updateLatest msg => s.updateBlockLatest lru env msg
  | .putChildHeaders block =>
      let store := (Async.exec (putChildHeaders env.completion block) s.node.store).2
      { s with node := { s.node with store } }
  | .getmultiverse _ | .sendblock _ _ | .announceblock _ | .getblocklist _
  | .synccomplete => s

/-- `_processMinedBlock`. -/
def TipState.processMinedBlock (env : PeerEnv) (newBlock : BcBlock) (s : TipState) :
    List EngineEvent × TipState :=
  if s.known.contains newBlock.hash then ([], s)
  else
    let s := { s with known := env.lru.use KNOWN_BLOCKS_MAX s.known newBlock.hash }
    match addNextBlock env.pkg env.now newBlock s.node with
    | (.ok true, node) => ([.updateLatest { data := newBlock }], { s with node })
    | (_, node) => ([], { s with node })

/-- What happens to the engine.  All others leave the tip alone, and may do what they
want otherwise. -/
inductive TipEvent where
  | putblock (m : Moment) (msg : PutBlock)
  | minerBlockNew (m : Moment) (newBlock : BcBlock)
  | others (node : Node)

def TipState.step (pkg : Packages) (lru : LruCache) (s : TipState) : TipEvent → TipState
  | .putblock m msg =>
      let (events, state) := Engine.putblock (m.peerEnv pkg lru) msg s.toEngineState
      events.foldl (listen lru (m.env pkg)) { s with toEngineState := state }
  | .minerBlockNew m newBlock =>
      let (events, s) := s.processMinedBlock (m.peerEnv pkg lru) newBlock
      events.foldl (listen lru (m.env pkg)) s
  | .others node => { s with node }

/-! ## The tip and its verdict -/

/-- `isValidBlockCached`, in the store as it is. -/
def Judged (pkg : Packages) (store : Store) (b : BcBlock) : Prop :=
  ((isValidBlockCached pkg b).run store).1 = true

instance (pkg : Packages) (store : Store) (b : BcBlock) : Decidable (Judged pkg store b) :=
  inferInstanceAs (Decidable (_ = true))

/-- A node on a valid tip above genesis. -/
structure OnTip (pkg : Packages) (node : Node) (tip : BcBlock) : Prop where
  chain : node.chain ≠ []
  latest : node.store (.block .bc .latest) = some (.bcBlock tip)
  height : 1 < tip.height
  judged : Judged pkg node.store tip

/-- Steps that leave the tip and the verdicts alone, or make `data` the tip. -/
structure TipFrame (data : BcBlock) (s s' : Store) : Prop where
  verdicts : ∀ hash, s' (.valid hash) = s (.valid hash)
  latest : s' (.block .bc .latest) = s (.block .bc .latest) ∨
    s' (.block .bc .latest) = some (.bcBlock data)

theorem TipFrame.refl (data : BcBlock) (s : Store) : TipFrame data s s :=
  ⟨fun _ => rfl, .inl rfl⟩

theorem TipFrame.trans {data : BcBlock} {s₁ s₂ s₃ : Store} (h : TipFrame data s₁ s₂)
    (h' : TipFrame data s₂ s₃) : TipFrame data s₁ s₃ := by
  refine ⟨fun hash => (h'.verdicts hash).trans (h.verdicts hash), ?_⟩
  rcases h'.latest with hsame | hdata
  · rw [hsame]
    exact h.latest
  · exact .inr hdata

theorem TipFrame.of_child {data : BcBlock} {s s' : Store} (h : ChildFrame s s') :
    TipFrame data s s' :=
  ⟨fun hash => h _ fun chain slot => by simp, .inl (h _ fun chain slot => by simp)⟩

/-! ### `updateLatestAndStore` -/

theorem TipFrame.putBlock {data : BcBlock} {key : Key} {block : BcBlock}
    (hvalid : ∀ hash, key ≠ .valid hash)
    (hlatest : key = .block .bc .latest → block = data) :
    Async.Always (TipFrame data) (Persistence.putBlock key block) := by
  refine Async.Always.ofTask fun s => ⟨⟨fun hash => Store.set_ne s (hvalid hash).symm _, ?_⟩,
    trivial⟩
  by_cases hkey : key = .block .bc .latest
  · right
    rw [hkey, hlatest hkey]
    exact Store.set_self ..
  · left
    exact Store.set_ne s (Ne.symm hkey) _

theorem TipFrame.read {data : BcBlock} (key : Key) :
    Async.Always (TipFrame data) (getBlock key) :=
  Task.Always.read (TipFrame.refl data) _

theorem TipFrame.child {data : BcBlock} {α : Type} {t : StoreM α}
    (h : Async.Always ChildFrame t) : Async.Always (TipFrame data) t :=
  Task.Always.mono (fun _ _ => TipFrame.of_child) h

theorem storeLatest_tipFrame (env : Env) (block : BcBlock) :
    Async.Always (TipFrame block) (storeLatest env block) := by
  apply Async.Always.bind (TipFrame.putBlock (by simp) fun _ => rfl)
  intro _
  apply Async.Always.bind (TipFrame.putBlock (by simp) (by simp))
  intro _
  exact TipFrame.child (putChildHeaders_childFrame _ _)

theorem perform_tipFrame (env : Env) (msg : UpdateMsg) (previousLatest : BcBlock)
    (choice : CommitCase) :
    Async.Always (TipFrame msg.data) (perform env msg previousLatest choice) := by
  have hparent (block : BcBlock) : Async.Always (TipFrame msg.data)
      (putBlock (.block .bc .parent) block) := TipFrame.putBlock (by simp) (by simp)
  have hlatest := storeLatest_tipFrame env msg.data
  cases choice with
  | replaceLatest => exact hlatest
  | child => exact (hparent _).bind fun _ => hlatest
  | aboveGenesis => exact (hparent _).bind fun _ => hlatest
  | newBranch => trivial
  | forced =>
      have hlock : Async.Always (TipFrame msg.data) (putBlock .synclock msg.data) :=
        TipFrame.putBlock (by simp) (by simp)
      exact hlock.bind fun _ => (hparent _).bind fun _ => hlatest
  | sibling =>
      refine Async.Always.bind ?_ fun _ => hlatest
      rw [putSecondAsParent]
      split
      · exact hparent _
      · trivial
  | none => trivial

theorem storeMultiverse_tipFrame (env : Env) (data : BcBlock) (blocks : List BcBlock) :
    Async.Always (TipFrame data) (storeMultiverse env blocks) := by
  induction blocks with
  | nil => trivial
  | cons b rest ih =>
      rw [storeMultiverse]
      split
      · refine Async.Always.bind (Async.Always.mapError _ ?_) fun _ => ih
        apply Async.Always.bind (TipFrame.putBlock (by simp) (by simp))
        intro _
        exact TipFrame.child (putChildHeaders_childFrame _ _)
      · exact ih

/-- **Every step of a commit.**  Whatever happens meanwhile, it leaves the tip alone or
makes its own block the tip. -/
theorem updateLatestAndStore_tipFrame (env : Env) (msg : UpdateMsg) :
    Async.Always (TipFrame msg.data) (updateLatestAndStore env msg) := by
  have hcommit : Async.Always (TipFrame msg.data) (commit env msg) := by
    apply (TipFrame.read _).bind
    intro previousLatest
    apply (TipFrame.read _).bind
    intro parent
    apply (TipFrame.read _).bind
    intro synclock
    exact (Async.Always.ofExcept _).bind fun choice => perform_tipFrame env msg _ choice
  have hfinish : Async.Always (TipFrame msg.data) (finish env msg) := by
    rw [finish]
    split
    · exact storeMultiverse_tipFrame env _ _
    · exact Async.Always.mapError _ (TipFrame.child (countRoveredHeaders_childFrame env))
  have hforce {rest : StoreM Unit} (hrest : Async.Always (TipFrame msg.data) rest) :
      Async.Always (TipFrame msg.data) (do
        putBlock (.block .bc .parent) getGenesisBlock
        storeLatest env msg.data
        rest) := by
    apply (TipFrame.putBlock (by simp) (by simp)).bind
    intro _
    exact (storeLatest_tipFrame env _).bind fun _ => hrest
  have hrecover (left : Option (List BcBlock)) :
      Async.Always (TipFrame msg.data) (recover env msg left) := by
    unfold recover
    cases left with
    | none =>
        dsimp only
        split
        · exact hforce trivial
        · trivial
    | some blocks =>
        have hleft : Async.Always (TipFrame msg.data)
            (Async.mapError Prod.fst (storeMultiverse env blocks)) :=
          Async.Always.mapError _ (storeMultiverse_tipFrame env _ _)
        dsimp only
        split
        · exact hforce hleft
        · exact hleft
  refine Async.Always.bind ?_ fun _ => trivial
  exact Async.Always.rescue ((Async.Always.mapError _ hcommit).bind fun _ => hfinish)
    (W := fun _ => True) (Task.Ends.of_forall (fun _ _ _ => trivial) _)
    fun interrupted _ => hrecover interrupted.2

/-! ### `isValidBlockCached` -/

/-- Steps that write verdicts only. -/
def ValidFrame (s s' : Store) : Prop :=
  ∀ key, (∀ hash, key ≠ .valid hash) → s' key = s key

theorem isValidBlockCached_validFrame (pkg : Packages) (b : BcBlock) (store : Store) :
    ValidFrame store ((isValidBlockCached pkg b).run store).2 := by
  have hcache : Task.Always ValidFrame (validateAndCache pkg b) := by
    unfold validateAndCache
    split
    · exact fun s => ⟨fun key hkey => Store.set_ne s (hkey _) _, trivial⟩
    · trivial
  have hwrites : Task.Always ValidFrame (isValidBlockCached pkg b) := by
    unfold isValidBlockCached
    split
    · exact hcache
    · split
      · trivial
      · apply Task.Always.bind (Task.Always.read (fun s key _ => rfl) _)
        intro cached
        cases cached with
        | ok cached => trivial
        | error e => exact hcache
  exact hwrites.run (fun s key _ => rfl)
    (fun s₁ s₂ s₃ h h' key hkey => (h' key hkey).trans (h key hkey)) store

/-- A verdict does not depend on anything but the verdicts. -/
theorem Judged.congr {pkg : Packages} {store store' : Store} {b : BcBlock}
    (h : ∀ hash, store' (.valid hash) = store (.valid hash)) (hb : Judged pkg store b) :
    Judged pkg store' b := by
  have hverdicts : verdicts store' = verdicts store := by
    funext hash
    rw [verdicts, verdicts, h]
  rw [Judged, isValidBlockCached_congr pkg b hverdicts]
  exact hb

/-- Only an invalid block of the same hash takes the verdict on a valid one away. -/
theorem Judged.judge {pkg : Packages} {store : Store} {b other : BcBlock}
    (hb : Judged pkg store b) (hother : Judged pkg store other ∨ other.hash ≠ b.hash) :
    Judged pkg ((isValidBlockCached pkg other).run store).2 b := by
  rcases hother with hvalid | hhash
  · exact isValidBlockCached_after hvalid hb
  · have hkey : ∀ k, (validity pkg).key other = some k → (validity pkg).key b ≠ some k := by
      intro k hk hk'
      exact hhash ((validity_key_eq_some.1 hk).2.trans (validity_key_eq_some.1 hk').2.symm)
    rw [Judged, (isValidBlockCached_run pkg b _).1, (isValidBlockCached_run pkg other store).2,
      Memo.call_after_of_ne _ hkey, ← (isValidBlockCached_run pkg b store).1]
    exact hb

theorem OnTip.judge {pkg : Packages} {node : Node} {tip : BcBlock} (h : OnTip pkg node tip)
    {b : BcBlock} (hb : Judged pkg node.store b ∨ b.hash ≠ tip.hash) :
    OnTip pkg { node with store := ((isValidBlockCached pkg b).run node.store).2 } tip where
  chain := h.chain
  latest := (isValidBlockCached_validFrame pkg b node.store _ (by simp)).trans h.latest
  height := h.height
  judged := h.judged.judge hb

/-! ### `addResyncRequest` -/

theorem getBulk_reads (order : List Nat) (keys : List Key) :
    Task.Always (fun s s' => s' = s) (getBulk order keys) := by
  refine Task.Always.bind (Task.Always.all order ?_) fun _ => trivial
  intro t ht
  obtain ⟨key, _, rfl⟩ := List.mem_map.1 ht
  exact fun s => ⟨rfl, trivial⟩

theorem validateRoveredBlocks_reads (order : List Nat) (block : BcBlock) :
    Async.Always (fun s s' => s' = s) (validateRoveredBlocks order block) := by
  apply (Async.Always.ofExcept _).bind
  intro headers
  exact (Async.Always.ofTask (getBulk_reads _ _)).bind fun _ => trivial

theorem compareForResync_reads (pkg : Packages) (order : Nat → List Nat)
    (chain : List BcBlock) (newBlock currentHighestBlock : BcBlock) :
    Async.Always (fun s s' => s' = s)
      (compareForResync pkg order chain newBlock currentHighestBlock) := by
  have hrovered (order : List Nat) (block : BcBlock) :=
    validateRoveredBlocks_reads order block
  apply Async.Always.bind
  · rw [passesShortChain]
    split
    · apply (Async.Always.ofExcept _).bind
      intro currentSum
      apply (Async.Always.ofExcept _).bind
      intro newSum
      split
      · exact hrovered _ _
      · trivial
    · trivial
  · intro passed
    split
    · trivial
    · split
      · trivial
      · rw [passesRoveredBlocks]
        split
        · trivial
        · apply (Async.Always.ofExcept _).bind
          intro newSum
          apply (Async.Always.ofExcept _).bind
          intro currentSum
          split
          · apply (hrovered _ _).bind
            intro passedNewBlock
            split
            · exact (hrovered _ _).bind fun _ => trivial
            · trivial
          · trivial

/-- A call about a valid block leaves the tip and both verdicts. -/
theorem addResyncRequest_keeps {pkg : Packages} (clock : ResyncClock)
    (order : Nat → List Nat) (chain : List BcBlock) {newBlock tip : BcBlock} {store : Store}
    (hlatest : store (.block .bc .latest) = some (.bcBlock tip))
    (htip : Judged pkg store tip) (hnew : Judged pkg store newBlock) :
    (Async.exec (addResyncRequest pkg clock order chain newBlock) store).2
        (.block .bc .latest) = some (.bcBlock tip) ∧
      Judged pkg (Async.exec (addResyncRequest pkg clock order chain newBlock) store).2 tip ∧
      Judged pkg (Async.exec (addResyncRequest pkg clock order chain newBlock) store).2
        newBlock := by
  -- the three states the call passes through
  generalize hlocked : ((isSyncLockActive clock.syncLock).run store).2 = locked
  generalize hfirst : ((isValidBlockCached pkg newBlock).run locked).2 = first
  generalize hsecond : ((isValidBlockCached pkg tip).run first).2 = second
  have hframe {key : Key} (hkey : key ≠ .synclock) : locked key = store key := by
    rw [← hlocked]
    exact isSyncLockActive_frame clock.syncLock store hkey
  have hvalid (hash : String) : locked (.valid hash) = store (.valid hash) := hframe (by simp)
  have hlatest₁ : locked (.block .bc .latest) = some (.bcBlock tip) :=
    (hframe (by simp)).trans hlatest
  have htip₁ := htip.congr hvalid
  have hnew₁ := hnew.congr hvalid
  have hlatest₂ : first (.block .bc .latest) = some (.bcBlock tip) := by
    rw [← hfirst]
    exact (isValidBlockCached_validFrame pkg newBlock locked _ (by simp)).trans hlatest₁
  have htip₂ : Judged pkg first tip := hfirst ▸ htip₁.judge (.inl hnew₁)
  have hnew₂ : Judged pkg first newBlock := hfirst ▸ hnew₁.judge (.inl hnew₁)
  have hlatest₃ : second (.block .bc .latest) = some (.bcBlock tip) := by
    rw [← hsecond]
    exact (isValidBlockCached_validFrame pkg tip first _ (by simp)).trans hlatest₂
  have htip₃ : Judged pkg second tip := hsecond ▸ htip₂.judge (.inl htip₂)
  have hnew₃ : Judged pkg second newBlock := hsecond ▸ hnew₂.judge (.inl htip₂)
  suffices hstore : (Async.exec (addResyncRequest pkg clock order chain newBlock) store).2 =
        locked ∨
      (Async.exec (addResyncRequest pkg clock order chain newBlock) store).2 = second by
    rcases hstore with hstore | hstore
    · rw [hstore]
      exact ⟨hlatest₁, htip₁, hnew₁⟩
    · rw [hstore]
      exact ⟨hlatest₃, htip₃, hnew₃⟩
  simp only [addResyncRequest, Async.exec_bind, Async.exec_ofTask, hlocked]
  split
  · exact .inl rfl
  · right
    simp only [Async.exec_bind, exec_getBlock, getBlockIn_of_some hlatest₁, Async.exec_ofTask,
      hfirst, hsecond]
    split
    · rfl
    · simp only [Async.exec_bind, Async.exec_ofExcept]
      cases resyncScreen pkg clock chain newBlock tip with
      | error e => rfl
      | ok screened =>
          cases screened with
          | some answer => rfl
          | none =>
              exact Async.Always.exec (F := fun s s' : Store => s' = s) (fun _ => rfl)
                (fun _ _ _ h h' => Eq.trans h' h)
                (compareForResync_reads pkg order chain newBlock tip) second

/-! ### `addNextBlock` -/

theorem pushed_ne_nil (chain : List BcBlock) (newBlock : BcBlock) :
    pushed chain newBlock ≠ [] := by
  rw [pushed]
  split
  · next hlong =>
      intro hnil
      have hlength := congrArg List.length hnil
      rw [List.length_dropLast, List.length_nil] at hlength
      omega
  · exact List.cons_ne_nil _ _

/-- A call writes nothing. -/
theorem addNextBlock_store (pkg : Packages) (now : Nat) (newBlock : BcBlock) (node : Node) :
    (addNextBlock pkg now newBlock node).2.store = node.store := by
  unfold addNextBlock
  split
  · rfl
  · split
    · rfl
    · split <;> rfl

/-- And it never empties the list. -/
theorem addNextBlock_chain {pkg : Packages} {now : Nat} {newBlock : BcBlock} {node : Node}
    (h : node.chain ≠ []) : (addNextBlock pkg now newBlock node).2.chain ≠ [] := by
  obtain ⟨head, rest, hcons⟩ := List.exists_cons_of_ne_nil h
  have hsame : (head :: rest) ≠ [] := List.cons_ne_nil _ _
  unfold addNextBlock
  rw [hcons]
  dsimp only
  cases getBlockIn node.store (.block .bc .latest) with
  | error e => exact h
  | ok latest =>
      cases getBlockIn node.store (.block .bc .parent) with
      | error e => exact h
      | ok parent =>
          show (decideNext pkg now (head :: rest) newBlock latest parent).2 ≠ []
          by_cases hpush : evaluate pkg now newBlock latest parent = .ok .push
          · rw [decideNext_push _ hpush]
            exact pushed_ne_nil _ _
          · rw [(decideNext_unpushed _ hpush).1]
            exact hsame

theorem OnTip.addNextBlock {pkg : Packages} {node : Node} {tip : BcBlock}
    (h : OnTip pkg node tip) (now : Nat) (newBlock : BcBlock) :
    OnTip pkg (Bc.addNextBlock pkg now newBlock node).2 tip := by
  have hstore := addNextBlock_store pkg now newBlock node
  exact ⟨addNextBlock_chain h.chain, hstore ▸ h.latest, h.height, hstore ▸ h.judged⟩

/-! ## No step loses total distance -/

/-- The node is on a tip again, of at least the total distance of `tip`. -/
def NoLighter (pkg : Packages) (tip : BcBlock) (node : Node) : Prop :=
  ∃ tip', OnTip pkg node tip' ∧ pkg.bn tip.totalDistance ≤ pkg.bn tip'.totalDistance

theorem OnTip.noLighter {pkg : Packages} {node : Node} {tip : BcBlock}
    (h : OnTip pkg node tip) : NoLighter pkg tip node := ⟨tip, h, Int.le_refl _⟩

/-- What may be published under `update.block.latest`. -/
structure Publishable (pkg : Packages) (tip : BcBlock) (store : Store) (data : BcBlock) :
    Prop where
  judged : Judged pkg store data
  height : 1 < data.height
  totalDistance_le : pkg.bn tip.totalDistance ≤ pkg.bn data.totalDistance

/-- An accepted block may be published. -/
theorem OnTip.accepted {pkg : Packages} {node : Node} {tip : BcBlock}
    (h : OnTip pkg node tip) {now : Nat} {newBlock : BcBlock}
    (hnew : Judged pkg node.store newBlock)
    (haccepted : (Bc.addNextBlock pkg now newBlock node).1 = .ok true) :
    Publishable pkg tip (Bc.addNextBlock pkg now newBlock node).2.store newBlock := by
  have hgate := ((addNextBlock_sound h.latest h.chain newBlock).1 haccepted).1
  have hheight := h.height
  refine ⟨?_, ?_, hgate.totalDistance_le⟩
  · rw [addNextBlock_store]
    exact hnew
  · rw [hgate.height]
    omega

/-- A commit ends on the old tip or on its own block. -/
theorem OnTip.commit {pkg : Packages} {node : Node} {tip : BcBlock} (h : OnTip pkg node tip)
    (env : Env) {msg : UpdateMsg} (hmsg : Publishable pkg tip node.store msg.data) :
    NoLighter pkg tip
      { node with store := (Async.exec (updateLatestAndStore env msg) node.store).2 } := by
  have hframe := (updateLatestAndStore_tipFrame env msg).exec (TipFrame.refl _)
    (fun _ _ _ => TipFrame.trans) node.store
  rcases hframe.latest with hsame | hdata
  · exact ⟨tip, ⟨h.chain, hsame.trans h.latest, h.height, h.judged.congr hframe.verdicts⟩,
      Int.le_refl _⟩
  · exact ⟨msg.data, ⟨h.chain, hdata, hmsg.height, hmsg.judged.congr hframe.verdicts⟩,
      hmsg.totalDistance_le⟩

theorem OnTip.updateBlockLatest {pkg : Packages} {tip : BcBlock} (s : TipState)
    (h : OnTip pkg s.node tip) (lru : LruCache) (env : Env) (msg : UpdateMsg)
    (hmsg : Publishable pkg tip s.node.store msg.data) :
    NoLighter pkg tip (s.updateBlockLatest lru env msg).node := by
  rw [TipState.updateBlockLatest]
  split
  · exact h.noLighter
  · exact h.commit env hmsg

theorem OnTip.putChildHeaders {pkg : Packages} {node : Node} {tip : BcBlock}
    (h : OnTip pkg node tip) (completion : Completion) (block : BcBlock) :
    OnTip pkg { node with
      store := (Async.exec (Persistence.putChildHeaders completion block) node.store).2 }
      tip := by
  have hframe := putChildHeaders_exec completion block node.store
  have hlatest := hframe (.block .bc .latest) fun chain slot => by simp
  exact ⟨h.chain, hlatest.trans h.latest, h.height,
    h.judged.congr fun hash => hframe _ fun chain slot => by simp⟩

/-- What the listeners make of a valid block. -/
theorem OnTip.proposeBlock {pkg : Packages} {tip : BcBlock} {s : TipState}
    (h : OnTip pkg s.node tip) (lru : LruCache) (m : Moment) (conn : Peer)
    {newBlock : BcBlock} (hheight : 1 < newBlock.height)
    (hnew : Judged pkg s.node.store newBlock) :
    NoLighter pkg tip
      ((Engine.proposeBlock (m.peerEnv pkg lru) conn newBlock s.node).1.foldl
        (TipState.listen lru (m.env pkg))
        { s with
          node :=
            (Engine.proposeBlock (m.peerEnv pkg lru) conn newBlock s.node).2 }).node := by
  have haccepted : (Bc.addNextBlock pkg m.now newBlock s.node).1 = .ok true → _ :=
    h.accepted hnew
  have hkept := h.addNextBlock m.now newBlock
  have hjudged : Judged pkg (Bc.addNextBlock pkg m.now newBlock s.node).2.store
      newBlock := by
    rw [addNextBlock_store]
    exact hnew
  simp only [Engine.proposeBlock, Moment.peerEnv]
  rcases hcall : Bc.addNextBlock pkg m.now newBlock s.node with ⟨e | _ | _, node⟩
  all_goals rw [hcall] at haccepted hkept hjudged
  · exact hkept.noLighter
  · -- refused, and `addResyncRequest` decides
    have hle : (Async.exec (addResyncRequest pkg m.clock m.order node.chain newBlock)
        node.store).1 = .ok true →
          pkg.bn tip.totalDistance ≤ pkg.bn newBlock.totalDistance :=
      addResyncRequest_totalDistance_le pkg m.clock m.order hkept.chain hkept.latest
        hkept.height hkept.judged
    have hkeeps := addResyncRequest_keeps m.clock m.order node.chain hkept.latest
      hkept.judged hjudged
    dsimp only
    rcases hresync : Async.exec (addResyncRequest pkg m.clock m.order node.chain newBlock)
      node.store with ⟨e | _ | _, store⟩
    all_goals rw [hresync] at hle hkeeps
    all_goals
      have htip : OnTip pkg { node with store } tip :=
        ⟨hkept.chain, hkeeps.1, hkept.height, hkeeps.2.1⟩
    · exact htip.noLighter
    · exact htip.noLighter
    · obtain ⟨tip', htip', hle'⟩ := OnTip.updateBlockLatest
        { s with node := { node with store } } htip lru (m.env pkg)
        { data := newBlock, force := true } ⟨hkeeps.2.2, hheight, hle rfl⟩
      exact ⟨tip', htip'.putChildHeaders _ _, hle'⟩
  · exact OnTip.updateBlockLatest { s with node } hkept lru (m.env pkg) { data := newBlock }
      (haccepted rfl)

/-! ## Runs -/

/-- The tip of a store. -/
def latestBlock (store : Store) : Option BcBlock :=
  (getBlockIn store (.block .bc .latest)).toOption

theorem latestBlock_of_some {store : Store} {tip : BcBlock}
    (h : store (.block .bc .latest) = some (.bcBlock tip)) :
    latestBlock store = some tip := by
  rw [latestBlock, getBlockIn_of_some h]
  rfl

/-- What is asked of what happens.  Blocks are above genesis, a mined one is valid, and
an invalid one does not claim the hash of the tip unless it is known.  All others leave
the tip and the verdicts alone. -/
def TipEvent.Proper (pkg : Packages) (s : TipState) : TipEvent → Prop
  | .putblock _ msg =>
      1 < msg.data.height ∧ ∀ tip ∈ latestBlock s.node.store, msg.data.hash = tip.hash →
        msg.data.hash ∈ s.known ∨ Judged pkg s.node.store msg.data
  | .minerBlockNew _ newBlock => Judged pkg s.node.store newBlock
  | .others node =>
      node.chain ≠ [] ∧
        node.store (.block .bc .latest) = s.node.store (.block .bc .latest) ∧
        ∀ hash, node.store (.valid hash) = s.node.store (.valid hash)

theorem OnTip.putblock {pkg : Packages} {tip : BcBlock} {s : TipState}
    (h : OnTip pkg s.node tip) (lru : LruCache) (m : Moment) {msg : PutBlock}
    (hproper : TipEvent.Proper pkg s (.putblock m msg)) :
    NoLighter pkg tip (s.step pkg lru (.putblock m msg)).node := by
  obtain ⟨hheight, hforged⟩ := hproper
  show NoLighter pkg tip ((Engine.putblock (m.peerEnv pkg lru) msg s.toEngineState).1.foldl
    (TipState.listen lru (m.env pkg)) { s with
      toEngineState := (Engine.putblock (m.peerEnv pkg lru) msg s.toEngineState).2 }).node
  rw [Engine.putblock, blockFromPeer]
  split
  · exact h.noLighter
  · next hunknown =>
      have hverdict : Judged pkg s.node.store msg.data ∨ msg.data.hash ≠ tip.hash := by
        by_cases hhash : msg.data.hash = tip.hash
        · have hknown := hforged tip (latestBlock_of_some h.latest) hhash
          exact .inl (hknown.resolve_left fun hmem =>
            hunknown (List.contains_iff_mem.2 hmem))
        · exact .inr hhash
      have hjudged := h.judge hverdict
      dsimp only
      split
      · next hvalid =>
          have hnew : Judged pkg s.node.store msg.data := hvalid
          exact OnTip.proposeBlock
            (s := { s with known := lru.use KNOWN_BLOCKS_MAX s.known msg.data.hash
                           node := { s.node with store := _ } })
            hjudged lru m (.putblock msg) hheight (hnew.judge (.inl hnew))
      · exact hjudged.noLighter

theorem OnTip.minerBlockNew {pkg : Packages} {tip : BcBlock} {s : TipState}
    (h : OnTip pkg s.node tip) (lru : LruCache) (m : Moment) {newBlock : BcBlock}
    (hnew : Judged pkg s.node.store newBlock) :
    NoLighter pkg tip (s.step pkg lru (.minerBlockNew m newBlock)).node := by
  have haccepted : (Bc.addNextBlock pkg m.now newBlock s.node).1 = .ok true → _ :=
    h.accepted hnew
  have hkept := h.addNextBlock m.now newBlock
  simp only [TipState.step, TipState.processMinedBlock, Moment.peerEnv]
  split
  · exact h.noLighter
  · rcases hcall : Bc.addNextBlock pkg m.now newBlock s.node with ⟨e | _ | _, node⟩
    all_goals rw [hcall] at haccepted hkept
    · exact hkept.noLighter
    · exact hkept.noLighter
    · exact OnTip.updateBlockLatest
        { s with known := lru.use KNOWN_BLOCKS_MAX s.known newBlock.hash, node } hkept lru
        (m.env pkg) { data := newBlock } (haccepted rfl)

/-- **One step.** -/
theorem OnTip.step {pkg : Packages} {tip : BcBlock} {s : TipState}
    (h : OnTip pkg s.node tip) (lru : LruCache) {event : TipEvent}
    (hproper : event.Proper pkg s) :
    NoLighter pkg tip (s.step pkg lru event).node := by
  cases event with
  | putblock m msg => exact h.putblock lru m hproper
  | minerBlockNew m newBlock => exact h.minerBlockNew lru m hproper
  | others node =>
      obtain ⟨hchain, hlatest, hverdicts⟩ := hproper
      exact ⟨tip, ⟨hchain, hlatest.trans h.latest, h.height, h.judged.congr hverdicts⟩,
        Int.le_refl _⟩

/-- **The tip never gets lighter.**  However blocks from peers and mined ones follow each
other, the node ends on a valid tip that has at least the total distance of the one it
started on. -/
theorem tip_never_lighter (pkg : Packages) (lru : LruCache) {s : TipState} {tip : BcBlock}
    (htip : OnTip pkg s.node tip) {events : List TipEvent}
    (hrun : Along (TipState.step pkg lru) (fun s event => event.Proper pkg s) s events) :
    ∃ tip', OnTip pkg (events.foldl (TipState.step pkg lru) s).node tip' ∧
      pkg.bn tip.totalDistance ≤ pkg.bn tip'.totalDistance := by
  apply Along.invariant (I := fun s => NoLighter pkg tip s.node) ?_ hrun htip.noLighter
  intro s event h hproper
  obtain ⟨tip', htip', hle⟩ := h
  obtain ⟨tip'', htip'', hle'⟩ := htip'.step lru hproper
  exact ⟨tip'', htip'', Int.le_trans hle hle'⟩

/-! ### Two runs -/

def sampleMoment : Moment where
  now := 1010
  clock := ⟨1010, 1010, 1010, 1010⟩
  order _ := []
  canMine := true
  knownRovers := Chain.all
  completion := {}

/-- The sample's node. -/
def sampleTipState : TipState where
  known := []
  node := sampleNode sampleParent

/-- The next block is mined, and a rival of it comes from a peer. -/
def sampleTipEvents : List TipEvent :=
  [.minerBlockNew sampleMoment sampleNextBlock,
    .putblock sampleMoment { data := sampleRival, connection := sampleConnection }]

theorem tip_never_lighter_sample :
    ∃ tip', OnTip samplePackages
        (sampleTipEvents.foldl (TipState.step samplePackages Lru.taking)
          sampleTipState).node tip' ∧
      samplePackages.bn samplePrevious.totalDistance ≤
        samplePackages.bn tip'.totalDistance := by
  refine @tip_never_lighter samplePackages Lru.taking sampleTipState samplePrevious
    ⟨List.cons_ne_nil _ _, sampleStore_latest sampleParent, by decide, by decide +kernel⟩
    sampleTipEvents ?_
  refine ⟨?_, ⟨?_, ?_⟩, trivial⟩
  · show Judged samplePackages sampleTipState.node.store sampleNextBlock
    decide +kernel
  · decide
  · decide +kernel

example : latestBlock (sampleTipEvents.foldl (TipState.step samplePackages Lru.taking)
    sampleTipState).node.store = some sampleNextBlock := by decide +kernel

/-- A node on a mined block, whose validity nobody has asked about. -/
def sampleCheckedState : TipState where
  known := []
  node :=
    { chain := [sampleCheckedBlock]
      store := ((Store.empty.set .synclock (.bcBlock getGenesisBlock)).set
        (.block .bc .latest) (.bcBlock sampleCheckedBlock)).set
        (.block .bc .parent) (.bcBlock sampleParent) }

/-- An old block of little total distance. -/
def sampleLightBlock : BcBlock := { sampleNextBlock with hash := "b3", totalDistance := "7" }

/-- The tip's hash on an invalid block, and then the old block. -/
def sampleForgedEvents : List TipEvent :=
  [.putblock sampleMoment { data := sampleForgedBlock, connection := sampleConnection },
    .putblock sampleMoment { data := sampleLightBlock, connection := sampleConnection }]

/-- **An invalid block that claims the hash of the tip.**  Its verdict is remembered as
the tip's, and the next valid block takes the tip's place, of whatever total distance. -/
theorem forged_verdict_lowers_tip :
    OnTip samplePackages sampleCheckedState.node sampleCheckedBlock ∧
    latestBlock (sampleForgedEvents.foldl (TipState.step samplePackages Lru.taking)
      sampleCheckedState).node.store = some sampleLightBlock ∧
    samplePackages.bn sampleLightBlock.totalDistance <
      samplePackages.bn sampleCheckedBlock.totalDistance := by
  refine ⟨⟨List.cons_ne_nil _ _, ?_, ?_, ?_⟩, ?_, ?_⟩
  all_goals decide +kernel

end BcNode.Engine
