import BcNode.Engine.StepSync
import BcNode.P2p.QueryRpc

/-!
# Downloading a chain

What `stepSync` makes of the answers of a peer, when these come from the peer's store.
The peer answers each query from the store as it is then; the store may have grown since
the last one, and it need not even be the same peer.

A block that is pending behind those of an answer is stored with them, and one that does
not fit keeps them from being stored.  So each result says what has to be pending.

Nothing else than blocks of the chain gets into the database, however the steps go:
`stepSync_sound`.  If no step fails, all of the chain does, from height two on:
`stepSync_downloads`.
-/

namespace BcNode.Engine.Sync

open BcNode.Verified BcNode.Js BcNode.Protos BcNode.Bc BcNode.Persistence

/-! ## Soundness -/

/-- The store has nothing under a height but the chain's block. -/
def WithinChain (store : Store) (chain : Nat → BcBlock) : Prop :=
  ∀ n value, store (.block .bc (.height n)) = some value → value = .bcBlock (chain n)

/-- What comes of a peer in a step comes from a store, over a connection that does not
change it. -/
def FromStore (wire : P2p.Wire) (chain : Nat → BcBlock) (step : SyncStep) : Prop :=
  ∃ store conn order, WithinChain store chain ∧ wire.ReadsAll store ∧
    P2p.Conn.Honest conn ∧
    ∀ q, step.query q = P2p.callPeer wire conn (P2p.query wire order q.low q.high) store

/-- What is pending behind a block of the chain is on the chain. -/
def PendingOnChain (chain : Nat → BcBlock) (db : Database) : Prop :=
  ∀ n block, db (blockText (some "pending") n) = some (.bcBlock block) →
    block.previousHash = (chain n).hash → block = chain block.height

/-- The blocks are those that the chain has at their heights. -/
def OnChain (chain : Nat → BcBlock) (blocks : List BcBlock) : Prop :=
  ∀ block ∈ blocks, block = chain block.height

/-- All that the peer answers in a step is on the chain. -/
def AnswersChain (chain : Nat → BcBlock) (step : SyncStep) : Prop :=
  ∀ q blocks, step.query q = .ok blocks → OnChain chain blocks

/-- A key is as it was, or it has what a sync along the chain writes. -/
def Downloaded (chain : Nat → BcBlock) (db db' : Database) : Prop :=
  ∀ key, db' key = db key ∨
    (∃ n, key = blockText none n ∧ db' key = some (.bcBlock (chain n))) ∨
    key = "bc.block.oldest" ∧ (∃ n, db' key = some (.bcBlock (chain n))) ∨
    key = "synclock" ∧ db' key = some (.bcBlock getGenesisBlock)

theorem Downloaded.refl (chain : Nat → BcBlock) (db : Database) :
    Downloaded chain db db := fun _ => .inl rfl

theorem Downloaded.trans {chain : Nat → BcBlock} (a b c : Database)
    (h : Downloaded chain a b) (h' : Downloaded chain b c) : Downloaded chain a c := by
  intro key
  rcases h' key with hsame | hnew
  · rw [hsame]
    exact h key
  · exact .inr hnew

/-- One write. -/
theorem Downloaded.set {chain : Nat → BcBlock} (db : Database) {key : String}
    {value : Value}
    (h : (∃ n, key = blockText none n ∧ value = .bcBlock (chain n)) ∨
      key = "bc.block.oldest" ∧ (∃ n, value = .bcBlock (chain n)) ∨
      key = "synclock" ∧ value = .bcBlock getGenesisBlock) :
    Downloaded chain db (db.set key value) := by
  intro other
  by_cases hother : other = key
  · subst hother
    right
    rw [set_self]
    simpa only [Option.some.injEq] using h
  · exact .inl (set_ne hother db value)

/-- No such write is to a pending key. -/
theorem Downloaded.pending {chain : Nat → BcBlock} {db db' : Database}
    (h : Downloaded chain db db') (n : Nat) :
    db' (blockText (some "pending") n) = db (blockText (some "pending") n) := by
  rcases h (blockText (some "pending") n) with hsame | ⟨m, hkey, -⟩ | ⟨hkey, -⟩ | ⟨hkey, -⟩
  · exact hsame
  · exact absurd hkey (blockText_pending_ne (by rw [blockText_none_head]; decide) n)
  · exact absurd hkey (blockText_pending_ne (by decide) n)
  · exact absurd hkey (blockText_pending_ne (by decide) n)

theorem PendingOnChain.downloaded {chain : Nat → BcBlock} (db db' : Database)
    (h : Downloaded chain db db') (hdb : PendingOnChain chain db) :
    PendingOnChain chain db' := by
  intro n block hpending
  rw [h.pending] at hpending
  exact hdb n block hpending

/-- With nothing but the chain pending, the promise writes only what `Downloaded` says,
and what it resolves with satisfies `V`. -/
def Along (chain : Nat → BcBlock) {α : Type} (V : α → Prop) (t : DatabaseM α) : Prop :=
  Async.Triple (PendingOnChain chain) (Downloaded chain) V t

section Along

variable {chain : Nat → BcBlock} {α β : Type} {V : α → Prop} {W : β → Prop}

theorem Along.of_always {t : DatabaseM α} (h : Async.Always (Downloaded chain) t) :
    Along chain (fun _ => True) t :=
  Async.Triple.of_always (Downloaded.refl chain) Downloaded.trans h

theorem Along.pure {a : α} (h : V a) : Along chain V (pure a : DatabaseM α) :=
  Async.Triple.pure (Downloaded.refl chain) h

theorem Along.ofExcept {x : Except JsError α} (h : ∀ a, x = .ok a → V a) :
    Along chain V (Async.ofExcept x : DatabaseM α) :=
  Async.Triple.ofExcept (Downloaded.refl chain) h

theorem Along.bind {t : DatabaseM α} {f : α → DatabaseM β} (ht : Along chain V t)
    (hf : ∀ a, V a → Along chain W (f a)) : Along chain W (t >>= f) :=
  Async.Triple.bind PendingOnChain.downloaded Downloaded.trans ht hf

theorem Along.rescue {t : DatabaseM α} {handler : JsError → DatabaseM α}
    (ht : Along chain V t) (hf : ∀ e, Along chain V (handler e)) :
    Along chain V (Async.rescue t handler) :=
  Async.Triple.rescue PendingOnChain.downloaded Downloaded.trans ht hf

end Along

section Sound

variable {wire : P2p.Wire} {chain : Nat → BcBlock}

/-- The check leaves the blocks it gets, and perhaps the pending block in front, if it is
behind the highest of these. -/
theorem validateBlockSequenceInline_mem {pending : Option BcBlock}
    {blocks sorted : List BcBlock} {valid : Bool}
    (h : validateBlockSequenceInline pending blocks = .ok (valid, sorted)) :
    ∀ block ∈ sorted, block ∈ blocks ∨ block ∈ pending ∧
      ∃ upperBound ∈ (sortDescending (·.height) blocks).head?,
        block.previousHash = upperBound.hash := by
  have hperm := sortDescending_perm (·.height) blocks
  unfold validateBlockSequenceInline at h
  dsimp only at h
  split at h
  · cases h
    exact fun block hmem => .inl hmem
  · next upperBound hupper =>
      split at h
      · cases h
        exact fun block hmem => .inl (hperm.mem_iff.1 hmem)
      · split at h
        · cases h
        · next hhash =>
            cases h
            intro block hmem
            rcases List.mem_cons.1 hmem with rfl | hmem
            · exact .inr ⟨rfl, upperBound, hupper, (not_ne_iff.1 hhash).symm⟩
            · exact .inl (hperm.mem_iff.1 hmem)

/-- So a step stores nothing else. -/
theorem blocksToStore_mem {pending : Option BcBlock} {blocks kept : List BcBlock}
    (h : blocksToStore pending blocks = .ok kept) :
    ∀ block ∈ kept, block ∈ blocks ∨ block ∈ pending ∧
      ∃ upperBound ∈ (sortDescending (·.height) blocks).head?,
        block.previousHash = upperBound.hash := by
  unfold blocksToStore at h
  split at h
  · obtain ⟨⟨valid, sorted⟩, hvalid, h⟩ := bind_ok.1 h
    cases valid with
    | true => exact Except.ok.inj h ▸ validateBlockSequenceInline_mem hvalid
    | false => cases h
  · cases h
    exact fun block hmem => .inl hmem

theorem pendingBlock_eq_some {db : Database} {blocks : List BcBlock} {block : BcBlock}
    (h : pendingBlock db blocks = some block) :
    ∃ upperBound ∈ (sortDescending (·.height) blocks).head?,
      db (blockText (some "pending") upperBound.height) = some (.bcBlock block) := by
  unfold pendingBlock at h
  split at h
  · cases h
  · next upperBound hupper =>
      refine ⟨upperBound, hupper, ?_⟩
      split at h
      · next hpending => rw [hpending, Option.some.inj h]
      · cases h

/-- The peer answers with blocks of the chain, because its store has no others. -/
theorem FromStore.answers (hown : ∀ n, (chain n).height = n) {step : SyncStep}
    (h : FromStore wire chain step) : AnswersChain chain step := by
  intro q blocks hquery
  obtain ⟨store, conn, order, hstore, hwire, hconn, hasked⟩ := h
  rw [hasked] at hquery
  intro block hmem
  have hblocks : P2p.AllBlocks store := fun n value hvalue => ⟨_, hstore n value hvalue⟩
  obtain ⟨n, -, -, hblock⟩ := P2p.query_sound hconn hblocks hwire hquery block hmem
  rw [Value.bcBlock.inj (hstore n _ hblock), hown]

theorem putOr_downloaded (failure : Option JsError) {key : String} {value : Value}
    (h : (∃ n, key = blockText none n ∧ value = .bcBlock (chain n)) ∨
      key = "bc.block.oldest" ∧ (∃ n, value = .bcBlock (chain n)) ∨
      key = "synclock" ∧ value = .bcBlock getGenesisBlock) :
    Async.Always (Downloaded chain) (putOr failure key value) := by
  cases failure with
  | none => exact Async.Always.ofTask fun db => ⟨Downloaded.set db h, trivial⟩
  | some e => exact trivial

theorem unlock_along (result : SyncResult) : Along chain (fun _ => True) (unlock result) :=
  (Along.of_always (putOr_downloaded none (.inr (.inr ⟨rfl, rfl⟩)))).bind
    fun _ _ => Along.pure trivial

theorem blocksToStore_onChain {db : Database} (hdb : PendingOnChain chain db)
    {blocks kept : List BcBlock} (hblocks : OnChain chain blocks)
    (hkept : blocksToStore (pendingBlock db blocks) blocks = .ok kept) :
    OnChain chain kept := by
  intro block hmem
  rcases blocksToStore_mem hkept block hmem with hanswer | ⟨hpending, highest, hhead, hhash⟩
  · exact hblocks block hanswer
  · obtain ⟨upperBound, hupper, hstored⟩ := pendingBlock_eq_some hpending
    obtain rfl : highest = upperBound := Option.mem_unique hhead hupper
    have hperm := sortDescending_perm (·.height) blocks
    have hon := hblocks highest (hperm.mem_iff.1 (List.mem_of_mem_head? hhead))
    exact hdb highest.height block hstored (hhash.trans (congrArg (·.hash) hon))

/-- The blocks of the chain are stored under their heights. -/
theorem syncSetBlocksInline_along (storing : Storing) {blocks : List BcBlock}
    (hblocks : OnChain chain blocks) :
    Along chain (OnChain chain) (syncSetBlocksInline storing none blocks) := by
  let Checked (pending : Option BcBlock) : Prop :=
    ∀ kept, blocksToStore pending blocks = .ok kept → OnChain chain kept
  have hread : Along chain Checked
      (Async.ofTask (Task.read fun db => pendingBlock db blocks)) :=
    Async.Triple.read (Downloaded.refl chain)
      fun db hdb kept hkept => blocksToStore_onChain hdb hblocks hkept
  refine hread.bind fun pending hchecked => ?_
  refine (Along.ofExcept hchecked).bind fun kept hkept => ?_
  refine (Along.of_always (Async.Always.all _ fun write hwrite => ?_)).bind
    fun _ _ => Along.pure hkept
  obtain ⟨i, hi, rfl⟩ := List.mem_mapIdx.1 hwrite
  have hblock := hkept kept[i] (List.getElem_mem hi)
  exact putOr_downloaded _ (.inl ⟨_, rfl, congrArg Value.bcBlock hblock⟩)

/-- The lowest of the blocks, if there is any, is on the chain as well. -/
theorem putOldest_along {failure : Option JsError} {blocks : List BcBlock}
    (h : OnChain chain blocks) :
    Along chain (fun _ => True) (putOldest failure blocks) := by
  refine Along.of_always ?_
  cases blocks with
  | nil => exact trivial
  | cons lowest blocks =>
      have hlowest := h lowest List.mem_cons_self
      exact putOr_downloaded _ (.inr (.inl ⟨rfl, _, congrArg Value.bcBlock hlowest⟩))

theorem download_along {step : SyncStep} (h : AnswersChain chain step) (height : Int)
    (peerId : String) {next : DatabaseM SyncResult}
    (hnext : Along chain (fun _ => True) next) :
    Along chain (fun _ => True) (download step height peerId next) := by
  refine Along.rescue ?_ fun _ => unlock_along _
  refine (Along.ofExcept (h (queryAt height))).bind fun blocks hanswer => ?_
  refine Along.rescue ?_ fun _ => Along.pure trivial
  refine (syncSetBlocksInline_along _ hanswer).bind fun kept hkept => ?_
  exact (putOldest_along hkept).bind fun _ _ => hnext

/-- Each step keeps to the chain, and so does the sync. -/
theorem stepSync_along {run : Nat → SyncStep} (hrun : ∀ k, AnswersChain chain (run k))
    (height : Int) (syncBlockHash : String) :
    Along chain (fun _ => True) (stepSync run height syncBlockHash) := by
  rw [stepSync]
  refine Along.rescue ?_ fun _ => unlock_along _
  have hget : Async.Always (Downloaded chain) (get "synclock") :=
    Task.Always.read (Downloaded.refl chain) _
  refine (Along.of_always hget).bind fun value _ => ?_
  refine (Along.ofExcept fun _ _ => trivial).bind (V := fun _ => True)
    fun syncBlock _ => ?_
  split
  · exact Along.pure trivial
  · split
    · exact unlock_along _
    · next hheight =>
        have hnext := stepSync_along (fun k => hrun (k + 1)) (lowOf height) syncBlockHash
        rw [onPeerInfo]
        split
        · exact unlock_along _
        · split
          · exact Along.rescue (unlock_along _) fun _ => Along.pure trivial
          · split
            · exact download_along (hrun 0) height _ hnext
            · exact Along.pure trivial
termination_by height.toNat
decreasing_by
  unfold lowOf
  omega

/-- **Nothing but the chain.**  Whatever becomes of its steps, a sync whose peers have
nothing under a height but the chain's block writes blocks of the chain, each under its
height and perhaps as the oldest, and resets the lock; every other key stays as it was.
What is pending behind a block of the chain has to be on the chain as well. -/
theorem stepSync_sound (hown : ∀ n, (chain n).height = n) {run : Nat → SyncStep}
    (hrun : ∀ k, FromStore wire chain (run k)) (height : Int) (syncBlockHash : String)
    {db : Database} (hpending : PendingOnChain chain db) :
    Downloaded chain db (Async.exec (stepSync run height syncBlockHash) db).2 :=
  (stepSync_along (fun k => (hrun k).answers hown) height syncBlockHash db hpending).1

end Sound

/-! ## Completeness -/

/-- The peer of a step has the chain up to `height` at least, and nothing fails. -/
structure Delivers (wire : P2p.Wire) (chain : Nat → BcBlock) (height : Int)
    (step : SyncStep) : Prop where
  serves : Serves step
  query : ∃ store top conn order, P2p.HoldsChain store chain top ∧ height ≤ (top : Nat) ∧
    wire.ReadsAll store ∧ P2p.Conn.Faithful conn ∧
    ∀ q, step.query q = P2p.callPeer wire conn (P2p.query wire order q.low q.high) store
  failures : ∀ i, step.storing.failures i = none
  oldest : step.oldest = none

/-- No block is pending. -/
def NothingPending (db : Database) : Prop :=
  ∀ n block, db (blockText (some "pending") n) ≠ some (.bcBlock block)

theorem NothingPending.onChain {db : Database} (h : NothingPending db)
    (chain : Nat → BcBlock) : PendingOnChain chain db :=
  fun n block hpending => absurd hpending (h n block)

theorem NothingPending.pendingBlock {db : Database} (h : NothingPending db)
    (blocks : List BcBlock) : pendingBlock db blocks = none := by
  refine Option.eq_none_iff_forall_not_mem.2 fun block hblock => ?_
  obtain ⟨upperBound, -, hpending⟩ := pendingBlock_eq_some hblock
  exact h _ block hpending

theorem NothingPending.downloaded {chain : Nat → BcBlock} {db db' : Database}
    (h : NothingPending db) (hdownloaded : Downloaded chain db db') :
    NothingPending db' := by
  intro n block
  rw [hdownloaded.pending]
  exact h n block

/-- The database has these heights of the chain. -/
def Holds (chain : Nat → BcBlock) (low high : Int) (db : Database) : Prop :=
  ∀ n : Nat, low ≤ n → n ≤ high → db (blockText none n) = some (.bcBlock (chain n))

section Complete

variable {wire : P2p.Wire} {chain : Nat → BcBlock}

theorem blockText_inj {n m : Nat} (h : blockText none n = blockText none m) : n = m := by
  rw [blockText_eq, blockText_eq] at h
  simpa using Key.text_injective h

theorem blockText_ne_oldest (n : Nat) : blockText none n ≠ "bc.block.oldest" := by
  have holdest : "bc.block.oldest" = (Key.block .bc .oldest).text := by decide
  rw [blockText_eq, holdest]
  exact fun h => nomatch Key.text_injective h

/-- What has been stored stays. -/
theorem Holds.downloaded {low high : Int} {db db' : Database}
    (h : Holds chain low high db) (hdownloaded : Downloaded chain db db') :
    Holds chain low high db' := by
  intro n hlow hhigh
  rcases hdownloaded (blockText none n) with
    hsame | ⟨m, hkey, hvalue⟩ | ⟨hkey, -⟩ | ⟨hkey, -⟩
  · exact hsame.trans (h n hlow hhigh)
  · rw [hvalue, blockText_inj hkey]
  · exact absurd hkey (blockText_ne_oldest n)
  · exact absurd hkey.symm (synclock_ne_blockText n)

/-- What a peer that delivers answers. -/
theorem Delivers.answer {height : Int} {step : SyncStep}
    (h : Delivers wire chain height step) {q : PeerQuery} {low : Nat} (hlow : q.low = low)
    (hpos : 1 ≤ low) (hhigh : q.high ≤ height) :
    step.query q = .ok (P2p.chainRange chain low q.high.toNat) := by
  obtain ⟨store, top, conn, order, hstore, htop, hwire, hconn, hasked⟩ := h.query
  obtain ⟨hquery, -⟩ := P2p.rpc_serves hstore hconn hwire order
  rw [hasked, hquery]
  have hmin : min q.high top = q.high := by omega
  have hmax : (max 1 q.low).toNat = low := by omega
  rw [hmin, hmax]

theorem chainRange_onChain (hown : ∀ n, (chain n).height = n) (low high : Nat) :
    OnChain chain (P2p.chainRange chain low high) := by
  intro block hmem
  obtain ⟨n, -, -, rfl⟩ := P2p.chainRange_mem hmem
  rw [hown]

/-- A range has one block for each height. -/
theorem chainRange_heights (hown : ∀ n, (chain n).height = n) (low high : Nat) :
    ((P2p.chainRange chain low high).map (·.height)).Nodup := by
  rw [P2p.chainRange, List.map_map]
  refine (List.nodup_map_iff_inj_on List.nodup_range).2 fun i _ j _ hij => ?_
  have hheights : low + i = low + j := by simpa [hown] using hij
  omega

theorem Delivers.answers (hown : ∀ n, (chain n).height = n) {height : Int}
    {step : SyncStep} (h : Delivers wire chain height step) : AnswersChain chain step := by
  intro q blocks hquery
  obtain ⟨store, top, conn, order, hstore, htop, hwire, hconn, hasked⟩ := h.query
  obtain ⟨hserved, -⟩ := P2p.rpc_serves hstore hconn hwire order
  rw [hasked, hserved] at hquery
  cases hquery
  exact chainRange_onChain hown _ _

/-- Blocks that have heights of their own are all stored, if nothing fails. -/
theorem syncSetBlocksInline_stores {storing : Storing}
    (hfailures : ∀ i, storing.failures i = none) {blocks : List BcBlock}
    (hne : blocks ≠ []) (hdistinct : (blocks.map (·.height)).Nodup) {db : Database}
    (hpending : pendingBlock db blocks = none) :
    ∃ kept db', Async.exec (syncSetBlocksInline storing none blocks) db = (.ok kept, db') ∧
      kept ≠ [] ∧ OnlyBlocks none db db' ∧
      ∀ block ∈ blocks, db' (blockText none block.height) = some (.bcBlock block) := by
  -- The packages are not asked.
  let env : ProofEnv :=
    { pkg := ⟨id, fun _ _ => 0, fun _ _ => 0, fun _ => 0, fun _ => false⟩, now := 0,
      order := storing.order }
  have hstoring : storing = { order := env.order } := by
    obtain ⟨order, failures⟩ := storing
    exact congrArg (Storing.mk order) (funext hfailures)
  obtain ⟨count, store, hexec, hall⟩ :=
    @syncSetBlocksInline_exec env blocks db.store rfl hne hdistinct
  obtain ⟨result, db', hrun, hframe, hresult⟩ :=
    syncSetBlocksInline_cases storing none blocks db
  have hsame := @syncSetBlocksInline_store env blocks db hpending.symm
  rw [← hstoring, hexec, hrun] at hsame
  cases result with
  | error e => cases hsame
  | ok kept =>
      cases hsame
      refine ⟨kept, db', hrun, fun hnil => hne ?_, hframe, hall⟩
      obtain ⟨stored, hstored, hperm⟩ := blocksToStore_perm hne
      have hkept := ((hresult kept).1 rfl).1
      rw [hpending, hstored, hnil] at hkept
      rw [Except.ok.inj hkept] at hperm
      exact hperm.nil_eq.symm

/-- With a peer that delivers, the next step starts with the blocks stored. -/
theorem exec_download_of_delivers (hown : ∀ n, (chain n).height = n) {height : Int}
    (hheight : 3 ≤ height) {step : SyncStep} (h : Delivers wire chain height step)
    (peerId : String) {next : DatabaseM SyncResult}
    (hnext : ∀ db, ∃ result db', Async.exec next db = (.ok result, db')) {db : Database}
    (hpending : NothingPending db) :
    ∃ db', db' "synclock" = db "synclock" ∧ NothingPending db' ∧
      Async.exec (download step height peerId next) db = Async.exec next db' ∧
      Holds chain (lowOf height) height db' := by
  have htwo := two_le_lowOf height
  have hless := lowOf_lt hheight
  have hlow : (lowOf height).toNat = lowOf height := Int.toNat_of_nonneg (by omega)
  have hquery : step.query (queryAt height) =
      .ok (P2p.chainRange chain (lowOf height).toNat height.toNat) :=
    h.answer hlow.symm (by omega) (Int.le_refl height)
  have hmem (n : Nat) (hn : lowOf height ≤ n) (hn' : (n : Int) ≤ height) :
      chain n ∈ P2p.chainRange chain (lowOf height).toNat height.toNat := by
    refine List.mem_map.2 ⟨n - (lowOf height).toNat, List.mem_range.2 (by omega), ?_⟩
    congr 1
    omega
  obtain ⟨kept, db₁, hexec, hkept, hframe, hall⟩ := syncSetBlocksInline_stores h.failures
    (List.ne_nil_of_mem (hmem height.toNat (by omega) (by omega)))
    (chainRange_heights hown _ _) (hpending.pendingBlock _)
  have hholds : Holds chain (lowOf height) height db₁ := by
    intro n hn hn'
    have hblock := hall (chain n) (hmem n hn hn')
    rwa [hown] at hblock
  cases kept with
  | nil => exact absurd rfl hkept
  | cons lowest kept =>
      obtain ⟨last, db₂, hlast⟩ := hnext (db₁.set "bc.block.oldest" (.bcBlock lowest))
      refine ⟨db₁.set "bc.block.oldest" (.bcBlock lowest), ?_, fun n block => ?_, ?_,
        fun n hn hn' => ?_⟩
      · rw [set_ne (by decide)]
        exact hframe "synclock" synclock_ne_blockText
      · rw [set_ne (blockText_pending_ne (by decide) n), hframe _ fun other =>
          blockText_pending_ne (by rw [blockText_none_head]; decide) n]
        exact hpending n block
      · simp only [download, Async.exec_rescue, Async.exec_bind, hquery,
          Async.exec_ofExcept, hexec, putOldest, h.oldest, putOr, exec_put, hlast]
      · rw [set_ne (blockText_ne_oldest n)]
        exact hholds n hn hn'

/-- The blocks of the steps meet: each goes down to where the next starts. -/
theorem stepSync_holds (hown : ∀ n, (chain n).height = n) {run : Nat → SyncStep}
    {height : Int} (hheight : 3 ≤ height) (hrun : ∀ k, Delivers wire chain height (run k))
    {lock : BcBlock} (hone : lock.height ≠ 1) {db : Database}
    (hlock : db "synclock" = some (.bcBlock lock)) (hpending : NothingPending db) :
    let db' := (Async.exec (stepSync run height lock.hash) db).2
    Holds chain 2 height db' ∧ db' "synclock" = some (.bcBlock getGenesisBlock) := by
  obtain ⟨peerId, hpeer, hslow⟩ := (hrun 0).serves
  have hnext := stepSync_resolves (fun k => run (k + 1)) (lowOf height) lock.hash
  obtain ⟨db₁, hkept, hnothing, hexec, hholds⟩ := exec_download_of_delivers hown hheight
    (hrun 0) peerId hnext hpending
  have hrest : (Async.exec (stepSync run height lock.hash) db).2 =
      (Async.exec (stepSync (fun k => run (k + 1)) (lowOf height) lock.hash) db₁).2 := by
    obtain ⟨result, last, hlast⟩ := hnext db₁
    rw [exec_stepSync hheight hlock, onPeerInfo_of_serves hpeer hslow, if_pos hone,
      Async.exec_rescue, hexec, hlast]
  obtain ⟨hdownloaded, -⟩ := stepSync_along (fun k => (hrun (k + 1)).answers hown)
    (lowOf height) lock.hash db₁ (hnothing.onChain chain)
  dsimp only
  rw [hrest]
  by_cases hlow : 3 ≤ lowOf height
  · have hless : ∀ k, Delivers wire chain (lowOf height) (run (k + 1)) := by
      intro k
      obtain ⟨store, top, conn, order, hstore, htop, hquery⟩ := (hrun (k + 1)).query
      have hbelow := Int.le_trans (Int.le_of_lt (lowOf_lt hheight)) htop
      exact { hrun (k + 1) with
        query := ⟨store, top, conn, order, hstore, hbelow, hquery⟩ }
    obtain ⟨hbelow, hreset⟩ := stepSync_holds hown hlow hless hone (hkept.trans hlock)
      hnothing
    refine ⟨fun n hn hn' => ?_, hreset⟩
    rcases Int.le_total n (lowOf height) with hle | hge
    · exact hbelow n hn hle
    · exact hholds.downloaded hdownloaded n hge hn'
  · have htwo : lowOf height = 2 :=
      Int.le_antisymm (Int.lt_add_one_iff.1 (Int.not_le.1 hlow)) (two_le_lowOf height)
    rw [← htwo]
    exact ⟨hholds.downloaded hdownloaded,
      stepSync_completes (Int.not_le.1 hlow) (hkept.trans hlock)⟩
termination_by height.toNat
decreasing_by
  unfold lowOf
  omega

/-- **The whole chain.**  A sync that starts at a height of at least three, with a lock
that is no block of height one and nothing pending, ends with the chain from height two up
to there in the database and the lock reset, if in each of its steps a peer that is known
and not slow has the chain up to that height and nothing fails. -/
theorem stepSync_downloads (hown : ∀ n, (chain n).height = n) {run : Nat → SyncStep}
    {height : Int} (hheight : 3 ≤ height) (hrun : ∀ k, Delivers wire chain height (run k))
    {lock : BcBlock} (hone : lock.height ≠ 1) {db : Database}
    (hlock : db "synclock" = some (.bcBlock lock)) (hpending : NothingPending db) :
    let db' := (Async.exec (stepSync run height lock.hash) db).2
    Holds chain 2 height db' ∧ db' "synclock" = some (.bcBlock getGenesisBlock) ∧
      Downloaded chain db db' := by
  obtain ⟨hholds, hreset⟩ := stepSync_holds hown hheight hrun hone hlock hpending
  obtain ⟨hdownloaded, -⟩ := stepSync_along (fun k => (hrun k).answers hown) height
    lock.hash db (hpending.onChain chain)
  exact ⟨hholds, hreset, hdownloaded⟩

end Complete

/-- A peer with three blocks. -/
def sampleServing : SyncStep where
  peerInfo := .ok "peer"
  query := fun q => P2p.callPeer P2p.sampleWire .ok
    (P2p.query P2p.sampleWire [] q.low q.high) P2p.sampleChain

theorem sampleServing_fromStore :
    FromStore P2p.sampleWire P2p.sampleTip sampleServing := by
  refine ⟨P2p.sampleChain, .ok, [], fun n value h => ?_, P2p.sampleChain_reads,
    fun _ _ h => (Except.ok.inj h).symm, fun _ => rfl⟩
  exact (P2p.sampleChain_eq h).2

theorem sampleLocked_nothingPending : NothingPending sampleLocked := by
  intro n block
  rw [sampleLocked, set_ne (blockText_pending_ne (by decide) n)]
  nofun

/-- Asked for nine blocks, it has no answer but its own three. -/
theorem stepSync_sound_sample :
    Downloaded P2p.sampleTip sampleLocked
      (Async.exec (stepSync (fun _ => sampleServing) 9 "lock") sampleLocked).2 :=
  stepSync_sound (fun _ => rfl) (fun _ => sampleServing_fromStore) 9 "lock"
    (sampleLocked_nothingPending.onChain _)

theorem stepSync_downloads_sample :
    let db' := (Async.exec (stepSync (fun _ => sampleServing) 3 "lock") sampleLocked).2
    Holds P2p.sampleTip 2 3 db' ∧ db' "synclock" = some (.bcBlock getGenesisBlock) := by
  have hdelivers : Delivers P2p.sampleWire P2p.sampleTip 3 sampleServing :=
    { serves := ⟨"peer", rfl, rfl⟩
      query := ⟨P2p.sampleChain, 3, .ok, [], P2p.sampleChain_holds, Int.le_refl 3,
        P2p.sampleChain_reads, fun _ => rfl, fun _ => rfl⟩
      failures := fun _ => rfl
      oldest := rfl }
  obtain ⟨hholds, hreset, -⟩ := @stepSync_downloads P2p.sampleWire P2p.sampleTip
    (fun _ => rfl) (fun _ => sampleServing) 3 (Int.le_refl 3) (fun _ => hdelivers)
    sampleLock (by decide) sampleLocked rfl sampleLocked_nothingPending
  exact ⟨hholds, hreset⟩

end BcNode.Engine.Sync
