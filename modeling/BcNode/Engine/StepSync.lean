import BcNode.Engine.SyncBlocks

/-!
# Releasing the sync lock

`stepSync` downloads the chain from a height downwards, 2500 blocks a step, for as long
as `synclock` holds the block it has been started with.  However it ends, it is to leave
the genesis block there: whatever asks for a lock takes any other block for a sync that
is still going on.

It mostly does.  But the handler next to the storing of a step's blocks only answers
`false`, where the one around it, for the query, resets the lock.  `releasesLock_iff`
says which runs keep the lock.
-/

namespace BcNode.Engine.Sync

open BcNode.Verified BcNode.Js BcNode.Protos BcNode.Bc BcNode.Persistence

/-! ## `stepSync` -/

/-- What one step meets: the peer's id, the peers that have been slow, what the peer
answers, what the storing of the blocks meets, and how the write of the lowest of them
fails, if it does. -/
structure SyncStep where
  peerInfo : Except JsError String
  slowEvents : String → Nat := fun _ => 0
  query : PeerQuery → Except JsError (List BcBlock)
  storing : Storing := {}
  oldest : Option JsError := none

/-- What a sync resolves with, and the peer it has noted as slow. -/
structure SyncResult where
  answer : Option Bool := none
  slow : Option String := none
  deriving DecidableEq, Repr

/-- `persistence.put('synclock', getGenesisBlock())`, and then `result`. -/
def unlock (result : SyncResult) : DatabaseM SyncResult := do
  put "synclock" (.bcBlock getGenesisBlock)
  return result

/-- `persistence.put('bc.block.oldest', newBlocks[0])`.  Without a block there is
nothing to serialize. -/
def putOldest (failure : Option JsError) (newBlocks : List BcBlock) : DatabaseM Unit :=
  match newBlocks with
  | [] => throw .typeError
  | lowest :: _ => putOr failure "bc.block.oldest" (.bcBlock lowest)

/-- `low`: where the next step starts. -/
def lowOf (height : Int) : Int := max (height - 2500) 2

theorem two_le_lowOf (height : Int) : 2 ≤ lowOf height := Int.le_max_right _ _

theorem lowOf_lt {height : Int} (h : 3 ≤ height) : lowOf height < height := by
  unfold lowOf
  omega

/-- What the peer is asked for at a height. -/
def queryAt (height : Int) : PeerQuery where
  queryHash := "0000"
  queryHeight := height
  low := lowOf height
  high := height

/-- The query, with what is done about its answer.  `next` is the next step. -/
def download (step : SyncStep) (height : Int) (peerId : String)
    (next : DatabaseM SyncResult) : DatabaseM SyncResult :=
  Async.rescue (do
    let newBlocks ← Async.ofExcept (step.query (queryAt height))
    Async.rescue (do
      let newBlocks ← syncSetBlocksInline step.storing none newBlocks
      putOldest step.oldest newBlocks
      next)
      fun _ : JsError => return { answer := some false, slow := some peerId })
    fun _ => unlock { answer := some true, slow := some peerId }

/-- The callback of `getPeerInfo`. -/
def onPeerInfo (step : SyncStep) (syncBlock : BcBlock) (height : Int)
    (syncBlockHash : String) (next : DatabaseM SyncResult) : DatabaseM SyncResult :=
  match step.peerInfo with
  | .error _ => unlock {}
  | .ok peerId =>
      if step.slowEvents peerId > 0 then
        Async.rescue (unlock { answer := some true })
          fun _ : JsError => return { answer := some false }
      else if syncBlock.height ≠ 1 ∧ syncBlock.hash = syncBlockHash then
        download step height peerId next
      else return { answer := some true }

/-- `stepSync`.  Each call takes what it meets from the front of `run`. -/
def stepSync (run : Nat → SyncStep) (height : Int) (syncBlockHash : String) :
    DatabaseM SyncResult :=
  Async.rescue (do
    let syncBlock ← get "synclock"
    let syncBlock ← Async.ofExcept syncBlock.asBcBlock
    if syncBlock.hash ≠ syncBlockHash then return { answer := some false }
    else if height < 3 then unlock {}
    else
      onPeerInfo (run 0) syncBlock height syncBlockHash
        (stepSync (fun k => run (k + 1)) (lowOf height) syncBlockHash))
    fun _ : JsError => unlock {}
termination_by height.toNat
decreasing_by
  unfold lowOf
  omega

/-! ## One step -/

/-- The blocks the query brings are stored, and so is the lowest of them. -/
def Brings (db : Database) (step : SyncStep) (height : Int) : Prop :=
  ∃ blocks lowest kept, step.query (queryAt height) = .ok blocks ∧
    Stored db step.storing blocks (lowest :: kept) ∧ step.oldest = none

theorem Brings.congr {db db' : Database} (h : pendingBlock db' = pendingBlock db)
    (step : SyncStep) (height : Int) : Brings db' step height ↔ Brings db step height := by
  unfold Brings
  simp only [Stored.congr h]

theorem exec_unlock (result : SyncResult) (db : Database) :
    Async.exec (unlock result) db =
      (.ok result, db.set "synclock" (.bcBlock getGenesisBlock)) := rfl

/-- The lock is no block key. -/
theorem synclock_ne_blockText (height : Nat) : "synclock" ≠ blockText none height := by
  intro h
  have htext := congrArg String.toList h
  rw [blockText, String.toList_append] at htext
  cases htext

/-- A failing query resets the lock. -/
theorem exec_download_of_error {step : SyncStep} {height : Int} {e : JsError}
    (h : step.query (queryAt height) = .error e) (peerId : String)
    (next : DatabaseM SyncResult) (db : Database) :
    Async.exec (download step height peerId next) db =
      (.ok { answer := some true, slow := some peerId },
        db.set "synclock" (.bcBlock getGenesisBlock)) := by
  rw [download, Async.exec_rescue, Async.exec_bind, h, Async.exec_ofExcept]
  exact exec_unlock _ db

/-- With the blocks stored, the sync goes on below them. -/
theorem exec_download_of_brings {step : SyncStep} {height : Int} {db : Database}
    (h : Brings db step height) (peerId : String) {next : DatabaseM SyncResult}
    (hnext : ∀ db, ∃ result db', Async.exec next db = (.ok result, db')) :
    ∃ db', db' "synclock" = db "synclock" ∧ pendingBlock db' = pendingBlock db ∧
      Async.exec (download step height peerId next) db = Async.exec next db' := by
  obtain ⟨blocks, lowest, kept, hquery, hstored, holdest⟩ := h
  obtain ⟨result, db₁, hexec, hframe, hresult⟩ :=
    syncSetBlocksInline_cases step.storing none blocks db
  have hok := (hresult (lowest :: kept)).2 hstored
  obtain ⟨last, db₂, hlast⟩ :=
    hnext (db₁.set "bc.block.oldest" (.bcBlock lowest))
  refine ⟨db₁.set "bc.block.oldest" (.bcBlock lowest), ?_, ?_, ?_⟩
  · rw [set_ne (by decide)]
    exact hframe "synclock" synclock_ne_blockText
  · rw [pendingBlock_set (by decide), hframe.pendingBlock]
  · simp only [download, Async.exec_rescue, Async.exec_bind, hquery, Async.exec_ofExcept,
      hexec, hok, putOldest, holdest, putOr, exec_put, hlast]

/-- Where the blocks are not stored, the sync ends with the lock as it is. -/
theorem exec_download_of_not_brings {step : SyncStep} {height : Int}
    {blocks : List BcBlock} (hquery : step.query (queryAt height) = .ok blocks)
    {db : Database} (h : ¬ Brings db step height) (peerId : String)
    (next : DatabaseM SyncResult) :
    ∃ result db', Async.exec (download step height peerId next) db = (.ok result, db') ∧
      db' "synclock" = db "synclock" := by
  obtain ⟨result, db₁, hexec, hframe, hresult⟩ :=
    syncSetBlocksInline_cases step.storing none blocks db
  have hlock := hframe "synclock" synclock_ne_blockText
  refine ⟨{ answer := some false, slow := some peerId }, db₁, ?_, hlock⟩
  cases result with
  | error e =>
      simp only [download, Async.exec_rescue, Async.exec_bind, hquery,
        Async.exec_ofExcept, hexec, Async.exec_pure]
  | ok kept =>
      have hstored := (hresult kept).1 rfl
      cases kept with
      | nil =>
          simp only [download, Async.exec_rescue, Async.exec_bind, hquery,
            Async.exec_ofExcept, hexec, putOldest]
          rfl
      | cons lowest kept =>
          cases holdest : step.oldest with
          | none => exact absurd ⟨blocks, lowest, kept, hquery, hstored, holdest⟩ h
          | some e =>
              simp only [download, Async.exec_rescue, Async.exec_bind, hquery,
                Async.exec_ofExcept, hexec, putOldest, holdest, putOr]
              rfl

/-- The last handler is there for everything. -/
theorem stepSync_resolves (run : Nat → SyncStep) (height : Int) (syncBlockHash : String)
    (db : Database) :
    ∃ result db', Async.exec (stepSync run height syncBlockHash) db =
      (.ok result, db') := by
  rw [stepSync, Async.exec_rescue]
  split
  · exact ⟨_, _, rfl⟩
  · exact ⟨_, _, exec_unlock _ _⟩

/-- The peer is known, and it has not been slow. -/
def Serves (step : SyncStep) : Prop :=
  ∃ peerId, step.peerInfo = .ok peerId ∧ step.slowEvents peerId = 0

/-- The step after which there is another. -/
def Advances (db : Database) (lock : BcBlock) (step : SyncStep) (height : Int) : Prop :=
  Serves step ∧ lock.height ≠ 1 ∧ Brings db step height

/-- The step that ends the sync with the lock as it is. -/
def KeepsLock (db : Database) (lock : BcBlock) (step : SyncStep) (height : Int) : Prop :=
  Serves step ∧ (lock.height = 1 ∨
    (∃ blocks, step.query (queryAt height) = .ok blocks) ∧ ¬ Brings db step height)

section Steps

variable {run : Nat → SyncStep} {height : Int} {lock : BcBlock} {db : Database}

/-- Below height three the sync is complete. -/
theorem stepSync_completes (hheight : height < 3)
    (hlock : db "synclock" = some (.bcBlock lock)) :
    (Async.exec (stepSync run height lock.hash) db).2 "synclock" =
      some (.bcBlock getGenesisBlock) := by
  rw [stepSync]
  simp only [Async.exec_rescue, Async.exec_bind, exec_get_of_some hlock, Value.asBcBlock,
    Async.exec_ofExcept, ne_eq, not_true_eq_false, if_false, if_pos hheight, exec_unlock,
    set_self]

/-- Above it, the peer decides. -/
theorem exec_stepSync (hheight : 3 ≤ height)
    (hlock : db "synclock" = some (.bcBlock lock)) :
    Async.exec (stepSync run height lock.hash) db =
      Async.exec (Async.rescue (onPeerInfo (run 0) lock height lock.hash
        (stepSync (fun k => run (k + 1)) (lowOf height) lock.hash))
        fun _ : JsError => (unlock {} : DatabaseM SyncResult)) db := by
  have hlow : ¬ height < 3 := Int.not_lt.2 hheight
  rw [stepSync]
  simp only [Async.exec_rescue, Async.exec_bind, exec_get_of_some hlock, Value.asBcBlock,
    Async.exec_ofExcept, ne_eq, not_true_eq_false, if_false, if_neg hlow]

/-- A peer that serves is asked, unless the lock's height is that of the genesis
block. -/
theorem onPeerInfo_of_serves {step : SyncStep} {peerId : String}
    (hpeer : step.peerInfo = .ok peerId) (hslow : step.slowEvents peerId = 0)
    (next : DatabaseM SyncResult) :
    onPeerInfo step lock height lock.hash next =
      if lock.height ≠ 1 then download step height peerId next
      else return { answer := some true } := by
  rw [onPeerInfo, hpeer]
  simp only [hslow, gt_iff_lt, Nat.lt_irrefl, if_false, and_true]

theorem stepSync_advances (hheight : 3 ≤ height)
    (hlock : db "synclock" = some (.bcBlock lock)) (h : Advances db lock (run 0) height) :
    ∃ db', db' "synclock" = db "synclock" ∧ pendingBlock db' = pendingBlock db ∧
      Async.exec (stepSync run height lock.hash) db =
        Async.exec (stepSync (fun k => run (k + 1)) (lowOf height) lock.hash) db' := by
  obtain ⟨⟨peerId, hpeer, hslow⟩, hone, hbrings⟩ := h
  have hnext := stepSync_resolves (fun k => run (k + 1)) (lowOf height) lock.hash
  obtain ⟨db', hkept, hpending, hexec⟩ := exec_download_of_brings hbrings peerId hnext
  obtain ⟨result, last, hlast⟩ := hnext db'
  refine ⟨db', hkept, hpending, ?_⟩
  rw [exec_stepSync hheight hlock, onPeerInfo_of_serves hpeer hslow, if_pos hone,
    Async.exec_rescue, hexec, hlast]

theorem stepSync_keeps (hheight : 3 ≤ height)
    (hlock : db "synclock" = some (.bcBlock lock)) (h : KeepsLock db lock (run 0) height) :
    (Async.exec (stepSync run height lock.hash) db).2 "synclock" = db "synclock" := by
  obtain ⟨⟨peerId, hpeer, hslow⟩, hends⟩ := h
  rw [exec_stepSync hheight hlock, onPeerInfo_of_serves hpeer hslow, Async.exec_rescue]
  by_cases hone : lock.height = 1
  · rw [if_neg (not_not_intro hone), Async.exec_pure]
  · obtain ⟨⟨blocks, hquery⟩, hbrings⟩ := hends.resolve_left hone
    obtain ⟨result, db', hexec, hkept⟩ := exec_download_of_not_brings hquery hbrings
      peerId (stepSync (fun k => run (k + 1)) (lowOf height) lock.hash)
    rw [if_pos hone, hexec]
    exact hkept

/-- Every other step resets the lock. -/
theorem stepSync_resets (hheight : 3 ≤ height)
    (hlock : db "synclock" = some (.bcBlock lock))
    (hadvances : ¬ Advances db lock (run 0) height)
    (hkeeps : ¬ KeepsLock db lock (run 0) height) :
    (Async.exec (stepSync run height lock.hash) db).2 "synclock" =
      some (.bcBlock getGenesisBlock) := by
  rw [exec_stepSync hheight hlock]
  cases hpeer : (run 0).peerInfo with
  | error e =>
      simp only [onPeerInfo, hpeer, Async.exec_rescue, exec_unlock, set_self]
  | ok peerId =>
      by_cases hslow : (run 0).slowEvents peerId = 0
      · have hserves : Serves (run 0) := ⟨peerId, hpeer, hslow⟩
        have hone : lock.height ≠ 1 := fun hone => hkeeps ⟨hserves, .inl hone⟩
        have hbrings : ¬ Brings db (run 0) height :=
          fun h => hadvances ⟨hserves, hone, h⟩
        cases hquery : (run 0).query (queryAt height) with
        | ok blocks => exact absurd ⟨hserves, .inr ⟨⟨blocks, hquery⟩, hbrings⟩⟩ hkeeps
        | error e =>
            rw [onPeerInfo_of_serves hpeer hslow, if_pos hone, Async.exec_rescue,
              exec_download_of_error hquery]
            exact set_self db "synclock" _
      · simp only [onPeerInfo, hpeer, if_pos (Nat.pos_of_ne_zero hslow),
          Async.exec_rescue, exec_unlock, set_self]

end Steps

/-! ## Whole runs -/

/-- Some step keeps the lock, and the sync gets that far.  What is pending in `db` stays
as it is meanwhile. -/
def Stuck (db : Database) (lock : BcBlock) (run : Nat → SyncStep) (height : Int) : Prop :=
  ∃ n, (∀ k < n, Advances db lock (run k) (lowOf^[k] height)) ∧
    3 ≤ lowOf^[n] height ∧ KeepsLock db lock (run n) (lowOf^[n] height)

theorem Stuck.congr {db db' : Database} (h : pendingBlock db' = pendingBlock db)
    (lock : BcBlock) (run : Nat → SyncStep) (height : Int) :
    Stuck db' lock run height ↔ Stuck db lock run height := by
  unfold Stuck Advances KeepsLock
  simp only [Brings.congr h]

/-- The heights go down. -/
theorem le_of_le_iterate_lowOf {n : Nat} {height : Int} (h : 3 ≤ lowOf^[n] height) :
    3 ≤ height := by
  induction n generalizing height with
  | zero => exact h
  | succ n ih =>
      have hlow : 3 ≤ lowOf height := ih h
      unfold lowOf at hlow
      omega

/-- Whether a sync gets stuck is up to its first step, and then to the others. -/
theorem stuck_iff {db : Database} {lock : BcBlock} {run : Nat → SyncStep}
    {height : Int} :
    Stuck db lock run height ↔ 3 ≤ height ∧ (KeepsLock db lock (run 0) height ∨
      Advances db lock (run 0) height ∧
        Stuck db lock (fun k => run (k + 1)) (lowOf height)) := by
  constructor
  · rintro ⟨n, hadvances, hheight, hkeeps⟩
    refine ⟨le_of_le_iterate_lowOf hheight, ?_⟩
    cases n with
    | zero => exact .inl hkeeps
    | succ n =>
        exact .inr ⟨hadvances 0 (Nat.succ_pos n), n,
          fun k hk => hadvances (k + 1) (Nat.succ_lt_succ hk), hheight, hkeeps⟩
  · rintro ⟨hheight, hkeeps | ⟨hadvances, n, hrest, hlow, hkeeps⟩⟩
    · exact ⟨0, fun k hk => absurd hk k.not_lt_zero, hheight, hkeeps⟩
    · refine ⟨n + 1, fun k hk => ?_, hlow, hkeeps⟩
      cases k with
      | zero => exact hadvances
      | succ k => exact hrest k (Nat.lt_of_succ_lt_succ hk)

/-- At its end a sync that is stuck has left the lock, and any other has reset it. -/
theorem stepSync_lock (run : Nat → SyncStep) (height : Int) {lock : BcBlock}
    {db : Database} (hlock : db "synclock" = some (.bcBlock lock)) :
    Stuck db lock run height ∧
        (Async.exec (stepSync run height lock.hash) db).2 "synclock" =
          some (.bcBlock lock) ∨
      ¬ Stuck db lock run height ∧
        (Async.exec (stepSync run height lock.hash) db).2 "synclock" =
          some (.bcBlock getGenesisBlock) := by
  rw [stuck_iff]
  by_cases hheight : 3 ≤ height
  · by_cases hkeeps : KeepsLock db lock (run 0) height
    · exact .inl ⟨⟨hheight, .inl hkeeps⟩,
        (stepSync_keeps hheight hlock hkeeps).trans hlock⟩
    · by_cases hadvances : Advances db lock (run 0) height
      · obtain ⟨db', hkept, hpending, hexec⟩ := stepSync_advances hheight hlock hadvances
        have hrest := stepSync_lock (fun k => run (k + 1)) (lowOf height)
          (hkept.trans hlock)
        rw [Stuck.congr hpending] at hrest
        simpa only [hexec, hheight, hkeeps, hadvances, true_and, false_or] using hrest
      · refine .inr ⟨?_, stepSync_resets hheight hlock hadvances hkeeps⟩
        exact fun h => h.2.elim hkeeps fun hstuck => hadvances hstuck.1
  · refine .inr ⟨fun h => hheight h.1, ?_⟩
    exact stepSync_completes (Int.not_le.1 hheight) hlock
termination_by height.toNat
decreasing_by
  unfold lowOf
  omega

/-- **Which syncs release the lock.**  A sync that is stuck does not, unless the lock is
the genesis block already. -/
theorem releasesLock_iff (run : Nat → SyncStep) (height : Int) {lock : BcBlock}
    {db : Database} (hlock : db "synclock" = some (.bcBlock lock)) :
    (Async.exec (stepSync run height lock.hash) db).2 "synclock" =
        some (.bcBlock getGenesisBlock) ↔
      ¬ Stuck db lock run height ∨ lock = getGenesisBlock := by
  rcases stepSync_lock run height hlock with ⟨hstuck, hleft⟩ | ⟨hstuck, hreset⟩
  · rw [hleft, Option.some.injEq, Value.bcBlock.injEq]
    exact ⟨.inr, fun h => h.resolve_left (not_not_intro hstuck)⟩
  · exact iff_of_true hreset (.inl hstuck)

/-- A sync that holds the lock at height 10. -/
def sampleLock : BcBlock := { hash := "lock", height := 10 }

def sampleLocked : Database :=
  Database.set (fun _ => none) "synclock" (.bcBlock sampleLock)

/-- The peer does not answer. -/
def sampleSilent : SyncStep where
  peerInfo := .ok "peer"
  query := fun _ => .error (.error "no answer")

theorem sampleSilent_not_stuck :
    ¬ Stuck sampleLocked sampleLock (fun _ => sampleSilent) 10 := by
  have hbrings : ¬ Brings sampleLocked sampleSilent 10 := by
    rintro ⟨blocks, lowest, kept, hquery, -⟩
    cases hquery
  rw [stuck_iff]
  rintro ⟨-, ⟨-, hlock | ⟨⟨blocks, hquery⟩, -⟩⟩ | ⟨hadvances, -⟩⟩
  · exact absurd hlock (by decide)
  · cases hquery
  · exact hbrings hadvances.2.2

theorem releasesLock_iff_sample :
    (Async.exec (stepSync (fun _ => sampleSilent) 10 "lock") sampleLocked).2 "synclock" =
      some (.bcBlock getGenesisBlock) :=
  (@releasesLock_iff (fun _ => sampleSilent) 10 sampleLock sampleLocked rfl).2
    (.inl sampleSilent_not_stuck)

/-- One block comes, and it cannot be written. -/
def sampleUnstored : SyncStep where
  peerInfo := .ok "peer"
  query := fun _ => .ok [{ height := 9 }]
  storing := { failures := fun _ => some (.error "IO error") }

theorem sampleUnstored_keepsLock :
    KeepsLock sampleLocked sampleLock sampleUnstored 10 := by
  refine ⟨⟨"peer", rfl, rfl⟩, .inr ⟨⟨_, rfl⟩, ?_⟩⟩
  rintro ⟨blocks, lowest, kept, -, hstored, -⟩
  cases hstored.2 0 (Nat.succ_pos _)

/-- The lock of that sync stays. -/
theorem stepSync_sampleUnstored :
    ¬ ∀ (run : Nat → SyncStep) (height : Int) (lock : BcBlock) (db : Database),
      db "synclock" = some (.bcBlock lock) →
        (Async.exec (stepSync run height lock.hash) db).2 "synclock" =
          some (.bcBlock getGenesisBlock) := by
  intro hall
  have hreleased := hall (fun _ => sampleUnstored) 10 sampleLock sampleLocked rfl
  have hkept := @stepSync_keeps (fun _ => sampleUnstored) 10 sampleLock sampleLocked
    (by decide) rfl sampleUnstored_keepsLock
  have hlock : sampleLock = getGenesisBlock :=
    Value.bcBlock.inj (Option.some.inj (hkept.symm.trans hreleased))
  have hheight := congrArg (·.height) hlock
  exact absurd hheight (by decide)

end BcNode.Engine.Sync
