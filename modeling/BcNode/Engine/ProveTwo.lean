import BcNode.Engine.SyncBlocks

/-!
# Proving a block by what is below it

`proveTwo` asks a peer for the blocks below `bc.depth`.  While the peer is busy with
them, its lock `bc.peer.<id>` is 1 and the depth is raised, so that a block that comes
meanwhile does not ask again; three handlers are there to undo both.

The innermost follows the storing of the blocks, and whatever fails behind it falls
through to the next one, which starts over from the depth read at the beginning.
`proveTwo_restores` follows every way through them.

What `putPending` promotes does not get in the way, by an invariant of the database: its
pending keys are those of blocks.  The calls keep it: `calls_pendingBlocks`.
-/

namespace BcNode.Engine.Sync

open BcNode.Verified BcNode.Js BcNode.Protos BcNode.Bc BcNode.Persistence

/-! ## `proveTwo` -/

/-- What a call meets: the peer's id, what the peer answers, what the storing of the
blocks meets, the keys that the iterator of `putPending` gets to if they are in the
database, and how `putPending` ends. -/
structure ProveEnv where
  peerInfo : Except JsError String
  query : PeerQuery → Except JsError (List BcBlock)
  storing : Storing := {}
  keys : List String := []
  settles : Except JsError Bool := .ok true

/-- What `proveTwo` resolves with. -/
inductive ProveResult where
  | answer (answer : Bool)
  | depth (depth : Int)
  deriving DecidableEq, Repr

/-- `parseInt(depthData, 10)`.  Nothing but an integer is ever put under the key. -/
def parseDepth : Value → Except JsError Int
  | .number depth => .ok depth
  | _ => .error .typeError

/-- `peerLockKey`. -/
def peerLockKey (peerId : String) : String := "bc.peer." ++ peerId

/-- `upperBound`. -/
def upperBound (depth : Int) : Int := max depth 2 + 1

/-- `lowBound`. -/
def lowBound (depth : Int) : Int := max (depth - 1000) 2

/-- `query`. -/
def proofQuery (newBlock : BcBlock) (depth : Int) : PeerQuery where
  queryHash := newBlock.hash
  queryHeight := newBlock.height
  low := lowBound depth
  high := upperBound depth

/-- What the iterator gives: keys of the database it starts with. -/
def iterated (env : ProveEnv) (db : Database) : List String :=
  env.keys.filter fun key => (db key).isSome

/-- `persistence.putPending('bc')`. -/
def putPendingBc (env : ProveEnv) : DatabaseM ProveResult := do
  Async.ofTask (Task.modify fun db => (putPending "bc" (iterated env db) db).2)
  let answer ← Async.ofExcept env.settles
  return .answer answer

/-- What follows the query: the blocks are stored and promoted.  Of the handlers, those
inside only throw again. -/
def storeProof (env : ProveEnv) (lockKey : String) (depth : Int) (blocks : List BcBlock) :
    DatabaseM ProveResult :=
  Async.rescue (do
    let _ ← syncSetBlocksInline env.storing (some "pending") blocks
    Async.rescue (do
      put lockKey (.number 0)
      Async.rescue (do
        put "bc.depth" (.number 2)
        putPendingBc env)
        fun e : JsError => throw e)
      fun e : JsError => throw e)
    fun _ => Async.rescue (do
      put lockKey (.number 0)
      put "bc.depth" (.number depth)
      return .answer false)
      fun e : JsError => do
        put "bc.depth" (.number depth)
        throw e

/-- What is done with the peer once it is known. -/
def askPeer (env : ProveEnv) (newBlock : BcBlock) (depth : Int) (peerId : String) :
    DatabaseM ProveResult := do
  let peerLock ← Async.rescue (get (peerLockKey peerId)) fun _ => return .number 0
  if peerLock = .number 1 then return .answer true
  else do
    put (peerLockKey peerId) (.number 1)
    put "bc.depth" (.number (upperBound depth))
    Async.rescue (do
      let blocks ← Async.ofExcept (env.query (proofQuery newBlock depth))
      storeProof env (peerLockKey peerId) depth blocks)
      fun _ : JsError => do
        put (peerLockKey peerId) (.number 0)
        put "bc.depth" (.number depth)
        return .depth depth

/-- `proveTwo`. -/
def proveTwo (env : ProveEnv) (newBlock : BcBlock) : DatabaseM ProveResult :=
  Async.rescue (do
    let depthData ← get "bc.depth"
    let depth ← Async.ofExcept (parseDepth depthData)
    if depth = 2 then return .answer true
    else match env.peerInfo with
      | .error err => throw err
      | .ok peerId => askPeer env newBlock depth peerId)
    fun err : JsError => throw err

/-! ## Keys -/

theorem peerLockKey_head (peerId : String) : (peerLockKey peerId).toList[0]? = some 'b' := by
  rw [peerLockKey, String.toList_append]
  rfl

theorem peerLockKey_ne_depth (peerId : String) : peerLockKey peerId ≠ "bc.depth" := by
  refine @text_ne _ _ 3 ?_
  rw [peerLockKey, String.toList_append]
  exact fun h => by cases h

theorem blockText_ne_depth (height : Nat) : blockText none height ≠ "bc.depth" := by
  refine @text_ne _ _ 3 ?_
  rw [blockText, String.toList_append]
  exact fun h => by cases h

theorem blockText_ne_peerLockKey (height : Nat) (peerId : String) :
    blockText none height ≠ peerLockKey peerId := by
  refine @text_ne _ _ 3 ?_
  rw [blockText, peerLockKey, String.toList_append, String.toList_append]
  exact fun h => by cases h

/-- Where `putPending` puts the value of a key. -/
def promoted (key : String) : String :=
  String.ofList (removeFirst "pending.".toList key.toList)

/-- A pending block is promoted to where the block belongs. -/
theorem promoted_blockText (height : Nat) :
    promoted (blockText (some "pending") height) = blockText none height := by
  refine String.toList_injective ?_
  rw [promoted, String.toList_ofList, blockText, blockText]
  simp only [String.toList_append]
  rfl

/-- The lock of a peer could only be promoted to that of another. -/
theorem promoted_peerLockKey (peerId : String) :
    promoted (peerLockKey peerId) = peerLockKey (promoted peerId) := by
  refine String.toList_injective ?_
  simp only [promoted, peerLockKey, String.toList_append, String.toList_ofList]
  rfl

/-- What is pending is promoted to another key. -/
theorem promoted_ne {key : String} (h : isPending "bc" key = true) : promoted key ≠ key := by
  have hpart : "pending.".toList <:+: key.toList := by
    have hprefix : "pending.".toList <+: ("pending." ++ "bc").toList := by decide
    exact hprefix.isInfix.trans (decide_eq_true_iff.1 h)
  have hshorter := length_removeFirst_lt (by decide) hpart
  intro hsame
  have hlength := congrArg (fun text => text.toList.length) hsame
  rw [promoted, String.toList_ofList] at hlength
  omega

/-- No pending key is promoted to `other`. -/
def Spares (keys : List String) (other : String) : Prop :=
  ∀ key ∈ keys, isPending "bc" key → promoted key ≠ other

theorem putPending_spares {keys : List String} {other : String} (h : Spares keys other)
    (db : Database) : (putPending "bc" keys db).2 other = db other := by
  induction keys generalizing db with
  | nil => rfl
  | cons key keys ih =>
      have hkeys : Spares keys other := fun k hk => h k (List.mem_cons_of_mem _ hk)
      rw [putPending]
      split
      · next hpending =>
          split
          · rfl
          · rw [ih hkeys]
            exact set_ne (h key List.mem_cons_self hpending).symm _ _
      · rfl

/-! ## What is pending -/

/-- The pending keys of the database are those of blocks. -/
def PendingBlocks (db : Database) : Prop :=
  ∀ key, db key ≠ none → isPending "bc" key = true →
    ∃ height, key = blockText (some "pending") height

/-- The same of all keys but one: an id with `pending.bc` in it would make the lock of its
peer look pending. -/
def PendingBlocksBut (lockKey : String) (db : Database) : Prop :=
  ∀ key, key ≠ lockKey → db key ≠ none → isPending "bc" key = true →
    ∃ height, key = blockText (some "pending") height

theorem PendingBlocks.but {db : Database} (h : PendingBlocks db) (lockKey : String) :
    PendingBlocksBut lockKey db := fun key _ => h key

section But

variable {lockKey : String} {db db' : Database}

/-- Any other key may be written that is not pending or is that of a block. -/
theorem PendingBlocksBut.set (h : PendingBlocksBut lockKey db) {key : String}
    (hkey : key ≠ lockKey → isPending "bc" key = true →
      ∃ height, key = blockText (some "pending") height)
    (value : Value) : PendingBlocksBut lockKey (db.set key value) := by
  intro other hother hstored hpending
  by_cases hsame : other = key
  · subst hsame
    exact hkey hother hpending
  · rw [set_ne hsame] at hstored
    exact h other hother hstored hpending

theorem PendingBlocksBut.set_lock (h : PendingBlocksBut lockKey db) (value : Value) :
    PendingBlocksBut lockKey (db.set lockKey value) :=
  h.set (fun hne => absurd rfl hne) value

theorem PendingBlocksBut.set_depth (h : PendingBlocksBut lockKey db) (value : Value) :
    PendingBlocksBut lockKey (db.set "bc.depth" value) :=
  h.set (fun _ hpending => absurd hpending (by decide)) value

theorem OnlyBlocks.pendingBlocksBut (h : OnlyBlocks (some "pending") db db')
    (hdb : PendingBlocksBut lockKey db) : PendingBlocksBut lockKey db' := by
  intro key hother hstored hpending
  by_contra hblock
  rw [h key fun height hheight => hblock ⟨height, hheight⟩] at hstored
  exact hblock (hdb key hother hstored hpending)

/-- What `putPending` comes to is promoted to blocks, and perhaps from the lock. -/
theorem PendingBlocksBut.spares (h : PendingBlocksBut lockKey db) (env : ProveEnv)
    {other : String} (hblock : ∀ height, blockText none height ≠ other)
    (hlock : isPending "bc" lockKey = true → promoted lockKey ≠ other) :
    Spares (iterated env db) other := by
  intro key hkey hpending
  have hstored := Option.isSome_iff_ne_none.1 (List.mem_filter.1 hkey).2
  by_cases hown : key = lockKey
  · subst hown
    exact hlock hpending
  · obtain ⟨height, rfl⟩ := h key hown hstored hpending
    rw [promoted_blockText]
    exact hblock height

end But

/-! ## The lock and the depth -/

/-- Lock and depth are as they are to be left: the depth is the one read, or it is 2 and
the blocks are stored. -/
structure Settled (before : Database) (env : ProveEnv) (depth : Int) (peerId : String)
    (received : Except JsError (List BcBlock)) (db : Database) : Prop where
  unlocked : db (peerLockKey peerId) = some (.number 0)
  restored : db "bc.depth" = some (.number depth) ∨
    db "bc.depth" = some (.number 2) ∧
      ∃ blocks kept, received = .ok blocks ∧ Stored before env.storing blocks kept

/-- What the handlers write. -/
theorem settled_reset (before : Database) (env : ProveEnv) (depth : Int) (peerId : String)
    (received : Except JsError (List BcBlock)) (db : Database) :
    Settled before env depth peerId received
      ((db.set (peerLockKey peerId) (.number 0)).set "bc.depth" (.number depth)) where
  unlocked := by rw [set_ne (peerLockKey_ne_depth peerId), set_self]
  restored := .inl (set_self ..)

section Proof

variable {before : Database} {env : ProveEnv} {depth : Int} {peerId : String}

/-- Once the blocks are stored, the depth is 2, and `putPending` does not change it. -/
theorem exec_putPendingBc {blocks kept : List BcBlock}
    (hstored : Stored before env.storing blocks kept) {db : Database}
    (hdb : PendingBlocksBut (peerLockKey peerId) db) :
    ∃ db', Async.exec (putPendingBc env)
        ((db.set (peerLockKey peerId) (.number 0)).set "bc.depth" (.number 2)) =
      (env.settles.map .answer, db') ∧
        Settled before env depth peerId (.ok blocks) db' := by
  have hset := (hdb.set_lock (.number 0)).set_depth (.number 2)
  have hlock := hset.spares env (fun height => blockText_ne_peerLockKey height peerId)
    promoted_ne
  have hdepth := hset.spares env blockText_ne_depth fun _ => by
    rw [promoted_peerLockKey]
    exact peerLockKey_ne_depth _
  generalize hkept : (db.set (peerLockKey peerId) (.number 0)).set "bc.depth"
    (.number 2) = db' at hlock hdepth ⊢
  refine ⟨(putPending "bc" (iterated env db') db').2, ?_, ?_, ?_⟩
  · rw [putPendingBc, Async.exec_bind, Async.exec_ofTask]
    cases env.settles <;> rfl
  · rw [putPending_spares hlock, ← hkept, set_ne (peerLockKey_ne_depth peerId), set_self]
  · rw [putPending_spares hdepth, ← hkept, set_self]
    exact .inr ⟨rfl, blocks, kept, rfl, hstored⟩

/-- The handler next to the storing catches everything that fails behind it. -/
theorem exec_storeProof (blocks : List BcBlock) {db : Database}
    (hbefore : pendingBlock db = pendingBlock before)
    (hdb : PendingBlocksBut (peerLockKey peerId) db) :
    ∃ result db', Async.exec (storeProof env (peerLockKey peerId) depth blocks) db =
        (.ok result, db') ∧ Settled before env depth peerId (.ok blocks) db' := by
  obtain ⟨result, db₁, hexec, honly, hresult⟩ :=
    syncSetBlocksInline_cases env.storing (some "pending") blocks db
  cases result with
  | error e =>
      refine ⟨.answer false, _, ?_, settled_reset before env depth peerId _ db₁⟩
      simp only [storeProof, Async.exec_rescue, Async.exec_bind, hexec, exec_put,
        Async.exec_pure]
  | ok kept =>
      have hstored := (Stored.congr hbefore env.storing blocks kept).1 ((hresult kept).1 rfl)
      obtain ⟨db₂, hpending, hsettled⟩ := @exec_putPendingBc before env depth peerId blocks
        kept hstored db₁ (honly.pendingBlocksBut hdb)
      cases hsettles : env.settles with
      | ok answer =>
          refine ⟨.answer answer, db₂, ?_, hsettled⟩
          simp only [storeProof, Async.exec_rescue, Async.exec_bind, hexec, exec_put,
            hpending, hsettles, Except.map]
      | error e =>
          -- The rejection falls through the two handlers that throw it again.
          refine ⟨.answer false, _, ?_, settled_reset before env depth peerId _ db₂⟩
          simp only [storeProof, Async.exec_rescue, Async.exec_bind, hexec, exec_put,
            hpending, hsettles, Except.map, Async.exec_throw, Async.exec_pure]

/-- The lock of a peer that has none is read as zero. -/
theorem exec_peerLock (hfree : before (peerLockKey peerId) ≠ some (.number 1)) :
    ∃ peerLock, peerLock ≠ .number 1 ∧
      Async.exec (Async.rescue (get (peerLockKey peerId))
        fun _ => (return .number 0 : DatabaseM Value)) before = (.ok peerLock, before) := by
  cases hvalue : before (peerLockKey peerId) with
  | none =>
      refine ⟨.number 0, by decide, ?_⟩
      rw [Async.exec_rescue, Async.exec, get, ExceptT.run_mk, Task.run_read, hvalue]
      rfl
  | some value =>
      refine ⟨value, fun h => hfree (by rw [hvalue, h]), ?_⟩
      rw [Async.exec_rescue, exec_get_of_some hvalue]

/-- A peer that is not busy is asked, and then lock and depth are settled. -/
theorem exec_askPeer (newBlock : BcBlock)
    (hfree : before (peerLockKey peerId) ≠ some (.number 1))
    (hbefore : PendingBlocks before) :
    ∃ result db', Async.exec (askPeer env newBlock depth peerId) before =
        (.ok result, db') ∧
      Settled before env depth peerId (env.query (proofQuery newBlock depth)) db' := by
  obtain ⟨peerLock, hne, hexec⟩ := exec_peerLock hfree
  cases hquery : env.query (proofQuery newBlock depth) with
  | error e =>
      refine ⟨.depth depth, _, ?_, settled_reset before env depth peerId _
        ((before.set (peerLockKey peerId) (.number 1)).set "bc.depth"
          (.number (upperBound depth)))⟩
      rw [askPeer, Async.exec_bind, hexec]
      simp only [if_neg hne, Async.exec_bind, exec_put, Async.exec_rescue, hquery,
        Async.exec_ofExcept, Async.exec_pure]
  | ok blocks =>
      have hpending : pendingBlock ((before.set (peerLockKey peerId) (.number 1)).set
          "bc.depth" (.number (upperBound depth))) = pendingBlock before := by
        rw [pendingBlock_set (by decide), pendingBlock_set]
        rw [peerLockKey_head]
        decide
      have hasked := ((hbefore.but (peerLockKey peerId)).set_lock (.number 1)).set_depth
        (.number (upperBound depth))
      obtain ⟨result, db', hstore, hsettled⟩ :=
        @exec_storeProof before env depth peerId blocks _ hpending hasked
      refine ⟨result, db', ?_, hsettled⟩
      rw [askPeer, Async.exec_bind, hexec]
      simp only [if_neg hne, Async.exec_bind, exec_put, Async.exec_rescue, hquery,
        Async.exec_ofExcept, hstore]

end Proof

/-- What is left of a call that has asked a peer. -/
structure Restored (before : Database) (env : ProveEnv) (newBlock : BcBlock) (depth : Int)
    (peerId : String) (db : Database) : Prop where
  unlocked : db (peerLockKey peerId) = some (.number 0)
  restored : db "bc.depth" = some (.number 2) ∨ db "bc.depth" = some (.number depth)
  stored : db "bc.depth" = some (.number 2) →
    ∃ blocks kept, env.query (proofQuery newBlock depth) = .ok blocks ∧
      Stored before env.storing blocks kept

/-- **`proveTwo` restores the lock and the depth.**  However the query, the storing of the
blocks and `putPending` end, the peer is free again, and the depth is the one read at the
beginning or, with the blocks stored, 2. -/
theorem proveTwo_restores (env : ProveEnv) (newBlock : BcBlock) {db : Database}
    {depth : Int} {peerId : String} (hdepth : db "bc.depth" = some (.number depth))
    (hne : depth ≠ 2) (hpeer : env.peerInfo = .ok peerId)
    (hfree : db (peerLockKey peerId) ≠ some (.number 1)) (hpending : PendingBlocks db) :
    Restored db env newBlock depth peerId (Async.exec (proveTwo env newBlock) db).2 := by
  obtain ⟨result, db', hexec, hsettled⟩ := @exec_askPeer db env depth peerId newBlock hfree
    hpending
  have hrun : (Async.exec (proveTwo env newBlock) db).2 = db' := by
    simp only [proveTwo, Async.exec_rescue, Async.exec_bind, exec_get_of_some hdepth,
      parseDepth, Async.exec_ofExcept, if_neg hne, hpeer, hexec]
  rw [hrun]
  refine ⟨hsettled.unlocked, hsettled.restored.symm.imp_left And.left, fun htwo => ?_⟩
  rcases hsettled.restored with hread | ⟨-, hstored⟩
  · rw [hread] at htwo
    exact absurd (Value.number.inj (Option.some.inj htwo)) hne
  · exact hstored

/-- A depth of 9, and a block that is pending. -/
def sampleDepth : Database :=
  Database.set (Database.set (fun _ => none) "bc.depth" (.number 9))
    "pending.bc.block.7" (.bcBlock { height := 7 })

theorem sampleDepth_pendingBlocks : PendingBlocks sampleDepth := by
  intro key hkey hpending
  rw [sampleDepth, Database.set, Function.update_apply] at hkey
  split at hkey
  · next hblock => exact ⟨7, hblock.trans (by decide)⟩
  · rw [Database.set, Function.update_apply] at hkey
    split at hkey
    · next hdepth =>
        rw [hdepth] at hpending
        exact absurd hpending (by decide)
    · exact absurd rfl hkey

/-- One block comes and is stored, both are promoted, and then `putPending` fails. -/
def sampleProof : ProveEnv where
  peerInfo := .ok "peer"
  query := fun _ => .ok [{ height := 8 }]
  keys := ["pending.bc.block.7", "pending.bc.block.8"]
  settles := .error (.error "IO error")

theorem proveTwo_restores_sample :
    Restored sampleDepth sampleProof { height := 20 } 9 "peer"
      (Async.exec (proveTwo sampleProof { height := 20 }) sampleDepth).2 :=
  proveTwo_restores sampleProof { height := 20 } rfl (by decide) rfl (by decide)
    sampleDepth_pendingBlocks

/-! ## The invariant -/

/-- An id has no dot, so no lock looks pending. -/
theorem isPending_peerLockKey {peerId : String} (h : '.' ∉ peerId.toList) :
    isPending "bc" (peerLockKey peerId) = false := by
  refine decide_eq_false fun hinfix => ?_
  rw [peerLockKey, String.toList_append] at hinfix
  have hdot : '.' ∈ ("pending." ++ "bc").toList := by decide
  have hpart : ("pending." ++ "bc").toList <:+: peerId.toList := by
    simpa [List.infix_cons_iff] using hinfix
  exact h (hpart.subset hdot)

/-- Neither does the key of a block that is not. -/
theorem isPending_blockText (height : Nat) :
    isPending "bc" (blockText none height) = false := by
  refine decide_eq_false fun hinfix => ?_
  have hmem : 'p' ∈ (blockText none height).toList := hinfix.subset (by decide)
  rw [blockText, String.toList_append] at hmem
  rcases List.mem_append.1 hmem with hword | hdigit
  · exact absurd hword (by decide)
  · exact absurd (Decimal.isDigit_of_mem_toString hdigit) (by decide)

theorem PendingBlocks.set {db : Database} (h : PendingBlocks db) {key : String}
    (hkey : isPending "bc" key = false) (value : Value) :
    PendingBlocks (db.set key value) := by
  intro other hother hpending
  have hne : other ≠ key := by
    rintro rfl
    exact absurd (hkey.symm.trans hpending) (by decide)
  rw [set_ne hne] at hother
  exact h other hother hpending

theorem putPending_pendingBlocks {keys : List String} {db : Database}
    (h : PendingBlocks db) : PendingBlocks (putPending "bc" keys db).2 := by
  induction keys generalizing db with
  | nil => exact h
  | cons key keys ih =>
      rw [putPending]
      by_cases hpending : isPending "bc" key = true
      · rw [if_pos hpending]
        cases hstored : db key with
        | none => exact h
        | some res =>
            obtain ⟨height, rfl⟩ := h key (hstored ▸ Option.some_ne_none res) hpending
            refine ih (h.set ?_ res)
            exact (congrArg (isPending "bc") (promoted_blockText height)).trans
              (isPending_blockText height)
      · rw [if_neg hpending]
        exact h

/-- Steps that keep what is pending blocks. -/
def KeepsPending (db db' : Database) : Prop := PendingBlocks db → PendingBlocks db'

theorem KeepsPending.refl (db : Database) : KeepsPending db db := id

theorem KeepsPending.trans (a b c : Database) (h : KeepsPending a b)
    (h' : KeepsPending b c) : KeepsPending a c := h' ∘ h

theorem put_keeps {key : String} (hkey : isPending "bc" key = false) (value : Value) :
    Async.Always KeepsPending (put key value) :=
  Async.Always.ofTask fun _ => ⟨fun h => h.set hkey value, trivial⟩

theorem storing_keeps (storing : Storing) (blocks : List BcBlock) :
    Async.Always KeepsPending (syncSetBlocksInline storing (some "pending") blocks) := by
  refine Task.Always.mono (fun db db' honly hdb key hstored hpending => ?_)
    (syncSetBlocksInline_onlyBlocks storing (some "pending") blocks)
  by_contra hblock
  rw [honly key fun height hheight => hblock ⟨height, hheight⟩] at hstored
  exact hblock (hdb key hstored hpending)

theorem putPendingBc_keeps (env : ProveEnv) :
    Async.Always KeepsPending (putPendingBc env) :=
  Async.Always.bind (Async.Always.ofTask fun _ => ⟨putPending_pendingBlocks, trivial⟩)
    fun _ => Async.Always.bind (Async.Always.ofExcept _) fun _ => trivial

section Keeps

variable {peerId : String} (hid : '.' ∉ peerId.toList)
include hid

theorem lock_keeps (value : Value) :
    Async.Always KeepsPending (put (peerLockKey peerId) value) :=
  put_keeps (isPending_peerLockKey hid) value

theorem storeProof_keeps (env : ProveEnv) (depth : Int) (blocks : List BcBlock) :
    Async.Always KeepsPending (storeProof env (peerLockKey peerId) depth blocks) := by
  have hdepth (value : Value) : Async.Always KeepsPending (put "bc.depth" value) :=
    put_keeps (by decide) value
  refine Async.Always.rescue_all ?_ fun _ => ?_
  · refine Async.Always.bind (storing_keeps _ _) fun _ => ?_
    refine Async.Always.rescue_all ?_ fun _ => trivial
    refine Async.Always.bind (lock_keeps hid _) fun _ => ?_
    refine Async.Always.rescue_all ?_ fun _ => trivial
    exact Async.Always.bind (hdepth _) fun _ => putPendingBc_keeps env
  · refine Async.Always.rescue_all ?_ fun _ => ?_
    · refine Async.Always.bind (lock_keeps hid _) fun _ => ?_
      exact Async.Always.bind (hdepth _) fun _ => trivial
    · exact Async.Always.bind (hdepth _) fun _ => trivial

theorem askPeer_keeps (env : ProveEnv) (newBlock : BcBlock) (depth : Int) :
    Async.Always KeepsPending (askPeer env newBlock depth peerId) := by
  have hdepth (value : Value) : Async.Always KeepsPending (put "bc.depth" value) :=
    put_keeps (by decide) value
  have hget : Async.Always KeepsPending (get (peerLockKey peerId)) :=
    Task.Always.read (fun _ => id) _
  refine Async.Always.bind (Async.Always.rescue_all hget fun _ => trivial) fun _ => ?_
  split
  · exact trivial
  · refine Async.Always.bind (lock_keeps hid _) fun _ => ?_
    refine Async.Always.bind (hdepth _) fun _ => ?_
    refine Async.Always.rescue_all ?_ fun _ => ?_
    · exact Async.Always.bind (Async.Always.ofExcept _) fun _ => storeProof_keeps hid env _ _
    · refine Async.Always.bind (lock_keeps hid _) fun _ => ?_
      exact Async.Always.bind (hdepth _) fun _ => trivial

end Keeps

/-- A call leaves nothing else pending than blocks. -/
theorem proveTwo_pendingBlocks (env : ProveEnv)
    (hid : ∀ peerId, env.peerInfo = .ok peerId → '.' ∉ peerId.toList)
    (newBlock : BcBlock) {db : Database} (h : PendingBlocks db) :
    PendingBlocks (Async.exec (proveTwo env newBlock) db).2 := by
  have hkeeps : Async.Always KeepsPending (proveTwo env newBlock) := by
    refine Async.Always.rescue_all ?_ fun _ => trivial
    refine Async.Always.bind (Task.Always.read (fun _ => id) _) fun _ => ?_
    refine Async.Always.bind (Async.Always.ofExcept _) fun depth => ?_
    split
    · exact trivial
    · cases hpeer : env.peerInfo with
      | error e => exact trivial
      | ok peerId => exact askPeer_keeps (hid peerId hpeer) env newBlock depth
  exact hkeeps.exec KeepsPending.refl KeepsPending.trans db h

/-- **The invariant.**  Where no other keys are pending than those of blocks, none ever will
be, however many calls there are and whatever they meet, as long as the ids of the peers
have no dot. -/
theorem calls_pendingBlocks (calls : List (ProveEnv × BcBlock))
    (hid : ∀ call ∈ calls, ∀ peerId, call.1.peerInfo = .ok peerId → '.' ∉ peerId.toList)
    {db : Database} (h : PendingBlocks db) :
    PendingBlocks (calls.foldl
      (fun db call => (Async.exec (proveTwo call.1 call.2) db).2) db) := by
  induction calls generalizing db with
  | nil => exact h
  | cons call calls ih =>
      have hcall := proveTwo_pendingBlocks call.1 (hid call List.mem_cons_self) call.2 h
      exact ih (fun other hmem => hid other (List.mem_cons_of_mem _ hmem)) hcall

end BcNode.Engine.Sync
