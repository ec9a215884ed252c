import BcNode.Engine.MultiverseProof
import BcNode.Persistence.Database

/-!
# Storing what a sync brings

`syncSetBlocksInline` checks the blocks, against the block that is pending behind them,
and starts a write for each.  A sync holds a lock in the same database while it runs, and
what becomes of the lock depends on whether the call resolves; so here the writes can
fail, and the keys are texts.

`syncSetBlocksInline_cases` is all that the callers need: the call resolves exactly when
the blocks are `Stored`, and nothing but block keys has changed either way.  Where no
write fails, it is the call of the multiverse proof, which looks at the same entries as a
store: `syncSetBlocksInline_store`.
-/

namespace BcNode.Engine.Sync

open BcNode.Verified BcNode.Js BcNode.Protos BcNode.Bc BcNode.Persistence

/-- A promise over the database. -/
abbrev DatabaseM (α : Type) := Async Database JsError α

/-- `persistence.get(key)`. -/
def get (key : String) : DatabaseM Value :=
  ExceptT.mk (Task.read fun db =>
    match db key with
    | some value => .ok value
    | none => .error (.error ("NotFound:  - " ++ key)))

/-- `persistence.put(key, value)`, which succeeds. -/
def put (key : String) (value : Value) : DatabaseM Unit :=
  Async.ofTask (Task.modify fun db => db.set key value)

/-- `persistence.put(key, value)`, which rejects with `failure` if there is one. -/
def putOr (failure : Option JsError) (key : String) (value : Value) : DatabaseM Unit :=
  match failure with
  | none => put key value
  | some e => throw e

@[simp] theorem exec_put (key : String) (value : Value) (db : Database) :
    Async.exec (put key value) db = (.ok (), db.set key value) := rfl

theorem exec_get_of_some {key : String} {value : Value} {db : Database}
    (h : db key = some value) : Async.exec (get key) db = (.ok value, db) := by
  rw [Async.exec, get, ExceptT.run_mk, Task.run_read, h]

@[simp] theorem set_self (db : Database) (key : String) (value : Value) :
    db.set key value key = some value := Function.update_self ..

theorem set_ne {key other : String} (h : other ≠ key) (db : Database) (value : Value) :
    db.set key value other = db other := Function.update_of_ne h ..

/-- What a peer is asked for: the blocks from `low` to `high`. -/
structure PeerQuery where
  queryHash : String
  queryHeight : Int
  low : Int
  high : Int
  deriving DecidableEq, Repr

/-! ## `syncSetBlocksInline` -/

/-- What the call meets: the order of the writes, and which of them fail. -/
structure Storing where
  order : List Nat := []
  failures : Nat → Option JsError := fun _ => none

/-- `'bc.block.' + height`, behind `blockKey + '.'` where there is one. -/
def blockText (blockKey : Option String) (height : Nat) : String :=
  match blockKey with
  | none => "bc.block." ++ toString height
  | some blockKey => blockKey ++ ".bc.block." ++ toString height

/-- What is pending at the height of the highest of the blocks.  Nothing but blocks is
ever put under these keys; whatever else were there, the check would do without. -/
def pendingBlock (db : Database) (blocks : List BcBlock) : Option BcBlock :=
  match (sortDescending (·.height) blocks).head? with
  | none => none
  | some upperBound =>
      match db (blockText (some "pending") upperBound.height) with
      | some (.bcBlock upperBoundChild) => some upperBoundChild
      | _ => none

/-- The writes. -/
def writes (storing : Storing) (blockKey : Option String) (blocks : List BcBlock) :
    List (DatabaseM Unit) :=
  blocks.mapIdx fun i item =>
    putOr (storing.failures i) (blockText blockKey item.height) (.bcBlock item)

/-- `syncSetBlocksInline`, with the array as the check leaves it; the call resolves with
its length. -/
def syncSetBlocksInline (storing : Storing) (blockKey : Option String)
    (blocks : List BcBlock) : DatabaseM (List BcBlock) := do
  let pending ← Async.ofTask (Task.read fun db => pendingBlock db blocks)
  let blocks ← Async.ofExcept (blocksToStore pending blocks)
  let _ ← Async.all storing.order (writes storing blockKey blocks)
  return blocks

/-- The pending block is that of the database the call starts with. -/
theorem exec_syncSetBlocksInline (storing : Storing) (blockKey : Option String)
    (blocks : List BcBlock) (db : Database) :
    Async.exec (syncSetBlocksInline storing blockKey blocks) db =
      Async.exec (do
        let blocks ← Async.ofExcept (blocksToStore (pendingBlock db blocks) blocks)
        let _ ← Async.all storing.order (writes storing blockKey blocks)
        return blocks) db := by
  rw [syncSetBlocksInline, Async.exec_bind, Async.exec_ofTask, Task.run_read]

/-- The blocks pass the check, which leaves `kept`, and none of the writes fails. -/
def Stored (db : Database) (storing : Storing) (blocks kept : List BcBlock) : Prop :=
  blocksToStore (pendingBlock db blocks) blocks = .ok kept ∧
    ∀ i < kept.length, storing.failures i = none

/-- Only block keys have changed. -/
def OnlyBlocks (blockKey : Option String) (db db' : Database) : Prop :=
  ∀ key, (∀ height, key ≠ blockText blockKey height) → db' key = db key

theorem OnlyBlocks.refl (blockKey : Option String) (db : Database) :
    OnlyBlocks blockKey db db := fun _ _ => rfl

theorem OnlyBlocks.trans {blockKey : Option String} (a b c : Database)
    (h : OnlyBlocks blockKey a b) (h' : OnlyBlocks blockKey b c) :
    OnlyBlocks blockKey a c := fun key hkey => (h' key hkey).trans (h key hkey)

/-- What each write resolves or rejects with. -/
def outcome (failure : Option JsError) : Except JsError Unit :=
  match failure with
  | none => .ok ()
  | some e => .error e

theorem putOr_ends (failure : Option JsError) (key : String) (value : Value) :
    Task.Ends (· = outcome failure) (ExceptT.run (putOr failure key value)) := by
  cases failure with
  | none => exact fun _ => rfl
  | some e => rfl

theorem writes_ends (storing : Storing) (blockKey : Option String)
    (blocks : List BcBlock) :
    List.Forall₂ (fun a t => Task.Ends (· = a) t)
      ((List.range blocks.length).map fun i => outcome (storing.failures i))
      ((writes storing blockKey blocks).map ExceptT.run) := by
  refine List.forall₂_iff_get.2 ⟨?_, fun i hi hi' => ?_⟩
  · rw [List.length_map, List.length_range, List.length_map, writes, List.length_mapIdx]
  · simp only [List.get_eq_getElem, List.getElem_map, List.getElem_range, writes,
      List.getElem_mapIdx]
    exact putOr_ends ..

theorem writes_always (storing : Storing) (blockKey : Option String)
    (blocks : List BcBlock) :
    ∀ t ∈ writes storing blockKey blocks, Async.Always (OnlyBlocks blockKey) t := by
  intro t ht
  obtain ⟨i, hi, rfl⟩ := List.mem_mapIdx.1 ht
  cases hfailure : storing.failures i with
  | none =>
      refine Async.Always.ofTask fun db => ⟨fun key hkey => ?_, trivial⟩
      exact set_ne (hkey _) db _
  | some e => exact trivial

/-- They all succeed exactly when there is no failure among them. -/
theorem outcomes_ok (storing : Storing) (blocks : List BcBlock) :
    (∃ values, ((List.range blocks.length).map fun i =>
        outcome (storing.failures i)).mapM id = .ok values) ↔
      ∀ i < blocks.length, storing.failures i = none := by
  rw [mapM_id_ok, List.forall_mem_map]
  simp only [List.mem_range]
  refine forall₂_congr fun i _ => ?_
  cases storing.failures i <;> simp [outcome]

/-- The call changes block keys only. -/
theorem syncSetBlocksInline_onlyBlocks (storing : Storing) (blockKey : Option String)
    (blocks : List BcBlock) :
    Async.Always (OnlyBlocks blockKey) (syncSetBlocksInline storing blockKey blocks) := by
  refine Async.Always.bind (Async.Always.ofTask ?_) fun pending => ?_
  · exact Task.Always.read (OnlyBlocks.refl blockKey) _
  · refine Async.Always.bind (Async.Always.ofExcept _) fun kept => ?_
    exact Async.Always.bind (Async.Always.all _ (writes_always storing blockKey kept))
      fun _ => trivial

/-- It resolves exactly when the blocks are stored. -/
theorem syncSetBlocksInline_ok_iff (storing : Storing) (blockKey : Option String)
    (blocks kept : List BcBlock) (db : Database) :
    (Async.exec (syncSetBlocksInline storing blockKey blocks) db).1 = .ok kept ↔
      Stored db storing blocks kept := by
  rw [exec_syncSetBlocksInline, Stored]
  cases hcheck : blocksToStore (pendingBlock db blocks) blocks with
  | error e =>
      exact iff_of_false nofun fun h => by cases h.1
  | ok left =>
      have hleft := outcomes_ok storing left
      have hexec := Async.exec_all storing.order (writes_ends storing blockKey left) db
      rw [Async.ofExcept_ok_bind, Async.exec_bind, Except.ok.injEq]
      cases hwrites : Async.exec
          (Async.all storing.order (writes storing blockKey left)) db with
      | mk result db' =>
          rw [hwrites] at hexec
          rw [← hexec] at hleft
          cases result with
          | ok values =>
              have hok := hleft.1 ⟨values, rfl⟩
              simp only [Async.exec_pure, Except.ok.injEq]
              exact ⟨fun h => ⟨h, h ▸ hok⟩, fun h => h.1⟩
          | error e =>
              refine iff_of_false nofun fun h => ?_
              obtain ⟨values, hvalues⟩ := hleft.2 (h.1 ▸ h.2)
              cases hvalues

/-- What a caller gets back from the call. -/
theorem syncSetBlocksInline_cases (storing : Storing) (blockKey : Option String)
    (blocks : List BcBlock) (db : Database) :
    ∃ result db', Async.exec (syncSetBlocksInline storing blockKey blocks) db =
        (result, db') ∧
      OnlyBlocks blockKey db db' ∧
      ∀ kept, result = .ok kept ↔ Stored db storing blocks kept :=
  ⟨_, _, rfl, (syncSetBlocksInline_onlyBlocks storing blockKey blocks).exec
      (OnlyBlocks.refl blockKey) OnlyBlocks.trans db,
    fun kept => syncSetBlocksInline_ok_iff storing blockKey blocks kept db⟩

/-! ## What stays pending -/

/-- Keys that open differently. -/
theorem text_ne {a b : String} {i : Nat} (h : a.toList[i]? ≠ b.toList[i]?) : a ≠ b :=
  fun hab => h (by rw [hab])

/-- A pending key opens with the `p`. -/
theorem blockText_pending_ne {key : String} (h : key.toList[0]? ≠ some 'p')
    (height : Nat) : blockText (some "pending") height ≠ key := by
  refine @text_ne _ _ 0 ?_
  rw [blockText, String.toList_append, String.toList_append]
  exact h.symm

theorem blockText_none_head (height : Nat) :
    (blockText none height).toList[0]? = some 'b' := by
  rw [blockText, String.toList_append]
  rfl

theorem pendingBlock_congr {db db' : Database} (h : ∀ height,
    db' (blockText (some "pending") height) = db (blockText (some "pending") height)) :
    pendingBlock db' = pendingBlock db := by
  funext blocks
  simp only [pendingBlock, h]

theorem pendingBlock_set {key : String} (h : key.toList[0]? ≠ some 'p') (db : Database)
    (value : Value) : pendingBlock (db.set key value) = pendingBlock db :=
  pendingBlock_congr fun height => set_ne (blockText_pending_ne h height) db value

/-- The call of a sync leaves it as it is. -/
theorem OnlyBlocks.pendingBlock {db db' : Database} (h : OnlyBlocks none db db') :
    pendingBlock db' = pendingBlock db :=
  pendingBlock_congr fun height => h _ fun other =>
    blockText_pending_ne (by rw [blockText_none_head]; decide) height

/-- Of the database, only what is pending matters. -/
theorem Stored.congr {db db' : Database} (h : Sync.pendingBlock db' = Sync.pendingBlock db)
    (storing : Storing) (blocks kept : List BcBlock) :
    Stored db' storing blocks kept ↔ Stored db storing blocks kept := by
  rw [Stored, Stored, h]

/-! ## Where no write fails -/

theorem blockText_eq (height : Nat) :
    blockText none height = (Key.block .bc (.height height)).text := rfl

/-- A write to the database, in the store's view of it. -/
theorem simulates_write (item : BcBlock) :
    Task.Simulates Database.store (fun result _ => result = .ok ())
      (ExceptT.run (putOr none (blockText none item.height) (.bcBlock item)))
      (Persistence.put (.block .bc (.height item.height)) (.bcBlock item)) := by
  refine ⟨fun db => ?_, fun _ => rfl⟩
  rw [blockText_eq]
  exact Database.store_set ..

theorem simulates_writes (storing : Storing) (blocks : List BcBlock)
    (hnone : ∀ i, storing.failures i = none) :
    List.Forall₂ (Task.Simulates Database.store fun result _ => result = .ok ())
      ((writes storing none blocks).map ExceptT.run)
      (blocks.map fun item =>
        Persistence.put (.block .bc (.height item.height)) (.bcBlock item)) := by
  refine List.forall₂_iff_get.2 ⟨?_, fun i hi hi' => ?_⟩
  · rw [List.length_map, List.length_map, writes, List.length_mapIdx]
  · simp only [List.get_eq_getElem, List.getElem_map, writes, List.getElem_mapIdx, hnone]
    exact simulates_write _

/-- Where no write fails, the call does to the database what the handler's does to the
store, with the pending block that the database has. -/
theorem syncSetBlocksInline_store {env : ProofEnv} {blocks : List BcBlock}
    {db : Database} (hpending : env.pending = pendingBlock db blocks) :
    Async.exec (Engine.syncSetBlocksInline env blocks) db.store =
      let (result, db') := Async.exec (syncSetBlocksInline
        { order := env.order } none blocks) db
      (result.map List.length, db'.store) := by
  rw [Engine.syncSetBlocksInline, exec_syncSetBlocksInline, ← hpending]
  cases hcheck : blocksToStore env.pending blocks with
  | error e => rfl
  | ok kept =>
      have hwrites := simulates_writes { order := env.order } kept fun _ => rfl
      obtain ⟨hresults, hstore⟩ := (Task.Simulates.all env.order hwrites).run db
      have hok := mapM_id_ok.2 fun r hr => by
        obtain ⟨i, rfl⟩ := List.mem_iff_get.1 hr
        exact ⟨(), hresults.get i.2 (hresults.length_eq ▸ i.2)⟩
      obtain ⟨values, hvalues⟩ := hok
      simp only [Async.ofExcept_ok_bind, Async.exec_bind, Async.all, Async.exec_ofTask,
        Async.exec_ofExcept, hvalues, Async.exec_pure, Except.map, List.length_map,
        hstore]

end BcNode.Engine.Sync
