import BcNode.Bc.Multiverse
import BcNode.Verified.Run

/-!
# Backfilling below a checkpoint

`BlockPool` fetches the blocks below a checkpoint, highest first.  `addBlock` takes them
as they come: the parent of the earliest block so far is stored and becomes the earliest,
others wait in the cache.

It asks the earliest block for `previousHash()`, which no message has; the accessor is
`getPreviousHash`.  So as soon as there is an earliest block the `try` throws, and the
`catch`, meant for the time when there is none, stores whatever came.

`updateCheckpoint` clears the heights below a checkpoint.  `purgeFrom` counts down to
height one, where its guard rejects before it looks whether it has arrived.
-/

namespace BcNode.Bc

open BcNode.Verified BcNode.Js BcNode.Protos BcNode.Persistence

/-! ## The pool -/

/-- What the pool publishes. -/
inductive PoolEvent where
  | resyncFailed
  | checkpointEnd (checkpoint : Option BcBlock) (genesisSecondBlock : BcBlock)
  deriving DecidableEq, Repr

/-- The pool and the store behind it.  `persisted` are the heights at which `addBlock`
has stored a block; no code reads it. -/
structure BlockPool where
  store : Store
  checkpoint : Option BcBlock := none
  cache : List BcBlock := []
  published : List PoolEvent := []
  persisted : List Nat := []

abbrev PoolM (α : Type) := Async BlockPool JsError α

def bcKey (height : Nat) : Key := .block .bc (.height height)

def earliestKey : Key := .block .bc .earliest

def latestKey : Key := .block .bc .latest

namespace BlockPool

/-- `put('bc.block.' + block.getHeight(), block)`. -/
def persist (pool : BlockPool) (block : BcBlock) : BlockPool :=
  { pool with
    store := pool.store.set (bcKey block.height) (.bcBlock block)
    persisted := block.height :: pool.persisted }

/-- `put('bc.block.earliest', block)`. -/
def setEarliest (pool : BlockPool) (block : BcBlock) : BlockPool :=
  { pool with store := pool.store.set earliestKey (.bcBlock block) }

/-- Both, one after the other. -/
def putEarliest (pool : BlockPool) (block : BcBlock) : BlockPool :=
  (pool.persist block).setEarliest block

def erase (pool : BlockPool) (key : Key) : BlockPool :=
  { pool with store := pool.store.erase key }

/-- `_eventCheckpointReached`. -/
def checkpointReached (pool : BlockPool) (lastBlock : BcBlock) : BlockPool :=
  { pool with
    published := pool.published ++ [.checkpointEnd pool.checkpoint lastBlock]
    checkpoint := none }

/-- `_eventResyncFailed`. -/
def resyncFailed (pool : BlockPool) : BlockPool :=
  { pool with published := pool.published ++ [.resyncFailed] }

/-- The block joins the cache, which keeps what is below `earliest`, lowest first. -/
def cacheBelow (pool : BlockPool) (earliest block : BcBlock) : BlockPool :=
  let below := (pool.cache ++ [block]).filter fun b => b.height < earliest.height
  { pool with cache := sortAscending (·.height) below }

end BlockPool

def update (f : BlockPool → BlockPool) : PoolM Unit := Async.ofTask (Task.modify f)

/-- `persistence.get(key)`. -/
def getKey (key : Key) : PoolM Value :=
  ExceptT.mk (Task.read fun pool => getIn pool.store key)

@[simp] theorem exec_getKey (key : Key) (pool : BlockPool) :
    Async.exec (getKey key) pool = (getIn pool.store key, pool) := rfl

/-- `earliest.previousHash()`. -/
def callPreviousHash (_earliest : Value) : Except JsError String := .error .typeError

/-- What a pass through `addBlock` ends in: `true`, or a call of itself. -/
inductive Pass where
  | done
  | again (block : BcBlock)

/-- The `try` of `addBlock`. -/
def fillBelow (block : BcBlock) : PoolM Pass := do
  let value ← getKey earliestKey
  let parentHash ← Async.ofExcept (callPreviousHash value)
  if block.hash = parentHash ∧ block.previousHash = Genesis.hash then do
    update (·.checkpointReached block)
    update (·.erase earliestKey)
    return .done
  else if block.hash = parentHash ∧ block.height = 2 ∧
      block.previousHash ≠ Genesis.hash then do
    update (·.resyncFailed)
    update (·.erase earliestKey)
    return .done
  else do
    let earliest ← Async.ofExcept value.asBcBlock
    if earliest.hash = block.hash then return .done
    else if earliest.height < block.height then return .done
    else if earliest.previousHash = block.hash then do
      update (·.persist block)
      update (·.setEarliest block)
      return .done
    else if earliest.height > block.height then do
      update (·.cacheBelow earliest block)
      let cache ← Async.ofTask (Task.read BlockPool.cache)
      match (cache.filter fun b => earliest.previousHash = b.hash).getLast? with
      | none => return .done
      | some committedBlock => do
          update (·.persist committedBlock)
          update (·.setEarliest committedBlock)
          let cache ← Async.ofTask (Task.read BlockPool.cache)
          match cache.getLast? with
          | none => return .done
          | some next => do
              update fun pool => { pool with cache := pool.cache.dropLast }
              return .again next
    else return .done

/-- The block is above genesis and below the checkpoint.  Without one the height is
compared with `false`. -/
def IsBelow (checkpoint : Option BcBlock) (block : BcBlock) : Prop :=
  block.hash ≠ Genesis.hash ∧ block.height > 1 ∧ ∃ c ∈ checkpoint, block.height < c.height

instance (checkpoint : Option BcBlock) (block : BcBlock) :
    Decidable (IsBelow checkpoint block) := inferInstanceAs (Decidable (_ ∧ _))

/-- The `catch` of `addBlock`, when earliest is not set. -/
def fillFirst (block : BcBlock) : PoolM Pass := do
  let checkpoint ← Async.ofTask (Task.read BlockPool.checkpoint)
  if IsBelow checkpoint block then do
    update (·.persist block)
    update (·.setEarliest block)
    return .done
  else if block.height < 2 then
    throw (.error "invalid block claiming to be genesis")
  else do
    update fun pool => { pool with cache := pool.cache ++ [block] }
    return .done

/-- `addBlock` up to where it settles or calls itself. -/
def addBlockPass (block : BcBlock) : PoolM Pass := do
  let checkpoint ← Async.ofTask (Task.read BlockPool.checkpoint)
  if checkpoint.isNone then throw (.error "no checkpoint set for blockpool")
  else if block.hash = Genesis.hash then return .done
  else Async.rescue (fillBelow block) fun _ => fillFirst block

/-- No message has the method, so the `try` throws whatever is stored. -/
theorem fillBelow_exec (block : BcBlock) (pool : BlockPool) :
    ∃ e, Async.exec (fillBelow block) pool = (.error e, pool) := by
  rw [fillBelow, Async.exec_bind, exec_getKey]
  cases getIn pool.store earliestKey with
  | error e => exact ⟨e, rfl⟩
  | ok value => exact ⟨.typeError, rfl⟩

/-- With a checkpoint and another block than genesis, a pass comes to the `catch`. -/
theorem addBlockPass_exec {pool : BlockPool} {block : BcBlock}
    (hcheckpoint : pool.checkpoint ≠ none) (hgenesis : block.hash ≠ Genesis.hash) :
    Async.exec (addBlockPass block) pool = Async.exec (fillFirst block) pool := by
  obtain ⟨c, hc⟩ := Option.ne_none_iff_exists'.1 hcheckpoint
  obtain ⟨e, hthrow⟩ := fillBelow_exec block pool
  simp only [addBlockPass, Async.exec_bind, Async.exec_ofTask, Task.run_read, hc,
    Option.isNone_some, Bool.false_eq_true, if_false, if_neg hgenesis, Async.exec_rescue,
    hthrow]

/-- Such a block is stored, and becomes the earliest. -/
theorem addBlockPass_of_isBelow {pool : BlockPool} {block : BcBlock}
    (hbelow : IsBelow pool.checkpoint block) :
    Async.exec (addBlockPass block) pool =
      (.ok .done, pool.putEarliest block) := by
  have hcheckpoint : pool.checkpoint ≠ none := by
    obtain ⟨-, -, c, hc, -⟩ := hbelow
    rw [Option.mem_def.1 hc]
    exact Option.some_ne_none c
  rw [addBlockPass_exec hcheckpoint hbelow.1, fillFirst]
  simp only [Async.exec_bind, Async.exec_ofTask, Task.run_read, if_pos hbelow]
  rfl

/-- Any other changes the cache at most. -/
theorem addBlockPass_of_not_isBelow {pool : BlockPool} {block : BcBlock}
    (hbelow : ¬ IsBelow pool.checkpoint block) :
    ∃ result cache, Async.exec (addBlockPass block) pool = (result, { pool with cache }) ∧
      ∀ next, result ≠ .ok (.again next) := by
  by_cases hcheckpoint : pool.checkpoint = none
  · refine ⟨.error (.error "no checkpoint set for blockpool"), pool.cache, ?_,
      fun _ h => by cases h⟩
    simp only [addBlockPass, Async.exec_bind, Async.exec_ofTask, Task.run_read, hcheckpoint,
      Option.isNone_none, if_true]
    rw [← hcheckpoint]
    rfl
  by_cases hgenesis : block.hash = Genesis.hash
  · refine ⟨.ok .done, pool.cache, ?_, fun _ h => by cases h⟩
    obtain ⟨c, hc⟩ := Option.ne_none_iff_exists'.1 hcheckpoint
    simp only [addBlockPass, Async.exec_bind, Async.exec_ofTask, Task.run_read, hc,
      Option.isNone_some, Bool.false_eq_true, if_false, if_pos hgenesis]
    rw [← hc]
    rfl
  rw [addBlockPass_exec hcheckpoint hgenesis, fillFirst]
  simp only [Async.exec_bind, Async.exec_ofTask, Task.run_read, if_neg hbelow]
  by_cases hlow : block.height < 2
  · rw [if_pos hlow]
    exact ⟨.error (.error "invalid block claiming to be genesis"), pool.cache, rfl,
      fun _ h => by cases h⟩
  · rw [if_neg hlow]
    exact ⟨.ok .done, pool.cache ++ [block], rfl, fun _ h => by cases h⟩

/-- So it never calls itself. -/
theorem addBlockPass_ne_again (pool pool' : BlockPool) (block next : BcBlock) :
    Async.exec (addBlockPass block) pool ≠ (.ok (.again next), pool') := by
  intro h
  by_cases hbelow : IsBelow pool.checkpoint block
  · rw [addBlockPass_of_isBelow hbelow] at h
    cases h
  · obtain ⟨result, cache, hexec, hne⟩ := addBlockPass_of_not_isBelow hbelow
    exact hne next (congrArg Prod.fst (hexec.symm.trans h))

/-- `addBlock`, run alone. -/
def addBlock (pool : BlockPool) (block : BcBlock) : Except JsError Bool × BlockPool :=
  match _h : Async.exec (addBlockPass block) pool with
  | (.ok .done, pool') => (.ok true, pool')
  | (.ok (.again next), pool') => addBlock pool' next
  | (.error e, pool') => (.error e, pool')
termination_by pool.cache.length
decreasing_by exact absurd _h (addBlockPass_ne_again pool pool' block next)

theorem addBlock_of_isBelow {pool : BlockPool} {block : BcBlock}
    (hbelow : IsBelow pool.checkpoint block) :
    addBlock pool block = (.ok true, pool.putEarliest block) := by
  have hpass := addBlockPass_of_isBelow hbelow
  rw [addBlock]
  split
  · next pool' h => rw [(Prod.mk.inj (h.symm.trans hpass)).2]
  · next next pool' h => cases h.symm.trans hpass
  · next e pool' h => cases h.symm.trans hpass

theorem addBlock_of_not_isBelow {pool : BlockPool} {block : BcBlock}
    (hbelow : ¬ IsBelow pool.checkpoint block) :
    ∃ cache, (addBlock pool block).2 = { pool with cache } := by
  obtain ⟨result, cache, hpass, -⟩ := addBlockPass_of_not_isBelow hbelow
  refine ⟨cache, ?_⟩
  rw [addBlock]
  split
  · next pool' h => exact congrArg Prod.snd (h.symm.trans hpass)
  · next next pool' h => exact absurd h (addBlockPass_ne_again _ _ _ _)
  · next e pool' h => exact congrArg Prod.snd (h.symm.trans hpass)

/-! ## One chain -/

/-- `blocks` are the blocks persisted: one chain, of which the earliest is the lowest. -/
structure Chained (pool : BlockPool) (blocks : List BcBlock) : Prop where
  earliest : pool.store earliestKey = blocks.head?.map .bcBlock
  links : blocks.IsChain Extends
  stored : ∀ b ∈ blocks, pool.store (bcKey b.height) = some (.bcBlock b)
  persisted : ∀ n, n ∈ pool.persisted ↔ n ∈ blocks.map (·.height)

def Backfilled (pool : BlockPool) : Prop := ∃ blocks, Chained pool blocks

/-- The block goes below the earliest, or takes its place. -/
def Continues (pool : BlockPool) (block : BcBlock) : Prop :=
  ∀ earliest, pool.store earliestKey = some (.bcBlock earliest) →
    Extends block earliest ∨
      block.height = earliest.height ∧
        ∀ above, block.height + 1 ∈ pool.persisted →
          pool.store (bcKey (block.height + 1)) = some (.bcBlock above) →
          Extends block above

/-- Such a chain has no gap in its heights. -/
theorem heights_of_isChain {b : BcBlock} {rest : List BcBlock}
    (hlinks : (b :: rest).IsChain Extends) :
    (b :: rest).map (·.height) = List.range' b.height (rest.length + 1) := by
  induction rest generalizing b with
  | nil => rfl
  | cons c rest ih =>
      obtain ⟨hlink, hrest⟩ := List.isChain_cons_cons.1 hlinks
      rw [List.map_cons, ih hrest, hlink.height, List.length_cons]
      exact List.range'_succ.symm

/-- The block one height above the lowest is the one linked to it. -/
theorem extends_of_mem_heights {b : BcBlock} {rest : List BcBlock}
    (hlinks : (b :: rest).IsChain Extends)
    (hmem : b.height + 1 ∈ (b :: rest).map (·.height)) :
    ∃ above ∈ rest, above.height = b.height + 1 ∧ Extends b above := by
  cases rest with
  | nil => simp at hmem
  | cons above rest =>
      have hlink := (List.isChain_cons_cons.1 hlinks).1
      exact ⟨above, List.mem_cons_self, hlink.height, hlink⟩

theorem BlockPool.putEarliest_earliest (pool : BlockPool) (block : BcBlock) :
    (pool.putEarliest block).store earliestKey = some (.bcBlock block) :=
  Store.set_self (pool.persist block).store earliestKey (.bcBlock block)

theorem BlockPool.putEarliest_height (pool : BlockPool) (block : BcBlock) (n : Nat) :
    (pool.putEarliest block).store (bcKey n) =
      if n = block.height then some (.bcBlock block) else pool.store (bcKey n) := by
  have hkey : bcKey n ≠ earliestKey := by simp [bcKey, earliestKey]
  rw [show (pool.putEarliest block).store (bcKey n) =
    pool.store.set (bcKey block.height) (.bcBlock block) (bcKey n) from
      Store.set_ne (pool.persist block).store hkey (.bcBlock block)]
  by_cases hn : n = block.height
  · rw [if_pos hn, hn, Store.set_self]
  · rw [if_neg hn, Store.set_ne _ (by simpa [bcKey] using hn)]

theorem BlockPool.mem_persisted_putEarliest (pool : BlockPool) (block : BcBlock) (n : Nat) :
    n ∈ (pool.putEarliest block).persisted ↔ n = block.height ∨ n ∈ pool.persisted :=
  List.mem_cons

/-- The chain starts with the earliest block. -/
theorem Chained.eq_cons {pool : BlockPool} {blocks : List BcBlock} {earliest : BcBlock}
    (h : Chained pool blocks)
    (hearliest : pool.store earliestKey = some (.bcBlock earliest)) :
    ∃ rest, blocks = earliest :: rest := by
  have hhead := h.earliest.symm.trans hearliest
  cases blocks with
  | nil => cases hhead
  | cons b rest =>
      cases hhead
      exact ⟨rest, rfl⟩

/-- Where the heights of a chain lie. -/
theorem Chained.mem_persisted {pool : BlockPool} {b : BcBlock} {rest : List BcBlock}
    (h : Chained pool (b :: rest)) (n : Nat) :
    n ∈ pool.persisted ↔ b.height ≤ n ∧ n < b.height + (rest.length + 1) := by
  rw [h.persisted, heights_of_isChain h.links, List.mem_range'_1]

/-- A block on top of `rest`, where the rest of a chain stays what it was. -/
theorem Chained.putEarliest {pool : BlockPool} {block : BcBlock} {rest : List BcBlock}
    (hlinks : (block :: rest).IsChain Extends)
    (hstored : ∀ b ∈ rest, pool.store (bcKey b.height) = some (.bcBlock b))
    (hpersisted : ∀ n, n ∈ (pool.putEarliest block).persisted ↔
      n ∈ (block :: rest).map (·.height)) :
    Chained (pool.putEarliest block) (block :: rest) := by
  refine ⟨pool.putEarliest_earliest block, hlinks, fun b hb => ?_, hpersisted⟩
  rw [pool.putEarliest_height]
  rcases List.mem_cons.1 hb with rfl | hmem
  · exact if_pos rfl
  · have hnodup : ((block :: rest).map (·.height)).Nodup := by
      rw [heights_of_isChain hlinks]
      exact List.nodup_range'
    have hne : b.height ≠ block.height := fun h =>
      (List.nodup_cons.1 hnodup).1 (List.mem_map.2 ⟨b, hmem, h⟩)
    rw [if_neg hne]
    exact hstored b hmem

/-- A chain goes on with a block that continues it. -/
theorem Backfilled.putEarliest {pool : BlockPool} {block : BcBlock} (h : Backfilled pool)
    (hcontinues : Continues pool block) : Backfilled (pool.putEarliest block) := by
  obtain ⟨blocks, hblocks⟩ := h
  cases blocks with
  | nil =>
      refine ⟨[block], Chained.putEarliest (.singleton block) (by simp) fun n => ?_⟩
      rw [pool.mem_persisted_putEarliest, hblocks.persisted]
      simp
  | cons earliest rest =>
      have hrest : ∀ b ∈ rest, pool.store (bcKey b.height) = some (.bcBlock b) :=
        fun b hb => hblocks.stored b (List.mem_cons_of_mem _ hb)
      rcases hcontinues earliest hblocks.earliest with hextends | ⟨hheight, habove⟩
      · refine ⟨block :: earliest :: rest, Chained.putEarliest
          (List.isChain_cons_cons.2 ⟨hextends, hblocks.links⟩) hblocks.stored fun n => ?_⟩
        rw [pool.mem_persisted_putEarliest, hblocks.persisted]
        exact List.mem_cons.symm
      · have hlinks : (block :: rest).IsChain Extends := by
          cases rest with
          | nil => exact .singleton block
          | cons above rest =>
              obtain ⟨hlink, hlinks⟩ := List.isChain_cons_cons.1 hblocks.links
              have hnext : above.height = block.height + 1 := by
                rw [hlink.height, hheight]
              refine List.isChain_cons_cons.2 ⟨habove above ?_ ?_, hlinks⟩
              · rw [hblocks.mem_persisted, List.length_cons]
                omega
              · rw [← hnext]
                exact hrest above List.mem_cons_self
        refine ⟨block :: rest, Chained.putEarliest hlinks hrest fun n => ?_⟩
        rw [pool.mem_persisted_putEarliest, hblocks.persisted, List.map_cons, List.map_cons,
          List.mem_cons, List.mem_cons, hheight]
        tauto

/-- What is persisted right above the lowest block is linked to it. -/
theorem Chained.extends_above {pool : BlockPool} {block : BcBlock} {rest : List BcBlock}
    (h : Chained (pool.putEarliest block) (block :: rest))
    (hmem : block.height + 1 ∈ pool.persisted) :
    ∃ above, pool.store (bcKey (block.height + 1)) = some (.bcBlock above) ∧
      Extends block above := by
  have hmem := (pool.mem_persisted_putEarliest block _).2 (.inr hmem)
  rw [h.persisted] at hmem
  obtain ⟨above, habove, hheight, hextends⟩ := extends_of_mem_heights h.links hmem
  have hstored := h.stored above (List.mem_cons_of_mem _ habove)
  rw [pool.putEarliest_height, if_neg (by omega), hheight] at hstored
  exact ⟨above, hstored, hextends⟩

/-- And with no other. -/
theorem Backfilled.continues {pool : BlockPool} {block : BcBlock} (h : Backfilled pool)
    (hafter : Backfilled (pool.putEarliest block)) : Continues pool block := by
  intro earliest hearliest
  obtain ⟨blocks, hblocks⟩ := h
  obtain ⟨blocks', hblocks'⟩ := hafter
  obtain ⟨rest, rfl⟩ := hblocks.eq_cons hearliest
  obtain ⟨rest', rfl⟩ := hblocks'.eq_cons (pool.putEarliest_earliest block)
  have hin := hblocks.mem_persisted
  have hout (n : Nat) : n = block.height ∨ n ∈ pool.persisted ↔
      block.height ≤ n ∧ n < block.height + (rest'.length + 1) := by
    rw [← pool.mem_persisted_putEarliest, hblocks'.mem_persisted]
  by_cases hheight : block.height = earliest.height
  · refine .inr ⟨hheight, fun above hmem habove => ?_⟩
    obtain ⟨above', habove', hextends⟩ := hblocks'.extends_above hmem
    cases habove.symm.trans habove'
    exact hextends
  · have hlower := (hout earliest.height).1 (.inr ((hin _).2 (by omega)))
    have hmem : block.height + 1 ∈ pool.persisted := by
      refine ((hout (block.height + 1)).2 (by omega)).resolve_left (by omega)
    obtain ⟨above, habove, hextends⟩ := hblocks'.extends_above hmem
    have hnext : block.height + 1 = earliest.height := by
      have := (hin _).1 hmem
      omega
    rw [hnext, hblocks.stored earliest List.mem_cons_self] at habove
    cases habove
    exact .inl hextends

/-- The block extends what is there, or is not stored. -/
def Admissible (pool : BlockPool) (block : BcBlock) : Prop :=
  IsBelow pool.checkpoint block → Continues pool block

/-- The pool after one call. -/
def addBlockStep (pool : BlockPool) (block : BcBlock) : BlockPool := (addBlock pool block).2

/-- The cache does not enter. -/
theorem Backfilled.cache {pool : BlockPool} {cache : List BcBlock} :
    Backfilled { pool with cache } ↔ Backfilled pool :=
  exists_congr fun _ =>
    ⟨fun h => ⟨h.earliest, h.links, h.stored, h.persisted⟩,
      fun h => ⟨h.earliest, h.links, h.stored, h.persisted⟩⟩

/-- One call keeps the chain exactly if its block is admissible. -/
theorem addBlockStep_backfilled_iff {pool : BlockPool} (h : Backfilled pool)
    (block : BcBlock) : Backfilled (addBlockStep pool block) ↔ Admissible pool block := by
  by_cases hbelow : IsBelow pool.checkpoint block
  · rw [addBlockStep, addBlock_of_isBelow hbelow]
    exact ⟨fun hafter _ => h.continues hafter, fun hadmissible =>
      h.putEarliest (hadmissible hbelow)⟩
  · obtain ⟨cache, hcache⟩ := addBlock_of_not_isBelow hbelow
    rw [addBlockStep, hcache, Backfilled.cache]
    exact iff_of_true h fun h => absurd h hbelow

/-- **The backfill is linked as long as the blocks come in order.**  In a run of calls
from a pool that has stored nothing yet, the blocks stored are one chain above the
earliest after every call if and only if every block that lies below the checkpoint goes
below the earliest, or takes its place, when it comes. -/
theorem addBlock_backfills_iff {pool : BlockPool} (hearliest : pool.store earliestKey = none)
    (hpersisted : pool.persisted = []) (blocks : List BcBlock) :
    Along addBlockStep Admissible pool blocks ↔
      ∀ k, Backfilled ((blocks.take k).foldl addBlockStep pool) := by
  have hstart : Backfilled pool :=
    ⟨[], hearliest, .nil, by simp, fun n => by simp [hpersisted]⟩
  exact Along.iff_invariant (I := Backfilled)
    (fun _ block h => addBlockStep_backfilled_iff h block) hstart

/-- A pool with a checkpoint at height nine and nothing stored. -/
def sampleFreshPool : BlockPool where
  store := Store.empty
  checkpoint := some { hash := "c9", height := 9 }

def sampleBelow (hash previousHash : String) (height : Nat) : BcBlock :=
  { hash, previousHash, height }

theorem sampleBelow_isBelow {pool : BlockPool} (hash previousHash : String) {height : Nat}
    (hcheckpoint : pool.checkpoint = sampleFreshPool.checkpoint)
    (hhash : hash ≠ Genesis.hash) (hheight : 1 < height ∧ height < 9) :
    IsBelow pool.checkpoint (sampleBelow hash previousHash height) := by
  rw [hcheckpoint]
  exact ⟨hhash, hheight.1, _, rfl, hheight.2⟩

theorem addBlock_backfills_iff_sample :
    Backfilled ([sampleBelow "c8" "c7" 8, sampleBelow "c7" "c6" 7].foldl addBlockStep
      sampleFreshPool) := by
  have hadmissible : Along addBlockStep Admissible sampleFreshPool
      [sampleBelow "c8" "c7" 8, sampleBelow "c7" "c6" 7] := by
    refine ⟨fun _ earliest h => ?_, fun _ earliest h => ?_, trivial⟩
    · cases h
    · rw [addBlockStep, addBlock_of_isBelow (sampleBelow_isBelow _ _ rfl (by decide)
        (by decide)), BlockPool.putEarliest_earliest] at h
      cases h
      exact .inl ⟨rfl, rfl⟩
  exact (@addBlock_backfills_iff sampleFreshPool rfl rfl _).1 hadmissible 2

/-- Two blocks that have nothing to do with each other are both stored. -/
theorem backfill_not_linked :
    ¬ ∀ (pool : BlockPool) (blocks : List BcBlock), pool.checkpoint ≠ none →
      pool.store earliestKey = none → pool.persisted = [] →
      ∀ k, Backfilled ((blocks.take k).foldl addBlockStep pool) := by
  intro hall
  have hlinked := hall sampleFreshPool [sampleBelow "c8" "c7" 8, sampleBelow "d3" "d2" 3]
    (by decide) rfl rfl
  have hfirst : addBlockStep sampleFreshPool (sampleBelow "c8" "c7" 8) =
      sampleFreshPool.putEarliest (sampleBelow "c8" "c7" 8) := by
    rw [addBlockStep, addBlock_of_isBelow (sampleBelow_isBelow _ _ rfl (by decide)
      (by decide))]
  have hadmissible := (addBlockStep_backfilled_iff (hlinked 1) _).1 (hlinked 2)
  rw [List.take_succ_cons, List.take_zero, List.foldl_cons, List.foldl_nil, hfirst]
    at hadmissible
  rcases hadmissible (sampleBelow_isBelow _ _ rfl (by decide) (by decide)) _
    (BlockPool.putEarliest_earliest _ _) with hextends | ⟨hheight, -⟩
  · exact absurd hextends.height (by decide)
  · exact absurd hheight (by decide)

/-! ## Purging -/

/-- `purgeFrom`.  Only the deletion is awaited in the `try`. -/
def purgeFrom : Nat → Nat → PoolM Bool
  | 0, _ => throw (.error "cannot purge below height 2")
  | start + 1, stop =>
      if stop < 1 ∨ start + 1 ≤ 1 then throw (.error "cannot purge below height 2")
      else if start + 1 = stop then return true
      else do
        Async.rescue (update (·.erase (bcKey (start + 1)))) fun _ => return ()
        purgeFrom start stop

/-- `purge`. -/
def purge (checkpoint : Option BcBlock) : PoolM Bool := do
  match checkpoint with
  | none => do
      let latest ← getKey latestKey
      let latestHeight ← Async.ofExcept latest.getHeight
      let height := latestHeight - 1
      if height < 2 then throw (.error "checkpoint set to genesis height")
      else purgeFrom height 1
  | some checkpoint => do
      let height := checkpoint.height - 1
      let latest ← getKey latestKey
      let latestHeight ← Async.ofExcept latest.getHeight
      if height < 2 then throw (.error "checkpoint set to genesis height")
      else if height > latestHeight then throw (.error "cannot purge after latest block")
      else do
        update fun pool => { pool with checkpoint := some checkpoint }
        purgeFrom height 1

/-- `updateCheckpoint`. -/
def updateCheckpoint (block : BcBlock) : PoolM Bool := purge (some block)

/-- The blocks from height two up to below `height` are gone, all else is as before. -/
structure Cleared (height : Nat) (before after : Store) : Prop where
  removed : ∀ n, 2 ≤ n → n < height → after (bcKey n) = none
  kept : ∀ key, (∀ n, 2 ≤ n → n < height → key ≠ bcKey n) → after key = before key

/-- The heights below the checkpoint are cleared, and it is set. -/
structure PurgesBelow (checkpoint : BcBlock) (before : BlockPool)
    (result : Except JsError Bool × BlockPool) : Prop where
  resolves : ∃ answer, result.1 = .ok answer
  isSet : result.2.checkpoint = some checkpoint
  cleared : Cleared checkpoint.height before.store result.2.store

theorem Cleared.erase {height : Nat} {before after : Store} (hheight : 2 ≤ height)
    (h : Cleared height (before.erase (bcKey height)) after) :
    Cleared (height + 1) before after := by
  constructor
  · intro n hlow hhigh
    rcases Nat.lt_succ_iff_lt_or_eq.1 hhigh with hlt | rfl
    · exact h.removed n hlow hlt
    · rw [h.kept _ fun m _ hm => by simp [bcKey]; omega, Store.erase_self]
  · intro key hkey
    rw [h.kept key fun n hlow hhigh => hkey n hlow (by omega),
      Store.erase_ne _ (hkey height hheight (by omega))]

/-- Down to height one everything is deleted, and then the guard rejects. -/
theorem purgeFrom_exec (start : Nat) (pool : BlockPool) :
    ∃ store, Async.exec (purgeFrom start 1) pool =
        (.error (.error "cannot purge below height 2"), { pool with store }) ∧
      Cleared (start + 1) pool.store store := by
  induction start generalizing pool with
  | zero => exact ⟨pool.store, rfl, fun n _ _ => by omega, fun key _ => rfl⟩
  | succ start ih =>
      by_cases hstart : start = 0
      · subst hstart
        exact ⟨pool.store, rfl, fun n _ _ => by omega, fun key _ => rfl⟩
      · obtain ⟨store, hrest, hcleared⟩ := ih (pool.erase (bcKey (start + 1)))
        refine ⟨store, ?_, hcleared.erase (by omega)⟩
        rw [purgeFrom, if_neg (by omega), if_neg (by omega), Async.exec_bind]
        exact hrest

/-- All that a new checkpoint asks for is done, but for the promise. -/
theorem updateCheckpoint_exec {pool : BlockPool} {checkpoint : BcBlock} {latest : Value}
    {latestHeight : Nat} (hlatest : pool.store latestKey = some latest)
    (hheight : latest.getHeight = .ok latestHeight) (hlow : 3 ≤ checkpoint.height)
    (hhigh : checkpoint.height ≤ latestHeight + 1) :
    ∃ store, Async.exec (updateCheckpoint checkpoint) pool =
        (.error (.error "cannot purge below height 2"),
          { pool with store, checkpoint := some checkpoint }) ∧
      Cleared checkpoint.height pool.store store := by
  obtain ⟨store, hexec, hcleared⟩ :=
    purgeFrom_exec (checkpoint.height - 1) { pool with checkpoint := some checkpoint }
  rw [Nat.sub_add_cancel (by omega)] at hcleared
  refine ⟨store, ?_, hcleared⟩
  rw [updateCheckpoint, purge, Async.exec_bind, exec_getKey, getIn_ok.2 hlatest]
  show Async.exec (Async.ofExcept latest.getHeight >>= _) pool = _
  rw [hheight, Async.ofExcept_ok_bind, if_neg (by omega), if_neg (by omega),
    Async.exec_bind]
  exact hexec

/-- **A purge below a checkpoint never resolves.** -/
theorem updateCheckpoint_purges_never {pool : BlockPool} {checkpoint : BcBlock}
    {latest : Value} {latestHeight : Nat} (hlatest : pool.store latestKey = some latest)
    (hheight : latest.getHeight = .ok latestHeight) (hlow : 3 ≤ checkpoint.height)
    (hhigh : checkpoint.height ≤ latestHeight + 1) :
    ¬ PurgesBelow checkpoint pool (Async.exec (updateCheckpoint checkpoint) pool) := by
  obtain ⟨store, hexec, -⟩ := updateCheckpoint_exec hlatest hheight hlow hhigh
  rw [hexec]
  rintro ⟨⟨answer, hanswer⟩, -, -⟩
  cases hanswer

/-- A pool whose latest block is at height three, with that block and the one below. -/
def sampleLatestPool : BlockPool where
  store := ((Store.empty.set (bcKey 2) (.bcBlock { height := 2 })).set
    (bcKey 3) (.bcBlock { height := 3 })).set latestKey (.bcBlock { height := 3 })

theorem updateCheckpoint_purges_never_sample :
    ¬ PurgesBelow { height := 4 } sampleLatestPool
      (Async.exec (updateCheckpoint { height := 4 }) sampleLatestPool) :=
  updateCheckpoint_purges_never
    (show _ = some (Value.bcBlock { height := 3 }) from rfl) rfl (by decide) (by decide)

theorem checkpoint_not_updated :
    ¬ ∀ (pool : BlockPool) (checkpoint latest : BcBlock),
      pool.store latestKey = some (.bcBlock latest) → 3 ≤ checkpoint.height →
      checkpoint.height ≤ latest.height + 1 →
      PurgesBelow checkpoint pool (Async.exec (updateCheckpoint checkpoint) pool) := by
  intro hall
  obtain ⟨⟨answer, hanswer⟩, -, -⟩ :=
    hall sampleLatestPool { height := 4 } _ rfl (by decide) (by decide)
  cases hanswer

end BcNode.Bc
