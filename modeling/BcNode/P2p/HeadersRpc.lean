import BcNode.P2p.Node

/-!
# The `getHeaders` call

The handler of `p2p/protocol/rpc` that serves a range of stored blocks.  It is a chain
of promise callbacks: read the blocks in bulk, check the hashes at both ends, and
serialize.  The callback that checks returns nothing, so what is serialized is
`undefined`.

`checkEnds` is that callback.  Its result is an `Option`, whose `none` is `undefined`.
-/

namespace BcNode.P2p

open BcNode.Verified BcNode.Js BcNode.Protos BcNode.Persistence

/-- `MAX_BLOCKS_COUNT`. -/
def MAX_BLOCKS_COUNT : Nat := 100000

/-- `HeaderIdentifier`: a height and a hash. -/
structure HeaderIdentifier where
  height : Nat
  hash : String
  deriving DecidableEq, Repr

/-- `value.getHash()`. -/
def getHash : Value → Except JsError String
  | .bcBlock b => .ok b.hash
  | .block b => .ok b.hash
  | .header h => .ok h.hash
  | _ => .error .typeError

/-- The hash of an element that may be missing. -/
def getHash? : Option Value → Except JsError String
  | some value => getHash value
  | none => .error .typeError

/-- An end of the range has another hash than the one asked for. -/
def wrongHash (which requested got : String) : JsError :=
  .error ("Wrong hash of " ++ which ++ " block, requested " ++ requested ++
    ", got " ++ got)

/-- The callback between the read and the serialization.  It has no `return` for
blocks it has no objection to. -/
def checkEnds (fromId toId : HeaderIdentifier) (blocks : List Value) :
    Except JsError (Option (List Value)) := do
  let first ← getHash? blocks.head?
  if first ≠ fromId.hash then throw (wrongHash "from" fromId.hash first)
  else do
    let last ← getHash? blocks.getLast?
    if last ≠ toId.hash then throw (wrongHash "to" toId.hash last)
    else return none

/-- `value.serializeBinary()`. -/
def Wire.serializeValue (wire : Wire) : Value → Except JsError (List UInt8)
  | .bcBlock b => .ok (wire.serializeBinary b)
  | .block b => .ok (wire.serializeBlock b)
  | .header h => .ok (wire.serializeHeader h)
  | _ => .error .typeError

/-- `res.map((block) => block.serializeBinary())`. -/
def serializeAll (wire : Wire) : Option (List Value) → Except JsError (List (List UInt8))
  | none => .error .typeError
  | some values => values.mapM wire.serializeValue

/-- The keys of the range, lowest first. -/
def rangeIds (fromHeight toHeight : Nat) : List Key :=
  (List.range (toHeight + 1 - fromHeight)).map fun i =>
    .block .bc (.height (fromHeight + i))

/-- `getHeaders`.  The handler for a rejected bulk read is never called: `getBulk`
catches every missing key. -/
def getHeaders (wire : Wire) (order : List Nat) (fromId toId : HeaderIdentifier) :
    StoreM (List (List UInt8)) :=
  if fromId.height > toId.height then
    throw (.error ("From: " ++ toString fromId.height ++ " > to: " ++
      toString toId.height))
  else if toId.height - fromId.height > MAX_BLOCKS_COUNT then
    throw (.error ("Cannot return more than " ++ toString MAX_BLOCKS_COUNT ++ " blocks"))
  else do
    let blocks ← Async.ofTask (getBulk order (rangeIds fromId.height toId.height))
    let res ← Async.ofExcept (checkEnds fromId toId blocks)
    Async.ofExcept (serializeAll wire res)

/-! ## What the call answers -/

/-- The blocks the store has over the range, lowest first. -/
structure StoredRange (store : Store) (fromHeight toHeight : Nat)
    (blocks : List BcBlock) : Prop where
  ordered : fromHeight ≤ toHeight
  bounded : toHeight - fromHeight ≤ MAX_BLOCKS_COUNT
  length : fromHeight + blocks.length = toHeight + 1
  stored : ∀ i block, blocks[i]? = some block →
    store (.block .bc (.height (fromHeight + i))) = some (.bcBlock block)

/-- Both ends have the requested hashes. -/
def EndsMatch (fromId toId : HeaderIdentifier) (blocks : List BcBlock) : Prop :=
  blocks.head?.map (·.hash) = some fromId.hash ∧
    blocks.getLast?.map (·.hash) = some toId.hash

/-- How the promise of the call settles. -/
def answer (wire : Wire) (order : List Nat) (fromId toId : HeaderIdentifier)
    (store : Store) : Except JsError (List (List UInt8)) :=
  (Async.exec (getHeaders wire order fromId toId) store).1

/-- The call serves the range where the ends match and rejects where they do not. -/
structure ServesRange (wire : Wire) (order : List Nat) (fromId toId : HeaderIdentifier)
    (store : Store) (blocks : List BcBlock) : Prop where
  served : EndsMatch fromId toId blocks →
    answer wire order fromId toId store = .ok (blocks.map wire.serializeBinary)
  refused : ¬ EndsMatch fromId toId blocks →
    ∃ e, answer wire order fromId toId store = .error e

/-- The bulk read finds the blocks in their order. -/
theorem StoredRange.read {store : Store} {fromHeight toHeight : Nat}
    {blocks : List BcBlock} (h : StoredRange store fromHeight toHeight blocks) :
    (rangeIds fromHeight toHeight).filterMap store = blocks.map Value.bcBlock := by
  have hlength : toHeight + 1 - fromHeight = blocks.length := by
    have := h.length
    omega
  have hread : (rangeIds fromHeight toHeight).map store =
      blocks.map fun block => some (Value.bcBlock block) := by
    refine List.ext_getElem? fun i => ?_
    rw [rangeIds, hlength, List.map_map, List.getElem?_map, List.getElem?_map]
    cases hblock : blocks[i]? with
    | none =>
        have hout : (List.range blocks.length)[i]? = none := by
          rw [List.getElem?_eq_none_iff] at hblock ⊢
          rwa [List.length_range]
        rw [hout]
        rfl
    | some block =>
        have hin : (List.range blocks.length)[i]? = some i :=
          List.getElem?_range (List.getElem?_eq_some_iff.1 hblock).1
        rw [hin]
        exact congrArg some (h.stored i block hblock)
  calc (rangeIds fromHeight toHeight).filterMap store
      = ((rangeIds fromHeight toHeight).map store).filterMap id := by
        rw [List.filterMap_map, Function.id_comp]
    _ = (blocks.map fun block => some (Value.bcBlock block)).filterMap id := by rw [hread]
    _ = blocks.map Value.bcBlock := by
        rw [List.filterMap_map]
        exact congrFun List.filterMap_eq_map blocks

/-- Over a stored range the call gets to its callbacks. -/
theorem answer_stored (wire : Wire) (order : List Nat) {fromId toId : HeaderIdentifier}
    {store : Store} {blocks : List BcBlock}
    (h : StoredRange store fromId.height toId.height blocks) :
    answer wire order fromId toId store =
      (checkEnds fromId toId (blocks.map Value.bcBlock) >>= serializeAll wire) := by
  have hordered := h.ordered
  have hbounded := h.bounded
  rw [answer, getHeaders, if_neg (by omega), if_neg (by omega)]
  simp only [Async.exec_bind, Async.exec_ofTask, getBulk_run, h.read, Async.exec_ofExcept]
  cases checkEnds fromId toId (blocks.map Value.bcBlock) <;> rfl

/-- Whatever the blocks are, nothing gets past the two callbacks. -/
theorem checkEnds_serializeAll (wire : Wire) (fromId toId : HeaderIdentifier)
    (blocks : List Value) :
    ∃ e, (checkEnds fromId toId blocks >>= serializeAll wire) = .error e := by
  cases hcheck : checkEnds fromId toId blocks with
  | error e => exact ⟨e, rfl⟩
  | ok res =>
      have hundefined : res = none := by
        unfold checkEnds at hcheck
        obtain ⟨first, -, hcheck⟩ := bind_ok.1 hcheck
        split at hcheck
        · cases hcheck
        · obtain ⟨last, -, hcheck⟩ := bind_ok.1 hcheck
          split at hcheck
          · cases hcheck
          · exact (Except.ok.inj hcheck).symm
      rw [hundefined]
      exact ⟨.typeError, rfl⟩

/-- **No range is ever served.**  Over a stored range the call does what it should
exactly where the hash of an end is wrong and it has to reject. -/
theorem servesRange_iff (wire : Wire) (order : List Nat) {fromId toId : HeaderIdentifier}
    {store : Store} {blocks : List BcBlock}
    (h : StoredRange store fromId.height toId.height blocks) :
    ServesRange wire order fromId toId store blocks ↔ ¬ EndsMatch fromId toId blocks := by
  obtain ⟨e, herror⟩ := checkEnds_serializeAll wire fromId toId (blocks.map Value.bcBlock)
  rw [← answer_stored wire order h] at herror
  constructor
  · intro hserves hmatch
    have hserved := hserves.served hmatch
    rw [herror] at hserved
    cases hserved
  · exact fun hwrong => ⟨fun hmatch => absurd hmatch hwrong, fun _ => ⟨e, herror⟩⟩

/-- The two heights of `sampleHeights`, asked for by their right hashes. -/
theorem storedRange_sample : StoredRange sampleHeights 3 4 [sampleTip 3, sampleTip 4] := by
  refine ⟨by decide, by decide, rfl, fun i block hblock => ?_⟩
  match i with
  | 0 =>
      obtain rfl := Option.some.inj hblock
      decide +kernel
  | 1 =>
      obtain rfl := Option.some.inj hblock
      decide +kernel
  | i + 2 => cases hblock

/-- A stored range with the right hashes at both ends is rejected. -/
theorem getHeaders_undefined :
    EndsMatch ⟨3, "a3"⟩ ⟨4, "a4"⟩ [sampleTip 3, sampleTip 4] ∧
      answer sampleWire [] ⟨3, "a3"⟩ ⟨4, "a4"⟩ sampleHeights = .error .typeError ∧
      ¬ ServesRange sampleWire [] ⟨3, "a3"⟩ ⟨4, "a4"⟩ sampleHeights
        [sampleTip 3, sampleTip 4] := by
  have hmatch : EndsMatch ⟨3, "a3"⟩ ⟨4, "a4"⟩ [sampleTip 3, sampleTip 4] := by
    constructor <;> decide +kernel
  have hanswer : answer sampleWire [] ⟨3, "a3"⟩ ⟨4, "a4"⟩ sampleHeights =
      .error .typeError := by decide +kernel
  refine ⟨hmatch, hanswer, fun hserves => ?_⟩
  cases hanswer.symm.trans (hserves.served hmatch)

theorem servesRange_iff_sample :
    ServesRange sampleWire [] ⟨3, "a3"⟩ ⟨4, "b4"⟩ sampleHeights
        [sampleTip 3, sampleTip 4] := by
  refine (servesRange_iff sampleWire [] storedRange_sample).2 fun hmatch => ?_
  exact absurd hmatch.2 (by decide +kernel)

end BcNode.P2p
