import BcNode.P2p.HeadersRpc

/-!
# Asking a peer for its blocks

The calls of `p2p/protocol/rpc` besides `getHeaders`, and the methods of `p2p/peer` that
make them.  A call reads the latest block for the height, the blocks in bulk, and sends
each of them in a chunk of its own; the client reads the chunks back.

`rpc_serves` has the two sides together, over a store with a block at each height up to
the latest.  A store with gaps answers with less, and `query_sound` says that it still
answers with nothing but the blocks it has.

What the connection makes of an answer is left open: `Conn` is what the client collects.
-/

namespace BcNode.P2p

open BcNode.Verified BcNode.Js BcNode.Protos BcNode.Persistence

/-! ## The handlers -/

/-- `!value` of a value of the store. -/
def isFalsy : Value → Bool
  | .string text => text = ""
  | .number n => n = 0
  | _ => false

/-- The keys of the blocks from `height` downwards. -/
def latestIds (height count : Nat) : List Key :=
  (List.range count).map fun i => .block .bc (.height (height - i))

/-- `getBulk(ids)`, and the blocks serialized. -/
def serveIds (wire : Wire) (order : List Nat) (ids : List Key) :
    StoreM (List (List UInt8)) := do
  let res ← Async.ofTask (getBulk order ids)
  Async.ofExcept (serializeAll wire (some res))

/-- `getLatestHeaders`. -/
def getLatestHeaders (wire : Wire) (order : List Nat) (count : Int) :
    StoreM (List (List UInt8)) := do
  let block ← get (.block .bc .latest)
  if isFalsy block then throw (.error "No blocks in persistence")
  else do
    let height ← Async.ofExcept block.getHeight
    let blocksCount := min (min count height) MAX_BLOCKS_COUNT
    serveIds wire order (latestIds height blocksCount.toNat)

/-- `getMultiverse`. -/
def getMultiverse (wire : Wire) (order : List Nat) : StoreM (List (List UInt8)) := do
  let block ← get (.block .bc .latest)
  if isFalsy block then return []
  else do
    let height ← Async.ofExcept block.getHeight
    serveIds wire order (latestIds height (min 7 height))

/-- `limit` of `query`.  What has no height does not limit the answer. -/
def queryLimit (latestBlock : Value) (high : Int) : Int :=
  match latestBlock.getHeight with
  | .ok height => height
  | .error _ => high

/-- `query`. -/
def query (wire : Wire) (order : List Nat) (low high : Int) : StoreM (List (List UInt8)) :=
  Async.rescue (do
    let latestBlock ← get (.block .bc .latest)
    if isFalsy latestBlock then return []
    else
      serveIds wire order
        (rangeIds (max 1 low).toNat (min high (queryLimit latestBlock high)).toNat))
    fun _ : JsError => return []

/-! ## The client -/

/-- What the client collects of the chunks that are sent, if the connection holds and the
request does not expire. -/
abbrev Conn := List (List UInt8) → Except JsError (List (List UInt8))

/-- A method of `Peer`, with the handler behind it.  A call that rejects is not
answered. -/
def callPeer (wire : Wire) (conn : Conn) (handler : StoreM (List (List UInt8)))
    (store : Store) : Except JsError (List BcBlock) := do
  let res ← (Async.exec handler store).1
  let wireData ← conn res
  wireData.mapM wire.deserializeBinary

/-- The connection keeps the chunks as they are. -/
def Conn.Faithful (conn : Conn) : Prop := ∀ res, conn res = .ok res

/-- It does, or it fails. -/
def Conn.Honest (conn : Conn) : Prop :=
  ∀ res wireData, conn res = .ok wireData → wireData = res

/-- A block is read back as it was. -/
def Wire.Reads (wire : Wire) (block : BcBlock) : Prop :=
  wire.deserializeBinary (wire.serializeBinary block) = .ok block

/-- And so is every block that the store has under a height. -/
def Wire.ReadsAll (wire : Wire) (store : Store) : Prop :=
  ∀ n block, store (.block .bc (.height n)) = some (.bcBlock block) → wire.Reads block

/-! ## What a store with a chain answers -/

theorem mapM_deserialize {wire : Wire} {blocks : List BcBlock}
    (h : ∀ block ∈ blocks, wire.Reads block) :
    (blocks.map wire.serializeBinary).mapM wire.deserializeBinary = .ok blocks := by
  induction blocks with
  | nil => rfl
  | cons block blocks ih =>
      have hfirst := h block List.mem_cons_self
      have hrest := ih fun other hmem => h other (List.mem_cons_of_mem _ hmem)
      rw [List.map_cons, List.mapM_cons, hfirst, hrest]
      rfl

theorem serializeAll_blocks (wire : Wire) (blocks : List BcBlock) :
    serializeAll wire (some (blocks.map Value.bcBlock)) =
      .ok (blocks.map wire.serializeBinary) := by
  rw [serializeAll]
  induction blocks with
  | nil => rfl
  | cons block blocks ih =>
      rw [List.map_cons, List.mapM_cons, ih]
      rfl

/-- The store has these blocks under its keys, and nothing for others of them. -/
theorem exec_serveIds {wire : Wire} {order : List Nat} {ids : List Key} {store : Store}
    {blocks : List BcBlock} (h : ids.filterMap store = blocks.map Value.bcBlock) :
    Async.exec (serveIds wire order ids) store =
      (.ok (blocks.map wire.serializeBinary), store) := by
  simp only [serveIds, Async.exec_bind, Async.exec_ofTask, getBulk_run, h,
    Async.exec_ofExcept, serializeAll_blocks]

/-- The blocks from `low` to `high`. -/
def chainRange (chain : Nat → BcBlock) (low high : Nat) : List BcBlock :=
  (List.range (high + 1 - low)).map fun i => chain (low + i)

/-- The blocks from `height` downwards. -/
def chainTop (chain : Nat → BcBlock) (height count : Nat) : List BcBlock :=
  (List.range count).map fun i => chain (height - i)

/-- The store has the chain from height 1 on, up to its latest block. -/
structure HoldsChain (store : Store) (chain : Nat → BcBlock) (height : Nat) : Prop where
  latest : store (.block .bc .latest) = some (.bcBlock (chain height))
  own : (chain height).height = height
  stored : ∀ n, 1 ≤ n → n ≤ height →
    store (.block .bc (.height n)) = some (.bcBlock (chain n))

theorem filterMap_of_stored {store : Store} {keys : List Nat} {key : Nat → Key}
    {block : Nat → BcBlock} (h : ∀ i ∈ keys, store (key i) = some (.bcBlock (block i))) :
    (keys.map key).filterMap store = (keys.map block).map Value.bcBlock := by
  induction keys with
  | nil => rfl
  | cons i keys ih =>
      have hrest := ih fun j hj => h j (List.mem_cons_of_mem _ hj)
      rw [List.map_cons, List.filterMap_cons_some (h i List.mem_cons_self), hrest,
        List.map_cons, List.map_cons]

section Chain

variable {store : Store} {chain : Nat → BcBlock} {height : Nat}

theorem HoldsChain.read_range (h : HoldsChain store chain height) {low high : Nat}
    (hlow : 1 ≤ low) (hhigh : high ≤ height) :
    (rangeIds low high).filterMap store = (chainRange chain low high).map Value.bcBlock := by
  refine filterMap_of_stored fun i hi => h.stored (low + i) (by omega) ?_
  have hin := List.mem_range.1 hi
  omega

theorem HoldsChain.read_top (h : HoldsChain store chain height) {count : Nat}
    (hcount : count ≤ height) :
    (latestIds height count).filterMap store =
      (chainTop chain height count).map Value.bcBlock := by
  refine filterMap_of_stored fun i hi => h.stored (height - i) ?_ (Nat.sub_le ..)
  have hin := List.mem_range.1 hi
  omega

theorem HoldsChain.exec_get (h : HoldsChain store chain height) :
    Async.exec (get (.block .bc .latest)) store =
      (.ok (.bcBlock (chain height)), store) := by
  rw [Persistence.exec_get, getIn_ok.2 h.latest]

/-- The range is cut off at the latest block. -/
theorem HoldsChain.exec_query (h : HoldsChain store chain height) (wire : Wire)
    (order : List Nat) (low high : Int) :
    Async.exec (query wire order low high) store =
      (.ok ((chainRange chain (max 1 low).toNat (min high height).toNat).map
        wire.serializeBinary), store) := by
  have hlimit : queryLimit (.bcBlock (chain height)) high = height :=
    congrArg Int.ofNat h.own
  have hread := @HoldsChain.read_range _ _ _ h (max 1 low).toNat (min high height).toNat
    (by omega) (by omega)
  simp only [query, Async.exec_rescue, Async.exec_bind, h.exec_get, isFalsy,
    Bool.false_eq_true, if_false, hlimit, exec_serveIds hread]

theorem HoldsChain.exec_getLatestHeaders (h : HoldsChain store chain height) (wire : Wire)
    (order : List Nat) (count : Int) :
    Async.exec (getLatestHeaders wire order count) store =
      (.ok ((chainTop chain height
        (min (min count height) MAX_BLOCKS_COUNT).toNat).map wire.serializeBinary),
        store) := by
  have hheight : (Value.bcBlock (chain height)).getHeight = .ok height :=
    congrArg Except.ok h.own
  have hread := @HoldsChain.read_top _ _ _ h
    (min (min count height) MAX_BLOCKS_COUNT).toNat (by omega)
  simp only [getLatestHeaders, Async.exec_bind, h.exec_get, isFalsy, Bool.false_eq_true,
    if_false, hheight, Async.exec_ofExcept, exec_serveIds hread]

theorem HoldsChain.exec_getMultiverse (h : HoldsChain store chain height) (wire : Wire)
    (order : List Nat) :
    Async.exec (getMultiverse wire order) store =
      (.ok ((chainTop chain height (min 7 height)).map wire.serializeBinary), store) := by
  have hheight : (Value.bcBlock (chain height)).getHeight = .ok height :=
    congrArg Except.ok h.own
  have hread := @HoldsChain.read_top _ _ _ h (min 7 height) (Nat.min_le_right ..)
  simp only [getMultiverse, Async.exec_bind, h.exec_get, isFalsy, Bool.false_eq_true,
    if_false, hheight, Async.exec_ofExcept, exec_serveIds hread]

end Chain

theorem chainRange_mem {chain : Nat → BcBlock} {low high : Nat} {block : BcBlock}
    (h : block ∈ chainRange chain low high) :
    ∃ n, low ≤ n ∧ n ≤ high ∧ block = chain n := by
  obtain ⟨i, hi, rfl⟩ := List.mem_map.1 h
  have hin := List.mem_range.1 hi
  exact ⟨low + i, by omega, by omega, rfl⟩

theorem chainTop_mem {chain : Nat → BcBlock} {height count : Nat} {block : BcBlock}
    (h : block ∈ chainTop chain height count) (hcount : count ≤ height) :
    ∃ n, 1 ≤ n ∧ n ≤ height ∧ block = chain n := by
  obtain ⟨i, hi, rfl⟩ := List.mem_map.1 h
  have hin := List.mem_range.1 hi
  exact ⟨height - i, by omega, by omega, rfl⟩

/-- What is served is read back. -/
theorem callPeer_served {wire : Wire} {conn : Conn} {handler : StoreM (List (List UInt8))}
    {store : Store} {blocks : List BcBlock} (hconn : conn.Faithful)
    (hserved : Async.exec handler store = (.ok (blocks.map wire.serializeBinary), store))
    (hwire : ∀ block ∈ blocks, wire.Reads block) :
    callPeer wire conn handler store = .ok blocks := by
  rw [callPeer, hserved]
  exact (congrArg (· >>= _) (hconn _)).trans (mapM_deserialize hwire)

/-- **What a peer is told.**  Of a store with a chain, `query` tells the blocks asked for
as far as there are any, lowest first; `getLatestHeaders` and `getMultiverse` tell the
latest blocks, highest first, as many as asked for and as many as seven. -/
theorem rpc_serves {store : Store} {chain : Nat → BcBlock} {height : Nat}
    (h : HoldsChain store chain height) {wire : Wire} {conn : Conn} (hconn : conn.Faithful)
    (hwire : wire.ReadsAll store) (order : List Nat) :
    (∀ low high : Int, callPeer wire conn (query wire order low high) store =
      .ok (chainRange chain (max 1 low).toNat (min high height).toNat)) ∧
    (∀ count : Int, callPeer wire conn (getLatestHeaders wire order count) store =
      .ok (chainTop chain height (min (min count height) MAX_BLOCKS_COUNT).toNat)) ∧
    callPeer wire conn (getMultiverse wire order) store =
      .ok (chainTop chain height (min 7 height)) := by
  have htop {count : Nat} (hcount : count ≤ height) :
      ∀ block ∈ chainTop chain height count, wire.Reads block := by
    intro block hmem
    obtain ⟨n, hlow, hhigh, rfl⟩ := chainTop_mem hmem hcount
    exact hwire n _ (h.stored n hlow hhigh)
  refine ⟨fun low high => ?_, fun count => ?_, ?_⟩
  · refine callPeer_served hconn (h.exec_query wire order low high) fun block hmem => ?_
    obtain ⟨n, hlow, hhigh, rfl⟩ := chainRange_mem hmem
    exact hwire n _ (h.stored n (by omega) (by omega))
  · exact callPeer_served hconn (h.exec_getLatestHeaders wire order count) (htop (by omega))
  · exact callPeer_served hconn (h.exec_getMultiverse wire order)
      (htop (Nat.min_le_right ..))

/-- Three blocks, the last of which is the latest. -/
def sampleChain : Store :=
  (((Store.empty.set (.block .bc (.height 1)) (.bcBlock (sampleTip 1))).set
    (.block .bc (.height 2)) (.bcBlock (sampleTip 2))).set
    (.block .bc (.height 3)) (.bcBlock (sampleTip 3))).set
    (.block .bc .latest) (.bcBlock (sampleTip 3))

theorem sampleChain_holds : HoldsChain sampleChain sampleTip 3 := by
  refine ⟨by decide +kernel, rfl, fun n hlow hhigh => ?_⟩
  obtain rfl | rfl | rfl : n = 1 ∨ n = 2 ∨ n = 3 := by omega
  · decide +kernel
  · decide +kernel
  · decide +kernel

theorem sampleChain_eq {n : Nat} {value : Value}
    (h : sampleChain (.block .bc (.height n)) = some value) :
    (n = 1 ∨ n = 2 ∨ n = 3) ∧ value = .bcBlock (sampleTip n) := by
  have hn : n = 1 ∨ n = 2 ∨ n = 3 := by
    by_contra hn
    rw [sampleChain, Store.set_ne _ (by simp), Store.set_ne _ (by simp; omega),
      Store.set_ne _ (by simp; omega), Store.set_ne _ (by simp; omega)] at h
    cases h
  refine ⟨hn, ?_⟩
  have hstored := sampleChain_holds.stored n (by omega) (by omega)
  rw [h] at hstored
  exact Option.some.inj hstored

theorem sampleChain_reads : sampleWire.ReadsAll sampleChain := by
  intro n block h
  obtain ⟨hn, hblock⟩ := sampleChain_eq h
  obtain rfl := Value.bcBlock.inj hblock
  unfold Wire.Reads
  obtain rfl | rfl | rfl := hn
  · decide +kernel
  · decide +kernel
  · decide +kernel

theorem rpc_serves_sample :
    callPeer sampleWire .ok (query sampleWire [] 2 9) sampleChain =
        .ok [sampleTip 2, sampleTip 3] ∧
      callPeer sampleWire .ok (getMultiverse sampleWire []) sampleChain =
        .ok [sampleTip 3, sampleTip 2, sampleTip 1] := by
  obtain ⟨hquery, -, hmultiverse⟩ :=
    rpc_serves sampleChain_holds (fun _ => rfl) sampleChain_reads []
  exact ⟨hquery 2 9, hmultiverse⟩

/-! ## What any store answers -/

/-- What the store has under a height is a block. -/
def AllBlocks (store : Store) : Prop :=
  ∀ n value, store (.block .bc (.height n)) = some value →
    ∃ block, value = .bcBlock block

/-- What a bulk read for heights gives is blocks. -/
theorem AllBlocks.read {store : Store} (h : AllBlocks store) (low high : Nat) :
    ∃ blocks : List BcBlock,
      (rangeIds low high).filterMap store = blocks.map Value.bcBlock := by
  obtain ⟨blocks, -, hblocks⟩ :=
    @mapM_asBcBlock ((rangeIds low high).filterMap store) fun value hmem => by
      obtain ⟨key, hkey, hstored⟩ := List.mem_filterMap.1 hmem
      obtain ⟨i, -, rfl⟩ := List.mem_map.1 hkey
      exact h _ value hstored
  exact ⟨blocks, hblocks⟩

/-- The block is in the store, under a height that was asked for. -/
def InRange (store : Store) (low high : Int) (block : BcBlock) : Prop :=
  ∃ n : Nat, low ≤ n ∧ (n : Int) ≤ high ∧
    store (.block .bc (.height n)) = some (.bcBlock block)

/-- Whatever blocks the store has, `query` answers, and with nothing else. -/
theorem exec_query_cases (wire : Wire) (order : List Nat) (low high : Int) {store : Store}
    (hstore : AllBlocks store) :
    ∃ blocks : List BcBlock, Async.exec (query wire order low high) store =
        (.ok (blocks.map wire.serializeBinary), store) ∧
      ∀ block ∈ blocks, InRange store low high block := by
  cases hlatest : getIn store (.block .bc .latest) with
  | error e =>
      refine ⟨[], ?_, List.forall_mem_nil _⟩
      simp only [query, Async.exec_rescue, Async.exec_bind, Persistence.exec_get, hlatest,
        Async.exec_pure, List.map_nil]
  | ok latestBlock =>
      by_cases hfalsy : isFalsy latestBlock = true
      · refine ⟨[], ?_, List.forall_mem_nil _⟩
        simp only [query, Async.exec_rescue, Async.exec_bind, Persistence.exec_get, hlatest,
          hfalsy, if_true, Async.exec_pure, List.map_nil]
      · obtain ⟨blocks, hblocks⟩ := hstore.read (max 1 low).toNat
          (min high (queryLimit latestBlock high)).toNat
        refine ⟨blocks, ?_, fun block hmem => ?_⟩
        · simp only [query, Async.exec_rescue, Async.exec_bind, Persistence.exec_get,
            hlatest, hfalsy, if_false, exec_serveIds hblocks, Bool.false_eq_true]
        · have hvalue : Value.bcBlock block ∈ blocks.map Value.bcBlock :=
            List.mem_map_of_mem hmem
          rw [← hblocks, List.mem_filterMap] at hvalue
          obtain ⟨key, hkey, hstored⟩ := hvalue
          obtain ⟨i, hi, rfl⟩ := List.mem_map.1 hkey
          have hin := List.mem_range.1 hi
          exact ⟨_, by omega, by omega, hstored⟩

/-- Over a connection that does not change what is sent, a peer is told nothing but what
is in the store. -/
theorem query_sound {wire : Wire} {conn : Conn} (hconn : conn.Honest) {store : Store}
    (hstore : AllBlocks store) (hwire : wire.ReadsAll store) {order : List Nat}
    {low high : Int} {blocks : List BcBlock}
    (h : callPeer wire conn (query wire order low high) store = .ok blocks) :
    ∀ block ∈ blocks, InRange store low high block := by
  obtain ⟨served, hexec, hrange⟩ := exec_query_cases wire order low high hstore
  rw [callPeer, hexec] at h
  obtain ⟨res, hres, h⟩ := bind_ok.1 h
  cases hres
  obtain ⟨wireData, hdata, h⟩ := bind_ok.1 h
  rw [hconn _ _ hdata, mapM_deserialize] at h
  · cases h
    exact hrange
  · intro block hmem
    obtain ⟨n, -, -, hstored⟩ := hrange block hmem
    exact hwire n block hstored

end BcNode.P2p
