import BcNode.P2p.Discovery
import BcNode.Persistence.Store

/-!
# The peer node

`peerDataHandler` of `p2p/node` takes a message from a connection; the listeners
beside it turn events of the engine into messages.  Events and messages are data
here: a handler returns what it has emitted, what it has written and which keys it
has asked the store for, and its exceptions end in a log.

Numbers that cross the wire come back as text and are not turned into numbers
again.  `Scalar` is what the range branch computes with.
-/

namespace BcNode.P2p

open BcNode.Verified BcNode.Js BcNode.Protos BcNode.Persistence

/-! ## The multiverse of a block -/

/-- `getLiteMultiverse`: the block and what is stored at the two heights below it,
highest first.  `order` is the order of the two reads, and the heights are those of the
node's own blocks, taken to be `Safe`. -/
def getLiteMultiverse (order : List Nat) (latest : BcBlock) : StoreM (List BcBlock) :=
  if latest.height < 4 then return [latest]
  else do
    let query : List Key :=
      [.block .bc (.height (latest.height - 1)), .block .bc (.height (latest.height - 2))]
    let set ← Async.ofTask (getBulk order query)
    let blocks ← Async.ofExcept (set.mapM Value.asBcBlock)
    return sortDescending (·.height) (latest :: blocks)

/-- `list.map((l) => { return l.serializeBinary() }).join(protocolBits[type])`. -/
def serial (wire : Wire) (type : MessageType) (list : List BcBlock) : Text :=
  joinParts type (list.map fun block => bytesText (wire.serializeBinary block))

/-- The message of type `0008W01` for a list of blocks. -/
def announcement (wire : Wire) (list : List BcBlock) : Text :=
  message .w0008 (serial wire .w0008 list)

/-! ## Numbers that may be text -/

/-- A number, or what has become of one. -/
inductive Scalar where
  | undefined
  | nan
  | number (n : Int)
  | text (t : Text)
  deriving DecidableEq, Repr

/-- An element of an array, by its index. -/
def Scalar.ofPart? : Option Text → Scalar
  | none => .undefined
  | some t => .text t

/-- A scalar in a template or a sum of strings. -/
def Scalar.toText : Scalar → Text
  | .undefined => "undefined".toList
  | .nan => "NaN".toList
  | .number n => (toString n).toList
  | .text t => t

/-- `a > n`. -/
def Wire.gt (wire : Wire) (a : Scalar) (n : Int) : Bool :=
  match a with
  | .undefined | .nan => false
  | .number m => decide (m > n)
  | .text t =>
      match Decimal.parse? (String.ofList t) with
      | some m => decide (m > n)
      | none => wire.textGt t n

/-- ramda's `max(n, b)`. -/
def Wire.max (wire : Wire) (n : Int) (b : Scalar) : Scalar :=
  if wire.gt b n then b else .number n

/-- `a + 1`, which is a concatenation where `a` is text. -/
def Scalar.addOne : Scalar → Scalar
  | .undefined | .nan => .nan
  | .number n => .number (n + 1)
  | .text t => .text (t ++ "1".toList)

/-- `typeof a === 'number'`. -/
def Scalar.isNumber : Scalar → Bool
  | .nan | .number _ => true
  | .undefined | .text _ => false

/-- ramda's `range`, which insists on numbers.  Nothing is less than `NaN`. -/
def range (start stop : Scalar) : Except JsError (List Int) :=
  if !(start.isNumber && stop.isNumber) then throw .typeError
  else
    match start, stop with
    | .number m, .number n =>
        return (List.range (n - m).toNat).map fun i : Nat => m + (i : Int)
    | _, _ => return []

/-- The query of a range request. -/
def rangeQuery (wire : Wire) (low high : Scalar) : Except JsError (List Key) := do
  let heights ← range (wire.max 2 low) high.addOne
  return heights.map fun n => .block .bc (.height n.toNat)

/-! ## Events -/

/-- The `data` and `connection` of a `getmultiverse` event. -/
structure MultiverseRequest where
  low : Int
  high : Int
  connection : Peer
  deriving DecidableEq, Repr

/-- What `peerDataHandler` emits. -/
inductive Emission where
  | putblock (msg : PutBlock)
  | putblocklist (low high : Option BcBlock) (connection : Connection)
  | putmultiverse (data : List BcBlock) (connection : Connection)
  deriving DecidableEq, Repr

/-- What a handler has done. -/
structure Handled where
  emitted : List Emission := []
  queried : List Key := []
  written : List Write := []
  deriving DecidableEq, Repr

/-! ## `peerDataHandler` -/

/-- One block, from the second part of a message. -/
def receiveBlock (wire : Wire) (conn : Connection) (type : MessageType) (str : Text) :
    Except JsError Handled := do
  let parts := splitMessage type str
  let rawUint ← parts[1]?.elim (throw .typeError) pure
  let block ← wire.deserializeBinary (wire.uint8Array rawUint)
  return { emitted := [.putblock { data := block, connection := conn }] }

/-- `array.split(separator)`: arrays cannot be split. -/
def arraySplit (_array : List Text) (_separator : Text) : Except JsError (List Text) :=
  throw .typeError

/-- A list of blocks, `0007W01` or `0010W01`.  The message has been split already
when it is split into its blocks. -/
def receiveBlockList (wire : Wire) (conn : Connection) (type : MessageType) (str : Text) :
    Except JsError Handled := do
  let parts := splitMessage type str
  let rawBlocks ← arraySplit parts (protocolBits type)
  let list ← rawBlocks.mapM fun rawBlock =>
    wire.deserializeBinary (wire.uint8Array rawBlock)
  let sorted := sortDescending (·.height) list
  if type = .w0007 then
    return { emitted := [.putblocklist sorted.getLast? sorted.head? conn] }
  else if type = .w0010 then return { emitted := [.putmultiverse sorted conn] }
  else return {}

/-- What the queue of store reads calls back with: `many` for an array of keys,
`one` for a key. -/
inductive Fetched where
  | one (value : Value)
  | many (values : List Value)
  deriving DecidableEq, Repr

/-- `[outboundType, arrays].join(split)`: the arrays inside are joined by commas,
like the bytes inside them. -/
def listMessage (wire : Wire) (outboundType : MessageType) (list : List BcBlock) : Text :=
  message outboundType
    ([','].intercalate (list.map fun block => bytesText (wire.serializeBinary block)))

/-- The callback of the range branch; a single value has no `map`. -/
def respond (wire : Wire) (conn : Connection) (outboundType : MessageType) :
    Fetched → Except JsError (List Write)
  | .one _ => throw .typeError
  | .many values => do
      let list ← values.mapM Value.asBcBlock
      return (qsend (.connection conn) (listMessage wire outboundType list)).2

/-- `_queue.push(query, callback)`: the queue makes a task of each element of the
array, and each task calls back for itself. -/
def queuePush (wire : Wire) (conn : Connection) (outboundType : MessageType)
    (query : List Key) : Task Store (List Write) :=
  Task.sequence (query.map fun key => Task.read fun store => getIn store key) >>=
    fun results => return results.flatMap fun result =>
      ((result >>= fun value => respond wire conn outboundType (.one value)).toOption).getD []

/-- The type of the answer to a range request. -/
def outboundType (type : MessageType) : MessageType :=
  if type = .r0009 then .w0010 else .w0007

/-- A request for the blocks of a range. -/
def respondRange (wire : Wire) (conn : Connection) (type : MessageType) (str : Text) :
    Task Store Handled :=
  let parts := splitMessage type str
  let low := Scalar.ofPart? parts[1]?
  let high := Scalar.ofPart? parts[2]?
  match rangeQuery wire low high with
  | .error _ => return {}
  | .ok query =>
      queuePush wire conn (outboundType type) query >>= fun written =>
        return { queried := query, written }

/-- A request for the latest block. -/
def respondLatest (wire : Wire) (conn : Connection) : StoreM Handled := do
  let latestBlock ← getBlock (.block .bc .latest)
  let msg := MessageType.w0008.text ++ protocolBits .r0008 ++
    bytesText (wire.serializeBinary latestBlock)
  return { queried := [.block .bc .latest], written := (qsend (.connection conn) msg).2 }

/-- The branches of `peerDataHandler`, in the order in which they are tried. -/
def dispatch (wire : Wire) (conn : Connection) (type : MessageType) (str : Text) :
    StoreM Handled :=
  if type = .w0007 then Async.ofExcept (receiveBlock wire conn type str)
  else if type = .r0008 then respondLatest wire conn
  else if type = .r0006 ∨ type = .r0009 then
    Async.ofTask (respondRange wire conn type str)
  else if type = .w0008 then Async.ofExcept (receiveBlock wire conn type str)
  else if type = .w0007 ∨ type = .w0010 then
    Async.ofExcept (receiveBlockList wire conn type str)
  else return {}

/-- `peerDataHandler`. -/
def peerDataHandler (wire : Wire) (conn : Connection) (str : Option Text) :
    StoreM Handled :=
  match str with
  | none => return {}
  | some str =>
      if jsLength str < 8 then return {}
      else if jsLength str > 95000 then return {}
      else
        match MessageType.ofText? (str.take 7) with
        | none => return {}
        | some type => dispatch wire conn type str

/-- What a call has done by the time its promise has settled; an exception is
logged. -/
def handled (wire : Wire) (conn : Connection) (str : Option Text) (store : Store) :
    Handled :=
  (Async.exec (peerDataHandler wire conn str) store).1.toOption.getD {}

/-! ## The listeners -/

/-- The listener of `sendblock`. -/
def sendblock (wire : Wire) (order : List Nat) (data : BcBlock) (connection : Peer) :
    StoreM (List Write) := do
  let list ← getLiteMultiverse order data
  return (qsend connection (announcement wire list)).2

/-- The listener of `announceblock`, which has no use for the filters of the event. -/
def announceblock (wire : Wire) (order : List Nat) (connections : List Connection)
    (data : BcBlock) : StoreM (List Write) := do
  let list ← getLiteMultiverse order data
  return (qbroadcast connections (announcement wire list) []).2

/-- `type + split + low + split + high`. -/
def rangeRequest (type : MessageType) (low high : Scalar) : Text :=
  message type (joinParts type [low.toText, high.toText])

/-- The listener of `getmultiverse`. -/
def getmultiverse (request : MultiverseRequest) : List Write :=
  (qsend request.connection
    (rangeRequest .r0009 (.number request.low) (.number request.high))).2

/-- A message that is not too long gets to its branch. -/
theorem peerDataHandler_message (wire : Wire) (conn : Connection) (type : MessageType)
    {body : Text} (hlength : jsLength (message type body) ≤ 95000) :
    peerDataHandler wire conn (some (message type body)) =
      dispatch wire conn type (message type body) := by
  have hshort : ¬ jsLength (message type body) < 8 := by
    have := eight_le_message type body
    omega
  have hlong : ¬ jsLength (message type body) > 95000 := by omega
  simp only [peerDataHandler, if_neg hshort, if_neg hlong, message_take,
    MessageType.ofText?_text]

/-- A message that is too long does nothing, any other one what its branch does. -/
theorem handled_message (wire : Wire) (conn : Connection) (type : MessageType)
    (body : Text) (store : Store) :
    handled wire conn (some (message type body)) store = {} ∨
      handled wire conn (some (message type body)) store =
        (Async.exec (dispatch wire conn type (message type body)) store).1.toOption.getD
          {} := by
  by_cases hlength : jsLength (message type body) ≤ 95000
  · right
    rw [handled, peerDataHandler_message wire conn type hlength]
  · left
    have hshort : ¬ jsLength (message type body) < 8 := by omega
    have hlong : jsLength (message type body) > 95000 := by omega
    rw [handled, peerDataHandler, if_neg hshort, if_pos hlong]
    rfl

/-! ## The announcement of a block -/

/-- The blocks `getLiteMultiverse` takes into account. -/
def InLiteMultiverse (store : Store) (latest block : BcBlock) : Prop :=
  block = latest ∨ ∃ h, (h + 1 = latest.height ∨ h + 2 = latest.height) ∧
    store (.block .bc (.height h)) = some (.bcBlock block)

/-- What is stored at the two heights below a block is blocks, if anything. -/
def HoldsBlocks (store : Store) (latest : BcBlock) : Prop :=
  ∀ h value, (h + 1 = latest.height ∨ h + 2 = latest.height) →
    store (.block .bc (.height h)) = some value → ∃ block, value = .bcBlock block

theorem mapM_asBcBlock {values : List Value}
    (h : ∀ value ∈ values, ∃ block, value = .bcBlock block) :
    ∃ blocks, values.mapM Value.asBcBlock = .ok blocks ∧
      values = blocks.map Value.bcBlock := by
  induction values with
  | nil => exact ⟨[], rfl, rfl⟩
  | cons value values ih =>
      obtain ⟨block, rfl⟩ := h value List.mem_cons_self
      obtain ⟨blocks, hblocks, hvalues⟩ := ih fun v hv => h v (List.mem_cons_of_mem _ hv)
      refine ⟨block :: blocks, ?_, ?_⟩
      · rw [List.mapM_cons, hblocks]
        rfl
      · rw [List.map_cons, ← hvalues]

/-- What is read below a block are the blocks stored at the two heights there. -/
theorem exists_blocks_below {latest : BcBlock} {store : Store}
    (h : HoldsBlocks store latest) (hlow : ¬ latest.height < 4) :
    ∃ blocks, (([.block .bc (.height (latest.height - 1)),
        .block .bc (.height (latest.height - 2))] : List Key).filterMap store).mapM
          Value.asBcBlock = .ok blocks ∧
      ∀ b ∈ blocks, ∃ h, (h + 1 = latest.height ∨ h + 2 = latest.height) ∧
        store (.block .bc (.height h)) = some (.bcBlock b) := by
  generalize hquery : ([.block .bc (.height (latest.height - 1)),
    .block .bc (.height (latest.height - 2))] : List Key) = query
  have hbelow : ∀ key ∈ query, ∃ h, (h + 1 = latest.height ∨ h + 2 = latest.height) ∧
      key = .block .bc (.height h) := by
    intro key hkey
    rw [← hquery] at hkey
    rcases List.mem_pair.1 hkey with rfl | rfl
    · exact ⟨latest.height - 1, Or.inl (by omega), rfl⟩
    · exact ⟨latest.height - 2, Or.inr (by omega), rfl⟩
  have hvalues : ∀ value ∈ query.filterMap store, ∃ block, value = .bcBlock block := by
    intro value hvalue
    obtain ⟨key, hkey, hstored⟩ := List.mem_filterMap.1 hvalue
    obtain ⟨height, hheight, rfl⟩ := hbelow key hkey
    exact h height value hheight hstored
  obtain ⟨blocks, hblocks, hfound⟩ := mapM_asBcBlock hvalues
  refine ⟨blocks, hblocks, fun b hb => ?_⟩
  have hvalue : Value.bcBlock b ∈ query.filterMap store := by
    rw [hfound]
    exact List.mem_map_of_mem hb
  obtain ⟨key, hkey, hstored⟩ := List.mem_filterMap.1 hvalue
  obtain ⟨height, hheight, rfl⟩ := hbelow key hkey
  exact ⟨height, hheight, hstored⟩

/-- The multiverse of a block: blocks from the two heights below and the block
itself, highest first. -/
theorem getLiteMultiverse_exec (order : List Nat) {latest : BcBlock} {store : Store}
    (h : HoldsBlocks store latest) :
    ∃ highest rest,
      Async.exec (getLiteMultiverse order latest) store = (.ok (highest :: rest), store) ∧
      latest ∈ highest :: rest ∧ (∀ b ∈ highest :: rest, b.height ≤ highest.height) ∧
      ∀ b ∈ highest :: rest, InLiteMultiverse store latest b := by
  unfold getLiteMultiverse
  by_cases hlow : latest.height < 4
  · refine ⟨latest, [], ?_, List.mem_cons_self, ?_, ?_⟩
    · rw [if_pos hlow]
      rfl
    · intro b hb
      rw [List.mem_singleton.1 hb]
    · intro b hb
      exact Or.inl (List.mem_singleton.1 hb)
  · obtain ⟨blocks, hblocks, hbelow⟩ := exists_blocks_below h hlow
    obtain ⟨highest, rest, hsorted, hhighest⟩ :=
      exists_sortDescending_cons (·.height) (List.cons_ne_nil latest blocks)
    have hmem (b : BcBlock) : b ∈ highest :: rest ↔ b ∈ latest :: blocks := by
      rw [← hsorted]
      exact (sortDescending_perm _ _).mem_iff
    refine ⟨highest, rest, ?_, (hmem latest).2 List.mem_cons_self, hhighest, ?_⟩
    · rw [if_neg hlow]
      simp only [Async.exec_bind, Async.exec_ofTask, getBulk_run, hblocks,
        Async.exec_ofExcept, hsorted, Async.exec_pure]
    · intro b hb
      exact (List.mem_cons.1 ((hmem b).1 hb)).imp_right (hbelow b)

/-- A message of blocks opens with its type and then has the text of each. -/
theorem splitMessage_serial (wire : Wire) (type : MessageType) {list : List BcBlock}
    (hlist : list ≠ []) :
    splitMessage type (message type (serial wire type list)) =
      type.text :: list.map fun block => bytesText (wire.serializeBinary block) := by
  apply splitMessage_message type (by simpa using hlist)
  intro part hpart
  obtain ⟨block, _, rfl⟩ := List.mem_map.1 hpart
  exact bracket_notMem_bytesText _

/-- **An announcement is read as its first block.** -/
theorem receiveBlock_announcement (wire : Wire) (conn : Connection) (highest : BcBlock)
    (rest : List BcBlock) (hbytes : wire.serializeBinary highest ≠ []) :
    receiveBlock wire conn .w0008 (announcement wire (highest :: rest)) =
      (wire.deserializeBinary (wire.serializeBinary highest)).map fun block =>
        { emitted := [.putblock { data := block, connection := conn }] } := by
  have hsplit := splitMessage_serial wire .w0008 (List.cons_ne_nil highest rest)
  rw [receiveBlock, announcement, hsplit]
  simp only [List.map_cons, List.getElem?_cons_succ, List.getElem?_cons_zero,
    Option.elim_some, pure_bind, wire.uint8Array_bytesText hbytes]
  cases wire.deserializeBinary (wire.serializeBinary highest) <;> rfl

/-- **The round trip of an announcement.**  What the listeners of `sendblock` and
`announceblock` write for a block is received as one block, the highest of its
multiverse. -/
theorem announcement_received (wire : Wire) (order : List Nat) {latest : BcBlock}
    {store : Store} (hstore : HoldsBlocks store latest)
    (hbytes : ∀ b, InLiteMultiverse store latest b → wire.serializeBinary b ≠ [])
    (hlossless : ∀ b, InLiteMultiverse store latest b →
      wire.deserializeBinary (wire.serializeBinary b) = .ok b)
    (sender : Connection) (connections : List Connection) :
    ∃ list highest, (Async.exec (getLiteMultiverse order latest) store).1 = .ok list ∧
      latest ∈ list ∧ highest ∈ list ∧ (∀ b ∈ list, b.height ≤ highest.height) ∧
      (Async.exec (sendblock wire order latest (.connection sender)) store).1 =
        .ok [(sender, announcement wire list)] ∧
      (Async.exec (announceblock wire order connections latest) store).1 =
        .ok (connections.map fun conn => (conn, announcement wire list)) ∧
      (jsLength (announcement wire list) ≤ 95000 → ∀ receiver store',
        handled wire receiver (some (announcement wire list)) store' =
          { emitted := [.putblock { data := highest, connection := receiver }] }) := by
  obtain ⟨highest, rest, hexec, hlatest, hheighest, hmultiverse⟩ :=
    getLiteMultiverse_exec order hstore
  have hin := hmultiverse highest List.mem_cons_self
  refine ⟨highest :: rest, highest, ?_, hlatest, List.mem_cons_self, hheighest, ?_, ?_, ?_⟩
  · rw [hexec]
  · simp only [sendblock, Async.exec_bind, hexec, Async.exec_pure, qsend_connection]
  · simp only [announceblock, Async.exec_bind, hexec, Async.exec_pure, qbroadcast_all]
  · intro hlength receiver store'
    have hdispatch : peerDataHandler wire receiver
        (some (announcement wire (highest :: rest))) =
          Async.ofExcept (receiveBlock wire receiver .w0008
            (announcement wire (highest :: rest))) :=
      peerDataHandler_message wire receiver .w0008 hlength
    rw [handled, hdispatch, Async.exec_ofExcept,
      receiveBlock_announcement wire receiver highest rest (hbytes highest hin),
      hlossless highest hin]
    rfl

/-- The codec on blocks that have a short hash, a low height and nothing else:
field 1 is a string, field 5 a number, and a field that is there twice has its last
value. -/
def sampleFields : Nat → BcBlock → List UInt8 → Except JsError BcBlock
  | _, block, [] => .ok block
  | fuel + 1, block, tag :: n :: bytes =>
      if tag = 10 then
        let hash := String.ofList ((bytes.take n.toNat).map fun c => Char.ofNat c.toNat)
        sampleFields fuel { block with hash } (bytes.drop n.toNat)
      else if tag = 40 then sampleFields fuel { block with height := n.toNat } bytes
      else .error (.error "unknown field")
  | _, _, _ => .error (.error "truncated")

def sampleWire : Wire where
  serializeBinary b :=
    let hash := b.hash.toList.map fun c => UInt8.ofNat c.toNat
    10 :: UInt8.ofNat hash.length :: hash ++ [40, UInt8.ofNat b.height]
  serializeBlock b := [40, UInt8.ofNat b.height]
  serializeHeader b := [40, UInt8.ofNat b.height]
  deserializeBinary bytes := sampleFields bytes.length {} bytes
  textUint8 _ := 0
  textGt _ _ := false

def sampleTip (height : Nat) : BcBlock := { hash := "a" ++ toString height, height }

def sampleConnection : Connection where
  remoteAddress := "10.0.0.1"
  remotePort := 16061

/-- A store with a block at each of the two heights below `sampleTip 5`. -/
def sampleHeights : Store :=
  (Store.empty.set (.block .bc (.height 4)) (.bcBlock (sampleTip 4))).set
    (.block .bc (.height 3)) (.bcBlock (sampleTip 3))

theorem sampleHeights_eq {h : Nat} {value : Value}
    (hh : h + 1 = (sampleTip 5).height ∨ h + 2 = (sampleTip 5).height)
    (hvalue : sampleHeights (.block .bc (.height h)) = some value) :
    value = .bcBlock (sampleTip 4) ∨ value = .bcBlock (sampleTip 3) := by
  have hheight : h = 4 ∨ h = 3 := by
    simp only [sampleTip] at hh
    omega
  rcases hheight with rfl | rfl
  · left
    have hstored : sampleHeights (.block .bc (.height 4)) = some (.bcBlock (sampleTip 4)) :=
      by decide +kernel
    rw [hstored] at hvalue
    exact (Option.some.inj hvalue).symm
  · right
    have hstored : sampleHeights (.block .bc (.height 3)) = some (.bcBlock (sampleTip 3)) :=
      by decide +kernel
    rw [hstored] at hvalue
    exact (Option.some.inj hvalue).symm

theorem inLiteMultiverse_sample {b : BcBlock}
    (h : InLiteMultiverse sampleHeights (sampleTip 5) b) :
    b = sampleTip 5 ∨ b = sampleTip 4 ∨ b = sampleTip 3 := by
  rcases h with rfl | ⟨height, hheight, hstored⟩
  · exact Or.inl rfl
  · rcases sampleHeights_eq hheight hstored with hvalue | hvalue
    · exact Or.inr (Or.inl (Value.bcBlock.inj hvalue))
    · exact Or.inr (Or.inr (Value.bcBlock.inj hvalue))

theorem announcement_received_sample :
    handled sampleWire sampleConnection
        (some (announcement sampleWire [sampleTip 5, sampleTip 4, sampleTip 3]))
        Store.empty =
      { emitted := [.putblock { data := sampleTip 5, connection := sampleConnection }] } := by
  have hstore : HoldsBlocks sampleHeights (sampleTip 5) := by
    intro h value hh hvalue
    rcases sampleHeights_eq hh hvalue with rfl | rfl
    · exact ⟨_, rfl⟩
    · exact ⟨_, rfl⟩
  have hbytes : ∀ b, InLiteMultiverse sampleHeights (sampleTip 5) b →
      sampleWire.serializeBinary b ≠ [] := fun b _ => List.cons_ne_nil _ _
  have hlossless : ∀ b, InLiteMultiverse sampleHeights (sampleTip 5) b →
      sampleWire.deserializeBinary (sampleWire.serializeBinary b) = .ok b := by
    intro b hb
    rcases inLiteMultiverse_sample hb with rfl | rfl | rfl
    · decide +kernel
    · decide +kernel
    · decide +kernel
  obtain ⟨list, highest, hlist, hlatest, hmem, hhighest, _, _, hreceived⟩ :=
    announcement_received sampleWire [] hstore hbytes hlossless sampleConnection []
  have hexec : (Async.exec (getLiteMultiverse [] (sampleTip 5)) sampleHeights).1 =
      .ok [sampleTip 5, sampleTip 4, sampleTip 3] := by decide +kernel
  rw [hexec] at hlist
  cases hlist
  have htop : highest = sampleTip 5 := by
    have hle := hhighest (sampleTip 5) hlatest
    simp only [List.mem_cons, List.not_mem_nil, or_false] at hmem
    rcases hmem with rfl | rfl | rfl
    · rfl
    · exact absurd hle (by decide)
    · exact absurd hle (by decide)
  rw [hreceived (by decide +kernel) sampleConnection Store.empty, htop]

/-! ## The answer to a range request -/

/-- What the answer should be received as: the lowest and the highest of the blocks,
or all of them from the highest to the lowest. -/
def expectedEmission (type : MessageType) (list : List BcBlock) (conn : Connection) :
    Emission :=
  let sorted := sortDescending (·.height) list
  if type = .w0010 then .putmultiverse sorted conn
  else .putblocklist sorted.getLast? sorted.head? conn

/-- Given all the blocks at once, the responder would answer with one message. -/
theorem respond_many (wire : Wire) (conn : Connection) (type : MessageType)
    (list : List BcBlock) :
    respond wire conn type (.many (list.map .bcBlock)) =
      .ok [(conn, listMessage wire type list)] := by
  have hblocks : (list.map Value.bcBlock).mapM Value.asBcBlock =
      (.ok list : Except JsError (List BcBlock)) := by
    induction list with
    | nil => rfl
    | cons block list ih =>
        rw [List.map_cons, List.mapM_cons, ih]
        rfl
  rw [respond, hblocks]
  rfl

theorem receiveBlock_emitted {wire : Wire} {conn : Connection} {type : MessageType}
    {str : Text} {result : Handled} (h : receiveBlock wire conn type str = .ok result) :
    ∃ block, result = { emitted := [.putblock { data := block, connection := conn }] } := by
  unfold receiveBlock at h
  obtain ⟨rawUint, _, h⟩ := bind_ok.1 h
  obtain ⟨block, _, h⟩ := bind_ok.1 h
  exact ⟨block, (Except.ok.inj h).symm⟩

/-- A message that is read as one block emits nothing else, and names the connection
it has come from. -/
theorem dispatch_putblock {wire : Wire} {conn : Connection} {type : MessageType}
    (htype : type = .w0007 ∨ type = .w0008) {str : Text} {store : Store}
    (hne : ((Async.exec (dispatch wire conn type str) store).1.toOption.getD {}).emitted ≠
      []) :
    ∃ block, ((Async.exec (dispatch wire conn type str) store).1.toOption.getD {}).emitted =
      [.putblock { data := block, connection := conn }] := by
  have hdispatch : dispatch wire conn type str =
      Async.ofExcept (receiveBlock wire conn type str) := by
    rcases htype with rfl | rfl <;> rfl
  rw [hdispatch, Async.exec_ofExcept] at hne ⊢
  cases hblock : receiveBlock wire conn type str with
  | error e =>
      rw [hblock] at hne
      exact absurd rfl hne
  | ok result =>
      obtain ⟨block, rfl⟩ := receiveBlock_emitted hblock
      exact ⟨block, rfl⟩

/-- **No answer to a range request arrives.**  The list of `0007W01` is taken for a
single block before its own branch is reached, and the branch of `0010W01` throws. -/
theorem listMessage_not_received (wire : Wire) (sender receiver : Connection)
    (store : Store) (request : MessageType) (list : List BcBlock) :
    respond wire sender (outboundType request) (.many (list.map .bcBlock)) =
        .ok [(sender, listMessage wire (outboundType request) list)] ∧
      (handled wire receiver (some (listMessage wire (outboundType request) list))
          store).emitted ≠
        [expectedEmission (outboundType request) list receiver] := by
  refine ⟨respond_many wire sender (outboundType request) list, ?_⟩
  rcases handled_message wire receiver (outboundType request) _ store with hlong | hbranch
  · rw [listMessage, hlong]
    exact nofun
  · rw [listMessage, hbranch]
    by_cases hrequest : request = .r0009
    · have htype : outboundType request = .w0010 := if_pos hrequest
      rw [htype]
      exact nofun
    · have htype : outboundType request = .w0007 := if_neg hrequest
      rw [htype]
      intro h
      obtain ⟨block, hblock⟩ := dispatch_putblock (Or.inl rfl) (by rw [h]; exact nofun)
      rw [hblock] at h
      cases h

/-- Two blocks come out as one, or as nothing. -/
theorem listMessage_sample :
    (handled sampleWire sampleConnection
        (some (listMessage sampleWire (outboundType .r0006) [sampleTip 5, sampleTip 4]))
        Store.empty).emitted =
      [.putblock { data := sampleTip 4, connection := sampleConnection }] ∧
    (handled sampleWire sampleConnection
        (some (listMessage sampleWire (outboundType .r0009) [sampleTip 5, sampleTip 4]))
        Store.empty).emitted = [] ∧
    expectedEmission (outboundType .r0006) [sampleTip 5, sampleTip 4] sampleConnection =
      .putblocklist (some (sampleTip 4)) (some (sampleTip 5)) sampleConnection ∧
    expectedEmission (outboundType .r0009) [sampleTip 5, sampleTip 4] sampleConnection =
      .putmultiverse [sampleTip 5, sampleTip 4] sampleConnection := by
  refine ⟨?_, ?_, ?_, ?_⟩
  · decide +kernel
  · decide +kernel
  · decide +kernel
  · decide +kernel

/-! ## The query of a range request -/

/-- The keys of the heights from `max(2, low)` to `high`. -/
def expectedQuery (low high : Int) : List Key :=
  (List.range (high + 1 - max 2 low).toNat).map fun i : Nat =>
    .block .bc (.height (max 2 low + (i : Int)).toNat)

theorem expectedQuery_eq_nil {low high : Int} (h : low ≤ high) :
    expectedQuery low high = [] ↔ high < 2 := by
  rw [expectedQuery, List.map_eq_nil_iff, List.range_eq_nil]
  omega

theorem bracket_notMem_number (n : Int) : '[' ∉ (Scalar.number n).toText := by
  intro hmem
  rcases Decimal.isDigit_of_mem_toString_int hmem with hminus | hdigit
  · exact absurd hminus (by decide)
  · exact absurd hdigit (by decide)

/-- Text plus one is text, and no range ends there. -/
theorem rangeQuery_text (wire : Wire) (low : Scalar) (t : Text) :
    rangeQuery wire low (.text t) = .error .typeError := by
  simp only [rangeQuery, range, Scalar.addOne, Scalar.isNumber, Bool.and_false,
    Bool.not_false, if_true]
  rfl

/-- **What a request makes the receiver ask for**: nothing, and that is the range
only if the range is empty. -/
theorem getmultiverse_queried (wire : Wire) {low high : Int} (h : low ≤ high)
    (sender receiver : Connection) (store : Store) :
    ∃ msg, getmultiverse { low, high, connection := .connection sender } =
        [(sender, msg)] ∧
      ((handled wire receiver (some msg) store).queried = expectedQuery low high ↔
        high < 2) := by
  refine ⟨rangeRequest .r0009 (.number low) (.number high), rfl, ?_⟩
  have hqueried : (handled wire receiver
      (some (rangeRequest .r0009 (.number low) (.number high))) store).queried = [] := by
    have hsplit : splitMessage .r0009 (rangeRequest .r0009 (.number low) (.number high)) =
        [MessageType.r0009.text, (Scalar.number low).toText,
          (Scalar.number high).toText] := by
      apply splitMessage_message .r0009 (List.cons_ne_nil _ _)
      simp only [List.forall_mem_cons]
      exact ⟨bracket_notMem_number low, bracket_notMem_number high, nofun⟩
    have hrange : respondRange wire receiver .r0009
        (rangeRequest .r0009 (.number low) (.number high)) = .done {} := by
      rw [respondRange, hsplit]
      simp only [List.getElem?_cons_succ, List.getElem?_cons_zero, Scalar.ofPart?,
        rangeQuery_text]
      rfl
    rcases handled_message wire receiver .r0009 _ store with hlong | hbranch
    · rw [rangeRequest, hlong]
    · rw [rangeRequest, hbranch]
      rw [rangeRequest] at hrange
      rw [dispatch, if_neg (by decide), if_neg (by decide), if_pos (Or.inr rfl), hrange]
      rfl
  rw [hqueried, eq_comm]
  exact expectedQuery_eq_nil h

theorem getmultiverse_queried_sample :
    ∃ msg, getmultiverse { low := -1, high := 1,
                           connection := .connection sampleConnection } =
        [(sampleConnection, msg)] ∧
      ((handled sampleWire sampleConnection (some msg) sampleHeights).queried =
        expectedQuery (-1) 1 ↔ (1 : Int) < 2) :=
  getmultiverse_queried sampleWire (by decide) sampleConnection sampleConnection
    sampleHeights

/-- Three stored blocks are requested, and none is looked up. -/
theorem getmultiverse_sample :
    getmultiverse { low := 3, high := 5, connection := .connection sampleConnection } =
      [(sampleConnection, "0009R01[*]3[*]5".toList)] ∧
    (handled sampleWire sampleConnection (some "0009R01[*]3[*]5".toList)
      sampleHeights).queried = [] ∧
    expectedQuery 3 5 = [.block .bc (.height 3), .block .bc (.height 4),
      .block .bc (.height 5)] := by
  refine ⟨?_, ?_, ?_⟩
  · decide +kernel
  · decide +kernel
  · decide +kernel

end BcNode.P2p
