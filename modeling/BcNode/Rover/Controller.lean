import BcNode.Protos.Core
import BcNode.Verified.Run

/-!
# The NEO and WAV rovers

A rover polls a child chain for one height after the other.  `_pendingRequests` is
its queue of heights with the time of each request, `_blockCache` the heights it
has seen, `_pendingFibers` the blocks that wait for their time.  Each cycle takes
one request off the queue and either puts it back, because it is not due or
because it failed, or pushes the block and queues the next height.

The two controllers are one program with other numbers and another conversion of
the chain's blocks: `Source` holds the differences, `neo` and `wav` are the two.
Clock readings, random draws and answers are the events of a run.  The cache keeps
every height here; in the source it is an LRU cache of 500.

The cache takes a height in before its block is converted.  If the conversion
throws, the height is queued again but already counts as seen, and its block is
never pushed: `skips_unconverted`.  `pipelines_intact` shows that this is all that
can go wrong.
-/

namespace BcNode.Rover

open BcNode.Verified BcNode.Js BcNode.Protos

/-- `n << 0`. -/
def toInt32 (n : Int) : Int := n.bmod 4294967296

/-- `randRange`, for times that are not negative; `draw` is the random part. -/
def randRange (draw : Nat) (min max : Int) : Int :=
  toInt32 (min + (draw % (max - min + 1).toNat : Nat))

/-! ## Blocks of the two chains -/

/-- A block as a NEO node reports it.  `tx` may be missing, and so may each
transaction in it. -/
structure NeoBlock where
  index : Nat
  hash : String
  previousblockhash : String
  merkleroot : String
  time : Nat
  tx : Option (List (Option String))
  deriving DecidableEq, Repr

/-- A property read on each element of a list that may be missing. -/
def readAll (list : Option (List (Option String))) : Except JsError (List String) :=
  match list with
  | none => .error .typeError
  | some items => items.mapM fun item =>
      match item with
      | none => .error .typeError
      | some property => .ok property

/-- `_createUnifiedBlock` of the NEO controller. -/
def neoCreateUnifiedBlock (block : NeoBlock) : Except JsError Block := do
  let _transactions ← readAll block.tx
  return {
    blockchain := "neo"
    hash := block.hash
    previousHash := block.previousblockhash
    timestamp := block.time * 1000
    height := block.index
    merkleRoot := block.merkleroot }

/-- A block as a Waves node reports it. -/
structure WavBlock where
  height : Nat
  signature : String
  reference : String
  timestamp : Nat
  /-- `generation-signature` of `nxt-consensus`, which may be missing. -/
  nxtConsensus : Option String
  /-- The ids of the transactions. -/
  transactions : Option (List (Option String))
  deriving DecidableEq, Repr

/-- `getMerkleRoot` of the WAV controller. -/
def wavMerkleRoot (blake2b : String → String) (block : WavBlock) : Except JsError String :=
  match block.transactions with
  | none | some [] => .ok (blake2b block.signature)
  | some transactions => do
      let txs ← readAll (some transactions)
      return txs.foldl (fun acc el => blake2b (acc ++ el)) ""

/-- `_createUnifiedBlock` of the WAV controller. -/
def wavCreateUnifiedBlock (blake2b : String → String) (block : WavBlock) :
    Except JsError Block := do
  let root ← wavMerkleRoot blake2b block
  if block.nxtConsensus.isNone then throw .typeError
  let _transactions ← readAll block.transactions
  return {
    blockchain := "wav"
    hash := block.signature
    previousHash := block.reference
    timestamp := block.timestamp
    height := block.height
    merkleRoot := root }

/-! ## The two controllers -/

/-- What a cycle reads from the clock, the random engine and, in the WAV
controller, the backoff. -/
structure Readings where
  /-- `ts.nowSeconds()` after the block was converted. -/
  currentTime : Nat
  /-- The two readings in the error handler. -/
  retryFrom : Nat
  retryTo : Nat
  /-- `Math.ceil(this._backoff.duration() / 1000)`. -/
  moveBySeconds : Nat
  draw : Nat
  deriving DecidableEq, Repr

/-- Where the two controllers differ.  `Start` is the answer roving starts from,
`Reply` the answer to `getBlock`. -/
structure Source (Start Reply : Type) where
  dfBound : Nat
  dfVoid : Nat
  isStandalone : Bool
  /-- The time and the height that the first request is made of. -/
  start : Start → Except JsError (Int × Int)
  /-- How much later the second request is. -/
  secondLater : Nat → Int
  /-- What is done to an answer before its block is pushed. -/
  convert : Reply → Except JsError Block
  /-- By how much the error handler postpones the queue. -/
  postpone : Readings → Int
  /-- When the error handler tries a height again. -/
  retryTime : Readings → Int

/-- The NEO controller; `none` is an answer without a block. -/
def neo (dfBound dfVoid : Nat) (isStandalone : Bool) :
    Source (Option NeoBlock) (Option NeoBlock) where
  dfBound := dfBound
  dfVoid := dfVoid
  isStandalone := isStandalone
  start
    | some block => .ok (block.time, block.index)
    | none => .error .typeError
  secondLater _ := 5
  convert
    | some block => neoCreateUnifiedBlock block
    | none => .error .typeError
  postpone _ := 10
  retryTime r := randRange r.draw r.retryFrom (r.retryTo + 10)

/-- What `getLastHeight` of the WAV controller resolves to. -/
structure WavHeader where
  height : Nat
  timestamp : Nat
  deriving DecidableEq, Repr

/-- The WAV controller. -/
def wav (blake2b : String → String) (dfBound dfVoid : Nat) (isStandalone : Bool) :
    Source WavHeader WavBlock where
  dfBound := dfBound
  dfVoid := dfVoid
  isStandalone := isStandalone
  start header := .ok (toInt32 (header.timestamp / 1000 : Nat), (header.height : Int) - 4)
  secondLater draw := randRange draw 5 15
  convert := wavCreateUnifiedBlock blake2b
  postpone r := r.moveBySeconds
  retryTime r := randRange r.draw r.retryFrom (r.retryTo + 10) + r.moveBySeconds

/-! ## The cycle -/

/-- Where a cycle stands: its timer is running, the answer that roving starts from
is awaited, or the answer to `getBlock` is. -/
inductive Phase where
  | timer
  | starting
  | requesting (requestBlockHeight : Int)
  deriving DecidableEq, Repr

/-- The fields of a controller.  `released` are the fibers that `checkFibers` has
taken off `pendingFibers`. -/
structure Controller where
  pendingRequests : List (Int × Int) := []
  pendingFibers : List (Int × Block) := []
  blockCache : List Int := []
  phase : Phase := .timer
  released : List (Int × Block) := []
  exited : Bool := false
  deriving DecidableEq, Repr

/-- What `getBlock` and its like end in. -/
inductive Answer (Reply : Type) where
  | rejected
  | resolved (reply : Reply)
  deriving DecidableEq, Repr

/-- What happens to a controller. -/
inductive Event (Start Reply : Type) where
  /-- The timer of a cycle runs out. -/
  | timeout (now : Nat)
  | started (answer : Answer Start) (draw secondDraw : Nat)
  | received (answer : Answer Reply) (readings : Readings)
  /-- The interval of `checkFibers`. -/
  | fiberCheck (now : Nat)
  deriving DecidableEq, Repr

variable {Start Reply : Type}

/-- The body of a cycle's timer. -/
def Controller.cycle (c : Controller) (now : Nat) : Controller :=
  match c.pendingRequests with
  | [] => { c with phase := .starting }
  | (requestTimestamp, requestBlockHeight) :: pendingRequests =>
      if requestTimestamp ≤ now then
        { c with pendingRequests, phase := .requesting requestBlockHeight }
      else c

/-- The start of roving. -/
def Controller.onStart (src : Source Start Reply) (c : Controller)
    (answer : Answer Start) (draw secondDraw : Nat) : Controller :=
  match answer with
  | .rejected => { c with phase := .timer }
  | .resolved reply =>
      match src.start reply with
      | .error _ => { c with phase := .timer }
      | .ok (ts, height) =>
          let requestTime := randRange draw ts (ts + src.dfBound)
          { c with
            pendingRequests := c.pendingRequests ++
              [(requestTime, height), (requestTime + src.secondLater secondDraw, height + 1)]
            phase := .timer }

/-- The `catch` handler of a cycle: the remaining requests are postponed and the
current one is put back in front. -/
def Controller.onError (src : Source Start Reply) (c : Controller)
    (requestBlockHeight : Int) (readings : Readings) : Controller :=
  { c with
    pendingRequests := (src.retryTime readings, requestBlockHeight) ::
      c.pendingRequests.map fun request => (request.1 + src.postpone readings, request.2)
    phase := .timer }

/-- When the next height is requested. -/
def nextRequestTime (src : Source Start Reply) (readings : Readings)
    (formatTimestamp : Int) : Int :=
  if (readings.currentTime : Int) + 5 < formatTimestamp + src.dfBound then
    randRange readings.draw readings.currentTime (formatTimestamp + src.dfBound)
  else randRange readings.draw readings.currentTime (readings.currentTime + 5)

/-- The answer to `getBlock`. -/
def Controller.onBlock (src : Source Start Reply) (c : Controller)
    (requestBlockHeight : Int) (answer : Answer Reply) (readings : Readings) :
    Controller :=
  match answer with
  | .rejected => c.onError src requestBlockHeight readings
  | .resolved reply =>
      if c.blockCache.contains requestBlockHeight then { c with phase := .timer }
      else
        let seen := { c with blockCache := requestBlockHeight :: c.blockCache }
        match src.convert reply with
        | .error _ => seen.onError src requestBlockHeight readings
        | .ok unifiedBlock =>
            let formatTimestamp := toInt32 (unifiedBlock.timestamp / 1000 : Nat)
            let pushed := { seen with
              pendingFibers := seen.pendingFibers ++ [(formatTimestamp, unifiedBlock)] }
            match pushed.pendingRequests.getLast? with
            -- reading the height of a last request that is not there throws
            | none => pushed.onError src requestBlockHeight readings
            | some (_, maxPendingHeight) =>
                { pushed with
                  pendingRequests := pushed.pendingRequests ++
                    [(nextRequestTime src readings formatTimestamp, maxPendingHeight + 1)]
                  phase := .timer }

/-- `checkFibers`. -/
def Controller.checkFibers (src : Source Start Reply) (c : Controller) (now : Nat) :
    Controller :=
  match c.pendingFibers with
  | [] => c
  | (fiberTs, fiberBlock) :: pendingFibers =>
      if fiberTs + src.dfBound < now then
        { c with
          pendingFibers
          released := c.released ++ [(fiberTs, fiberBlock)]
          exited := !src.isStandalone && decide (fiberTs + src.dfVoid < now) }
      else c

/-- One event.  An event that nothing waits for changes nothing, and neither does
any event after the process has exited. -/
def Controller.step (src : Source Start Reply) (c : Controller)
    (event : Event Start Reply) : Controller :=
  if c.exited then c
  else
    match event, c.phase with
    | .timeout now, .timer => c.cycle now
    | .started answer draw secondDraw, .starting => c.onStart src answer draw secondDraw
    | .received answer readings, .requesting height => c.onBlock src height answer readings
    | .fiberCheck now, _ => c.checkFibers src now
    | _, _ => c

/-- The controller after a run. -/
def run (src : Source Start Reply) (events : List (Event Start Reply)) : Controller :=
  events.foldl (Controller.step src) {}

/-- The heights ever pushed to `pendingFibers`, in order. -/
def Controller.pushedHeights (c : Controller) : List Int :=
  (c.released ++ c.pendingFibers).map fun fiber => (fiber.2.height : Int)

/-! ## No height is skipped, none is pushed twice -/

/-- The reply that an event brings to the request a cycle waits for, with the
height requested. -/
def Controller.replyTo (c : Controller) (event : Event Start Reply) :
    Option (Int × Reply) :=
  match event, c.phase with
  | .received (.resolved reply) _, .requesting height => some (height, reply)
  | _, _ => none

/-- The node answers a request with the block of that height. -/
def Source.answersAsAsked (src : Source Start Reply) (c : Controller)
    (event : Event Start Reply) : Bool :=
  match c.replyTo event with
  | some (height, reply) =>
      match src.convert reply with
      | .ok block => block.height == height
      | .error _ => true
  | none => true

/-- The conversion of an answer does not throw. -/
def Source.converts (src : Source Start Reply) (c : Controller)
    (event : Event Start Reply) : Bool :=
  match c.replyTo event with
  | some (_, reply) => (src.convert reply).isOk
  | none => true

theorem Source.converts_reply {src : Source Start Reply} {c : Controller}
    {event : Event Start Reply} {height : Int} {reply : Reply}
    (hreply : c.replyTo event = some (height, reply))
    (hnode : src.answersAsAsked c event = true) (hconverts : src.converts c event = true) :
    ∃ block, src.convert reply = .ok block ∧ (block.height : Int) = height := by
  simp only [Source.answersAsAsked, Source.converts, hreply] at hnode hconverts
  cases hblock : src.convert reply with
  | error e =>
      rw [hblock] at hconverts
      cases hconverts
  | ok block =>
      rw [hblock] at hnode
      exact ⟨block, rfl, by simpa using hnode⟩

/-- `heights` counts up from `first`. -/
def Consecutive (first : Int) (heights : List Int) : Prop :=
  heights = (List.range heights.length).map fun (i : Nat) => first + i

/-- The first height that is queued in a run from `c`. -/
def firstRequested (src : Source Start Reply) (c : Controller) :
    List (Event Start Reply) → Option Int
  | [] => c.pendingRequests.head?.map Prod.snd
  | event :: events =>
      match c.pendingRequests with
      | (_, height) :: _ => some height
      | [] => firstRequested src (c.step src event) events

/-- Nothing is pushed before roving has started; from then on the heights pushed
count up from the first one requested, and the queue is not empty. -/
structure Intact (src : Source Start Reply) (events : List (Event Start Reply)) :
    Prop where
  before : firstRequested src {} events = none → (run src events).pushedHeights = []
  since : ∀ first, firstRequested src {} events = some first →
    Consecutive first (run src events).pushedHeights ∧
      (run src events).pendingRequests ≠ []

/-- The heights a controller still has to fetch. -/
def Controller.outstanding (c : Controller) : List Int :=
  match c.phase with
  | .requesting height => height :: c.pendingRequests.map Prod.snd
  | _ => c.pendingRequests.map Prod.snd

/-- Before roving has started. -/
structure NotStarted (c : Controller) : Prop where
  pendingRequests : c.pendingRequests = []
  blockCache : c.blockCache = []
  pushed : c.pushedHeights = []
  phase : c.phase = .timer ∨ c.phase = .starting

/-- Roving has come as far as `next`: everything from `first` up to it is pushed,
nothing beyond it has been seen, and it and its successor are to be fetched. -/
structure Roving (first next : Int) (c : Controller) : Prop where
  pushed : Consecutive first c.pushedHeights
  next_eq : next = first + c.pushedHeights.length
  seen : ∀ height ∈ c.blockCache, height < next
  outstanding : c.outstanding = [next, next + 1]
  phase : c.phase ≠ .starting

theorem Consecutive.of_nil {first : Int} {heights : List Int} (h : heights = []) :
    Consecutive first heights := by
  rw [h]
  rfl

theorem Consecutive.concat {first : Int} {heights : List Int}
    (h : Consecutive first heights) :
    Consecutive first (heights ++ [first + heights.length]) := by
  rw [Consecutive, List.length_append, List.length_singleton, List.range_succ,
    List.map_append, ← h]
  rfl

/-- A controller that roves always has a request left. -/
theorem Roving.pendingRequests_ne_nil {first next : Int} {c : Controller}
    (h : Roving first next c) : c.pendingRequests ≠ [] := by
  intro hnil
  have hout := h.outstanding
  unfold Controller.outstanding at hout
  rw [hnil] at hout
  split at hout <;> simp at hout

theorem Controller.checkFibers_pushedHeights (src : Source Start Reply) (c : Controller)
    (now : Nat) : (c.checkFibers src now).pushedHeights = c.pushedHeights := by
  unfold Controller.checkFibers
  split
  · rfl
  · next hfibers =>
      split
      · simp [Controller.pushedHeights, hfibers]
      · rfl

theorem Roving.checkFibers (src : Source Start Reply) {first next : Int} {c : Controller}
    (h : Roving first next c) (now : Nat) : Roving first next (c.checkFibers src now) := by
  have hpushed := c.checkFibers_pushedHeights src now
  have hrest : (c.checkFibers src now).blockCache = c.blockCache ∧
      (c.checkFibers src now).outstanding = c.outstanding ∧
      (c.checkFibers src now).phase = c.phase := by
    unfold Controller.checkFibers
    split
    · exact ⟨rfl, rfl, rfl⟩
    · split <;> exact ⟨rfl, rfl, rfl⟩
  obtain ⟨hcache, hout, hphase⟩ := hrest
  exact ⟨hpushed ▸ h.pushed, hpushed ▸ h.next_eq, hcache ▸ h.seen, hout ▸ h.outstanding,
    hphase ▸ h.phase⟩

theorem Roving.cycle {first next : Int} {c : Controller} (h : Roving first next c)
    (hphase : c.phase = .timer) (now : Nat) : Roving first next (c.cycle now) := by
  have hout := h.outstanding
  unfold Controller.cycle
  split
  · next hnil => exact absurd hnil h.pendingRequests_ne_nil
  · next ts height rest hqueue =>
      split
      · simp only [Controller.outstanding, hphase, hqueue, List.map_cons] at hout
        exact { h with
          outstanding := hout
          phase := by simp }
      · exact h

/-- A failure puts the requested height back where it was. -/
theorem Roving.onError (src : Source Start Reply) {first next : Int} {c : Controller}
    (h : Roving first next c) {height : Int} (hphase : c.phase = .requesting height)
    (readings : Readings) : Roving first next (c.onError src height readings) := by
  have hout := h.outstanding
  simp only [Controller.outstanding, hphase] at hout
  refine { h with outstanding := ?_, phase := by simp [Controller.onError] }
  simp only [Controller.onError, Controller.outstanding, List.map_cons, List.map_map]
  exact hout

/-- The requested height is the next one, and its successor alone is queued. -/
theorem Roving.requesting {first next : Int} {c : Controller} (h : Roving first next c)
    {height : Int} (hphase : c.phase = .requesting height) :
    height = next ∧ ∃ ts, c.pendingRequests = [(ts, next + 1)] := by
  have hout := h.outstanding
  simp only [Controller.outstanding, hphase, List.cons.injEq, List.map_eq_cons_iff,
    List.map_eq_nil_iff] at hout
  obtain ⟨rfl, ⟨ts, queued⟩, rest, hqueue, rfl, rfl⟩ := hout
  exact ⟨rfl, ts, hqueue⟩

/-- A block that converts is pushed, and the height after the queued one queued. -/
theorem Roving.onBlock (src : Source Start Reply) {first next : Int} {c : Controller}
    (h : Roving first next c) {height : Int} (hphase : c.phase = .requesting height)
    {reply : Reply} {block : Block} (hconvert : src.convert reply = .ok block)
    (hheight : (block.height : Int) = height) (readings : Readings) :
    Roving first (next + 1) (c.onBlock src height (.resolved reply) readings) := by
  obtain ⟨rfl, ts, hqueue⟩ := h.requesting hphase
  have hunseen : c.blockCache.contains height = false := by
    rw [Bool.eq_false_iff]
    intro hseen
    have hlt := h.seen height (List.contains_iff_mem.1 hseen)
    omega
  have hpushed : ∀ ts : Int, (c.released ++ (c.pendingFibers ++ [(ts, block)])).map
      (fun fiber => (fiber.2.height : Int)) = c.pushedHeights ++ [height] := by
    intro ts
    simp [Controller.pushedHeights, hheight]
  simp only [Controller.onBlock, hunseen, Bool.false_eq_true, if_false, hconvert, hqueue,
    List.getLast?_singleton]
  constructor
  · rw [Controller.pushedHeights, hpushed, h.next_eq]
    exact h.pushed.concat
  · rw [Controller.pushedHeights, hpushed, List.length_append, List.length_singleton]
    have hnext := h.next_eq
    omega
  · intro seen hseen
    rcases List.mem_cons.1 hseen with rfl | hseen
    · omega
    · have hlt := h.seen seen hseen
      omega
  · simp [Controller.outstanding]
  · simp

/-- One event of a rover whose node answers as asked and whose conversions
succeed. -/
theorem Roving.step (src : Source Start Reply) {first next : Int} {c : Controller}
    (h : Roving first next c) (event : Event Start Reply)
    (hnode : src.answersAsAsked c event = true) (hconverts : src.converts c event = true) :
    ∃ next', Roving first next' (c.step src event) := by
  unfold Controller.step
  split
  · exact ⟨next, h⟩
  · split
    · next now hphase => exact ⟨next, h.cycle hphase now⟩
    · next hphase => exact absurd hphase h.phase
    · next answer readings height hphase =>
        cases answer with
        | rejected => exact ⟨next, h.onError src hphase readings⟩
        | resolved reply =>
            have hreply : c.replyTo (.received (.resolved reply) readings :
                Event Start Reply) = some (height, reply) := by
              simp only [Controller.replyTo, hphase]
            obtain ⟨block, hconvert, hheight⟩ :=
              Source.converts_reply hreply hnode hconverts
            exact ⟨next + 1, h.onBlock src hphase hconvert hheight readings⟩
    · next now => exact ⟨next, h.checkFibers src now⟩
    · exact ⟨next, h⟩

/-- A cycle finds nothing to request and asks where to start. -/
theorem NotStarted.cycle_eq {c : Controller} (h : NotStarted c) (now : Nat) :
    c.cycle now = { c with phase := .starting } := by
  unfold Controller.cycle
  split
  · rfl
  · next hcons => exact absurd (hcons.symm.trans h.pendingRequests) (by simp)

theorem NotStarted.checkFibers_eq (src : Source Start Reply) {c : Controller}
    (h : NotStarted c) (now : Nat) : c.checkFibers src now = c := by
  have hfibers : c.pendingFibers = [] := by
    have hpushed := h.pushed
    simp only [Controller.pushedHeights, List.map_append, List.append_eq_nil_iff,
      List.map_eq_nil_iff] at hpushed
    exact hpushed.2
  unfold Controller.checkFibers
  split
  · rfl
  · next hcons => exact absurd (hcons.symm.trans hfibers) (by simp)

/-- The answer to where to start puts two heights on the queue, or is no use. -/
theorem NotStarted.onStart (src : Source Start Reply) {c : Controller} (h : NotStarted c)
    (answer : Answer Start) (draw secondDraw : Nat) :
    NotStarted (c.onStart src answer draw secondDraw) ∨
      ∃ first, Roving first first (c.onStart src answer draw secondDraw) ∧
        (c.onStart src answer draw secondDraw).pendingRequests.head?.map Prod.snd =
          some first := by
  cases answer with
  | rejected => exact Or.inl { h with phase := Or.inl rfl }
  | resolved reply =>
      simp only [Controller.onStart]
      split
      · exact Or.inl { h with phase := Or.inl rfl }
      · next ts height hstart =>
          right
          refine ⟨height, ⟨?_, ?_, ?_, ?_, ?_⟩, ?_⟩
          · exact Consecutive.of_nil h.pushed
          · exact (h.pushed ▸ (Int.add_zero height).symm :
              height = height + c.pushedHeights.length)
          · simp [h.blockCache]
          · simp [Controller.outstanding, h.pendingRequests]
          · simp
          · simp [h.pendingRequests]

/-- One event before roving has started: it starts with two heights queued, or
nothing has happened yet. -/
theorem NotStarted.step (src : Source Start Reply) {c : Controller} (h : NotStarted c)
    (event : Event Start Reply) :
    NotStarted (c.step src event) ∨
      ∃ first, Roving first first (c.step src event) ∧
        (c.step src event).pendingRequests.head?.map Prod.snd = some first := by
  unfold Controller.step
  split
  · exact Or.inl h
  · split
    · next now _ => exact Or.inl (h.cycle_eq now ▸ { h with phase := Or.inr rfl })
    · next answer draw secondDraw _ => exact h.onStart src answer draw secondDraw
    · next hphase =>
        rcases h.phase with htimer | hstarting
        · rw [htimer] at hphase
          cases hphase
        · rw [hstarting] at hphase
          cases hphase
    · next now => exact Or.inl ((h.checkFibers_eq src now).symm ▸ h)
    · exact Or.inl h

theorem firstRequested_of_head? {src : Source Start Reply} {c : Controller} {first : Int}
    (h : c.pendingRequests.head?.map Prod.snd = some first)
    (events : List (Event Start Reply)) : firstRequested src c events = some first := by
  cases events with
  | nil => exact h
  | cons event events =>
      unfold firstRequested
      split
      · next hqueue =>
          rw [hqueue] at h
          exact h
      · next hqueue =>
          rw [hqueue] at h
          cases h

/-- A run from before the start: either it has not started yet, or it roves from
the first height requested on. -/
theorem NotStarted.run {src : Source Start Reply} {events : List (Event Start Reply)}
    {c : Controller} (h : NotStarted c)
    (hall : Along (Controller.step src)
      (fun c event => src.answersAsAsked c event ∧ src.converts c event) c events) :
    (firstRequested src c events = none →
        NotStarted (events.foldl (Controller.step src) c)) ∧
      ∀ first, firstRequested src c events = some first →
        ∃ next, Roving first next (events.foldl (Controller.step src) c) := by
  induction events generalizing c with
  | nil =>
      refine ⟨fun _ => h, fun first hfirst => ?_⟩
      rw [firstRequested, h.pendingRequests] at hfirst
      cases hfirst
  | cons event events ih =>
      have hunfold : firstRequested src c (event :: events) =
          firstRequested src (c.step src event) events := by
        rw [firstRequested, h.pendingRequests]
      rw [hunfold]
      rcases h.step src event with hstill | ⟨first, hroving, hhead⟩
      · exact ih hstill hall.2
      · rw [firstRequested_of_head? hhead]
        refine ⟨fun hnone => (by cases hnone), fun first' hfirst => ?_⟩
        cases hfirst
        exact hall.2.invariant (I := fun c => ∃ next, Roving first next c)
          (fun c event ⟨next, hc⟩ hevent => hc.step src event hevent.1 hevent.2)
          ⟨first, hroving⟩

/-- A rover whose node answers as asked and whose conversions never throw loses and
repeats nothing, at any point of its run. -/
theorem intact_of_converts {src : Source Start Reply} {events : List (Event Start Reply)}
    (hnode : Along (Controller.step src) (fun c event => src.answersAsAsked c event) {}
      events)
    (hconverts : Along (Controller.step src) (fun c event => src.converts c event) {}
      events) (k : Nat) :
    Intact src (events.take k) := by
  have hstart : NotStarted {} := ⟨rfl, rfl, rfl, Or.inl rfl⟩
  obtain ⟨hbefore, hsince⟩ := hstart.run ((hnode.and hconverts).take k)
  refine ⟨fun hnone => (hbefore hnone).pushed, fun first hfirst => ?_⟩
  obtain ⟨next, hroving⟩ := hsince first hfirst
  exact ⟨hroving.pushed, hroving.pendingRequests_ne_nil⟩

/-- **The pipeline loses and repeats nothing.**  In every run of either controller
in which the node answers each request with the block of that height, or fails, and
no answer's conversion throws, the heights pushed count up from the first one
requested, and the queue is never empty again. -/
theorem pipelines_intact (blake2b : String → String) (dfBound dfVoid : Nat)
    (isStandalone : Bool) :
    (∀ events : List (Event (Option NeoBlock) (Option NeoBlock)),
      Along (Controller.step (neo dfBound dfVoid isStandalone))
        (fun c event => (neo dfBound dfVoid isStandalone).answersAsAsked c event) {}
        events →
      Along (Controller.step (neo dfBound dfVoid isStandalone))
        (fun c event => (neo dfBound dfVoid isStandalone).converts c event) {} events →
      ∀ k, Intact (neo dfBound dfVoid isStandalone) (events.take k)) ∧
    (∀ events : List (Event WavHeader WavBlock),
      Along (Controller.step (wav blake2b dfBound dfVoid isStandalone))
        (fun c event => (wav blake2b dfBound dfVoid isStandalone).answersAsAsked c event)
        {} events →
      Along (Controller.step (wav blake2b dfBound dfVoid isStandalone))
        (fun c event => (wav blake2b dfBound dfVoid isStandalone).converts c event) {}
        events →
      ∀ k, Intact (wav blake2b dfBound dfVoid isStandalone) (events.take k)) :=
  ⟨fun _ hnode hconverts => intact_of_converts hnode hconverts,
    fun _ hnode hconverts => intact_of_converts hnode hconverts⟩

/-- A NEO block of a given height; the second one lacks its transactions. -/
def sampleNeoBlock (index : Nat) : NeoBlock := ⟨index, "", "", "", 100, some []⟩
def sampleNeoBlockWithoutTx (index : Nat) : NeoBlock := ⟨index, "", "", "", 100, none⟩

def sampleWavBlock (height : Nat) : WavBlock :=
  ⟨height, "", "", 100000, some "", some []⟩

/-- An answer to `getBlock` at second 1000. -/
def sampleReceived {Start Reply : Type} (reply : Reply) : Event Start Reply :=
  .received (.resolved reply) ⟨1000, 1000, 1000, 5, 0⟩

/-- A failed request at second 1000. -/
def sampleRejected {Start Reply : Type} : Event Start Reply :=
  .received .rejected ⟨1000, 1000, 1000, 5, 0⟩

theorem pipelines_intact_sample :
    (∀ k, Intact (neo 180 600 false)
      ([.timeout 1000, .started (.resolved (some (sampleNeoBlock 7))) 0 0,
        .timeout 1000, sampleReceived (some (sampleNeoBlock 7)), .timeout 1005,
        sampleRejected, .timeout 1020, sampleReceived (some (sampleNeoBlock 8)),
        .fiberCheck 1030].take k)) ∧
    (∀ k, Intact (wav id 300 600 false)
      ([.timeout 1000, .started (.resolved ⟨11, 100000⟩) 0 0, .timeout 1000,
        sampleRejected, .timeout 1005, sampleReceived (sampleWavBlock 7), .timeout 1020,
        sampleReceived (sampleWavBlock 8)].take k)) :=
  ⟨(pipelines_intact id 180 600 false).1 _ (by decide) (by decide),
    (pipelines_intact id 300 600 false).2 _ (by decide) (by decide)⟩

/-- A node that answers as asked, but once without the transactions of block 7: the
height is queued again, counts as seen, and the pipeline goes on with 8.  The last
answers leave the queue empty. -/
theorem skips_unconverted :
    ¬ ∀ (dfBound dfVoid : Nat) (isStandalone : Bool)
        (events : List (Event (Option NeoBlock) (Option NeoBlock))),
      Along (Controller.step (neo dfBound dfVoid isStandalone))
        (fun c event => (neo dfBound dfVoid isStandalone).answersAsAsked c event) {}
        events →
      ∀ k, Intact (neo dfBound dfVoid isStandalone) (events.take k) := by
  intro h
  have hintact := h 180 600 false
    [.timeout 1000, .started (.resolved (some (sampleNeoBlock 7))) 0 0, .timeout 1000,
      sampleReceived (some (sampleNeoBlockWithoutTx 7)), .timeout 1020,
      sampleReceived (some (sampleNeoBlock 7)), .timeout 1030,
      sampleReceived (some (sampleNeoBlock 8)), .timeout 1040,
      sampleReceived (some (sampleNeoBlock 8))] (by decide) 10
  have hsince := hintact.since 7 (by decide)
  exact absurd hsince (by unfold Consecutive; decide)

end BcNode.Rover
