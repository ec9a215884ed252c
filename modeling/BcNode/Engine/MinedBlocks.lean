import BcNode.Bc.Multiverse
import BcNode.Verified.Run

/-!
# Mined blocks and their broadcast

The subscription to `miner.block.new` hands a mined block to `broadcastNewBlock` when
`_processMinedBlock` resolves to `true`.  It does so for a block the multiverse has
accepted; but also for one it has refused, and for one whose hash is already among
the known blocks, which a peer may have put there.

An `Operation` is one block on its way through the engine, mined or from a peer.  In
a run each of them is resumed at any time, and in between anything may happen to the
multiverse and the store.  `broadcasts_own_iff` says which runs broadcast what the
multiverse has accepted and nothing else.
-/

namespace BcNode.Engine

open BcNode.Verified BcNode.Js BcNode.Protos BcNode.Mining BcNode.Bc

/-! ## One block on its way -/

/-- Where a block comes from. -/
inductive Source where
  | mined
  | peer
  deriving DecidableEq, Repr

/-- How far it has come.  A block that was handled has an answer of `addNextBlock`,
unless it was not asked for one, and has been handed to `broadcastNewBlock` or not. -/
inductive Progress where
  /-- `isValidBlockCached` of a peer's block. -/
  | validating
  | awaiting (call : Call)
  | decided (isNextBlock : Except JsError Bool)
  | handled (isNextBlock : Option (Except JsError Bool)) (broadcast : Bool)
  deriving DecidableEq

structure Operation where
  source : Source
  newBlock : BcBlock
  progress : Progress

/-- Whether a block is handed on to `broadcastNewBlock`, given the answer.  For a
refused one `_processMinedBlock` logs the highest block, which throws where there is
none, and resolves to `true` all the same. -/
def broadcastsAfter (node : Node) : Source → Except JsError Bool → Bool
  | _, .ok true => true
  | .mined, .ok false => (getHighestBlock node.chain).isSome
  | .peer, .ok false => false
  | _, .error _ => false

/-- An operation that is resumed. -/
def Operation.advance (pkg : Packages) (now : Nat) (node : Node) (op : Operation) :
    Node × Operation :=
  match op.progress with
  | .awaiting call =>
      match call.resume pkg now node with
      | (node, .inl isNextBlock) => (node, { op with progress := .decided isNextBlock })
      | (node, .inr call) => (node, { op with progress := .awaiting call })
  | .decided isNextBlock =>
      (node, { op with
        progress := .handled (some isNextBlock)
          (broadcastsAfter node op.source isNextBlock) })
  | _ => (node, op)

/-! ## The engine -/

/-- The known blocks, none of which is evicted, the multiverse with the store, and
everything that is on its way. -/
structure Intake where
  knownBlocksCache : List String
  node : Node
  operations : List Operation := []

/-- What happens.  The verdict on a peer's block is left open, and so is what all
others do to the multiverse and the store. -/
inductive IntakeEvent where
  | minerBlockNew (newBlock : Option BcBlock)
  | blockFromPeer (newBlock : Option BcBlock)
  | validated (i : Nat) (valid : Bool)
  | resume (i : Nat) (now : Nat)
  | others (node : Node)

def Intake.start (s : Intake) (op : Operation) : Intake :=
  { s with operations := s.operations ++ [op] }

/-- A block whose hash the cache has not seen. -/
def Intake.learn (s : Intake) (newBlock : BcBlock) : Intake :=
  { s with knownBlocksCache := newBlock.hash :: s.knownBlocksCache }

/-- `_processMinedBlock` up to `addNextBlock`. -/
def Intake.processMinedBlock (s : Intake) (newBlock : BcBlock) : Intake :=
  if newBlock.hash ∈ s.knownBlocksCache then
    s.start ⟨.mined, newBlock, .handled none true⟩
  else (s.learn newBlock).start ⟨.mined, newBlock, .awaiting (.called newBlock)⟩

/-- `blockFromPeer` up to `isValidBlockCached`. -/
def Intake.blockFromPeer (s : Intake) (newBlock : BcBlock) : Intake :=
  if newBlock.hash ∈ s.knownBlocksCache then s
  else (s.learn newBlock).start ⟨.peer, newBlock, .validating⟩

/-- What comes of a validated block. -/
def Operation.afterValidation (op : Operation) (valid : Bool) : Operation :=
  match op.progress with
  | .validating =>
      if valid then { op with progress := .awaiting (.called op.newBlock) }
      else { op with progress := .handled none false }
  | _ => op

def Intake.step (pkg : Packages) (s : Intake) : IntakeEvent → Intake
  | .minerBlockNew none => s
  | .minerBlockNew (some newBlock) => s.processMinedBlock newBlock
  | .blockFromPeer none => s
  | .blockFromPeer (some newBlock) => s.blockFromPeer newBlock
  | .validated i valid =>
      match s.operations[i]? with
      | none => s
      | some op => { s with operations := s.operations.set i (op.afterValidation valid) }
  | .resume i now =>
      match s.operations[i]? with
      | none => s
      | some op =>
          let (node, op) := op.advance pkg now s.node
          { s with node, operations := s.operations.set i op }
  | .others node => { s with node }

/-! ## What should hold -/

/-- A mined block is broadcast if and only if `addNextBlock` has resolved to `true`
for it. -/
def Operation.Faithful (op : Operation) : Prop :=
  op.source = .mined → ∀ isNextBlock broadcast,
    op.progress = .handled isNextBlock broadcast →
      (broadcast = true ↔ isNextBlock = some (.ok true))

/-- The block of an operation, if it was broadcast. -/
def Operation.broadcast? (op : Operation) : Option BcBlock :=
  match op.progress with
  | .handled _ true => some op.newBlock
  | _ => none

/-- Only what the multiverse has accepted is broadcast, and no hash twice. -/
structure Intake.Faithful (s : Intake) : Prop where
  own : ∀ op ∈ s.operations, op.Faithful
  once : ((s.operations.filterMap Operation.broadcast?).map (·.hash)).Nodup

/-- A mined block is not one of the known ones; and no block that the multiverse has
refused is still to be handled, unless the multiverse has been emptied since. -/
def Admissible (s : Intake) : IntakeEvent → Prop
  | .minerBlockNew (some newBlock) => newBlock.hash ∉ s.knownBlocksCache
  | .resume i _ =>
      ∀ op ∈ s.operations[i]?, op.source = .mined → op.progress = .decided (.ok false) →
        getHighestBlock s.node.chain = none
  | _ => True

instance (s : Intake) : ∀ event, Decidable (Admissible s event)
  | .minerBlockNew (some newBlock) =>
      inferInstanceAs (Decidable (newBlock.hash ∉ s.knownBlocksCache))
  | .resume i _ =>
      inferInstanceAs (Decidable (∀ op ∈ s.operations[i]?, op.source = .mined →
        op.progress = .decided (.ok false) → getHighestBlock s.node.chain = none))
  | .minerBlockNew none => .isTrue trivial
  | .blockFromPeer _ => .isTrue trivial
  | .validated _ _ => .isTrue trivial
  | .others _ => .isTrue trivial

/-! ## Every hash is taken up once -/

/-- The hash of a block that was new to the cache. -/
def Operation.taken? (op : Operation) : Option String :=
  match op.progress with
  | .handled none true => none
  | _ => some op.newBlock.hash

/-- The engine takes up every hash once.  What it has not taken up was mined. -/
structure Intake.Takes (s : Intake) : Prop where
  once : (s.operations.filterMap Operation.taken?).Nodup
  known : ∀ hash ∈ s.operations.filterMap Operation.taken?, hash ∈ s.knownBlocksCache
  mined : ∀ op ∈ s.operations, op.taken? = none → op.source = .mined

/-- To replace an element by one with the same image changes no image. -/
theorem filterMap_set {α β : Type} {f : α → Option β} {list : List α} {i : Nat} {a b : α}
    (hi : list[i]? = some a) (hf : f b = f a) :
    (list.set i b).filterMap f = list.filterMap f := by
  induction list generalizing i with
  | nil => rfl
  | cons c list ih =>
      cases i with
      | zero =>
          cases hi
          rw [List.set_cons_zero, List.filterMap_cons, List.filterMap_cons, hf]
      | succ i =>
          rw [List.set_cons_succ, List.filterMap_cons, List.filterMap_cons, ih hi]

/-- Where one map has an image, the other has the same. -/
theorem filterMap_sublist {α β : Type} {f g : α → Option β} {list : List α}
    (h : ∀ a ∈ list, ∀ b, f a = some b → g a = some b) :
    (list.filterMap f).Sublist (list.filterMap g) := by
  induction list with
  | nil => exact List.Sublist.refl _
  | cons a list ih =>
      have hrest := ih fun c hc => h c (List.mem_cons_of_mem _ hc)
      cases hf : f a with
      | some b =>
          rw [List.filterMap_cons_some hf, List.filterMap_cons_some
            (h a List.mem_cons_self b hf)]
          exact hrest.cons_cons b
      | none =>
          rw [List.filterMap_cons_none hf, List.filterMap_cons]
          split
          · exact hrest
          · exact hrest.cons _

theorem Intake.Takes.set {s : Intake} (h : s.Takes) {i : Nat} {op op' : Operation}
    (hi : s.operations[i]? = some op) (htaken : op'.taken? = op.taken?)
    (hsource : op'.source = op.source) (node : Node) :
    Intake.Takes { s with node, operations := s.operations.set i op' } := by
  refine ⟨?_, ?_, ?_⟩
  · rw [filterMap_set hi htaken]
    exact h.once
  · rw [filterMap_set hi htaken]
    exact h.known
  · intro other hother hnone
    rcases List.mem_or_eq_of_mem_set hother with hmem | rfl
    · exact h.mined other hmem hnone
    · rw [hsource]
      exact h.mined op (List.mem_of_getElem? hi) (htaken ▸ hnone)

/-- A block that is new to the cache is taken up. -/
theorem Intake.Takes.start {s : Intake} (h : s.Takes) {op : Operation}
    (hnew : op.newBlock.hash ∉ s.knownBlocksCache)
    (htaken : op.taken? = some op.newBlock.hash) :
    ((s.learn op.newBlock).start op).Takes := by
  have happend : ((s.learn op.newBlock).start op).operations.filterMap Operation.taken? =
      s.operations.filterMap Operation.taken? ++ [op.newBlock.hash] := by
    simp [Intake.start, Intake.learn, htaken]
  refine ⟨?_, ?_, ?_⟩
  · rw [happend, ← List.concat_eq_append]
    exact List.Nodup.concat (fun hmem => hnew (h.known _ hmem)) h.once
  · rw [happend]
    intro hash hmem
    rcases List.mem_append.1 hmem with hold | hlast
    · exact List.mem_cons_of_mem _ (h.known hash hold)
    · rw [List.mem_singleton.1 hlast]
      exact List.mem_cons_self
  · intro other hother hnone
    rcases List.mem_append.1 hother with hold | hlast
    · exact h.mined other hold hnone
    · rw [List.mem_singleton.1 hlast, htaken] at hnone
      cases hnone

/-- A mined block that is known already is not taken up. -/
theorem Intake.Takes.duplicate {s : Intake} (h : s.Takes) (newBlock : BcBlock) :
    (s.start ⟨.mined, newBlock, .handled none true⟩).Takes := by
  have hsame : (s.start ⟨.mined, newBlock, .handled none true⟩).operations.filterMap
      Operation.taken? = s.operations.filterMap Operation.taken? := by
    rw [Intake.start, List.filterMap_append]
    exact List.append_nil _
  refine ⟨?_, ?_, ?_⟩
  · rw [hsame]
    exact h.once
  · rw [hsame]
    exact h.known
  · intro op hop hnone
    rcases List.mem_append.1 hop with hold | hlast
    · exact h.mined op hold hnone
    · rw [List.mem_singleton.1 hlast]

theorem Operation.afterValidation_taken (op : Operation) (valid : Bool) :
    (op.afterValidation valid).taken? = op.taken? ∧
      (op.afterValidation valid).source = op.source := by
  unfold Operation.afterValidation
  split
  · next hprogress =>
      split <;> exact ⟨by simp [Operation.taken?, hprogress], rfl⟩
  · exact ⟨rfl, rfl⟩

theorem Operation.advance_taken (pkg : Packages) (now : Nat) (node : Node)
    (op : Operation) :
    (op.advance pkg now node).2.taken? = op.taken? ∧
      (op.advance pkg now node).2.source = op.source := by
  unfold Operation.advance
  split
  · next call hprogress =>
      split <;> exact ⟨by simp [Operation.taken?, hprogress], rfl⟩
  · next isNextBlock hprogress => exact ⟨by simp [Operation.taken?, hprogress], rfl⟩
  · exact ⟨rfl, rfl⟩

theorem Intake.Takes.step {s : Intake} (h : s.Takes) (pkg : Packages)
    (event : IntakeEvent) : (s.step pkg event).Takes := by
  cases event with
  | minerBlockNew newBlock =>
      cases newBlock with
      | none => exact h
      | some newBlock =>
          rw [Intake.step, Intake.processMinedBlock]
          split
          · exact h.duplicate newBlock
          · next hnew => exact @Intake.Takes.start s h ⟨.mined, newBlock, _⟩ hnew rfl
  | blockFromPeer newBlock =>
      cases newBlock with
      | none => exact h
      | some newBlock =>
          rw [Intake.step, Intake.blockFromPeer]
          split
          · exact h
          · next hnew => exact @Intake.Takes.start s h ⟨.peer, newBlock, _⟩ hnew rfl
  | validated i valid =>
      rw [Intake.step]
      split
      · exact h
      · next op hi =>
          obtain ⟨htaken, hsource⟩ := op.afterValidation_taken valid
          exact h.set hi htaken hsource s.node
  | resume i now =>
      rw [Intake.step]
      split
      · exact h
      · next op hi =>
          obtain ⟨htaken, hsource⟩ := op.advance_taken pkg now s.node
          exact h.set hi htaken hsource _
  | others node => exact ⟨h.once, h.known, h.mined⟩

/-- What is broadcast faithfully is broadcast once. -/
theorem Intake.Takes.faithful {s : Intake} (h : s.Takes)
    (hown : ∀ op ∈ s.operations, op.Faithful) : s.Faithful := by
  refine ⟨hown, ?_⟩
  rw [List.map_filterMap]
  refine h.once.sublist (filterMap_sublist fun op hop hash hbroadcast => ?_)
  obtain ⟨newBlock, hnewBlock, rfl⟩ := Option.map_eq_some_iff.1 hbroadcast
  unfold Operation.broadcast? at hnewBlock
  split at hnewBlock
  · next isNextBlock hprogress =>
      cases hnewBlock
      cases isNextBlock with
      | some answer => simp [Operation.taken?, hprogress]
      | none =>
          -- broadcast without an answer, so mined, and not faithful
          have hmined := h.mined op hop (by simp [Operation.taken?, hprogress])
          exact absurd ((hown op hop hmined none true hprogress).1 rfl) (by simp)
  · cases hnewBlock

/-! ## One step -/

/-- Until it is handled, nothing is wrong with an operation. -/
theorem Operation.faithful_of_not_handled {op : Operation}
    (h : ∀ isNextBlock broadcast, op.progress ≠ .handled isNextBlock broadcast) :
    op.Faithful :=
  fun _ isNextBlock broadcast hprogress => absurd hprogress (h isNextBlock broadcast)

/-- Of the operations only the one that is set counts. -/
theorem faithful_set_iff {operations : List Operation} (h : ∀ op ∈ operations, op.Faithful)
    {i : Nat} {op op' : Operation} (hi : operations[i]? = some op) :
    (∀ other ∈ operations.set i op', other.Faithful) ↔ op'.Faithful := by
  have hlt := (List.getElem?_eq_some_iff.1 hi).1
  constructor
  · exact fun hall => hall op' (List.mem_set hlt op')
  · intro hop' other hother
    rcases List.mem_or_eq_of_mem_set hother with hmem | rfl
    · exact h other hmem
    · exact hop'

theorem faithful_append_iff {operations : List Operation}
    (h : ∀ op ∈ operations, op.Faithful) (op' : Operation) :
    (∀ other ∈ operations ++ [op'], other.Faithful) ↔ op'.Faithful := by
  simp only [List.mem_append, List.mem_singleton, or_imp, forall_and, forall_eq]
  exact and_iff_right h

theorem Operation.afterValidation_faithful {op : Operation} (h : op.Faithful)
    (valid : Bool) :
    (op.afterValidation valid).Faithful := by
  unfold Operation.afterValidation
  split
  · split
    · exact Operation.faithful_of_not_handled fun _ _ h => by cases h
    · intro _ isNextBlock broadcast hprogress
      cases hprogress
      simp
  · exact h

/-- An operation that is resumed stays faithful, unless it handles a refusal. -/
theorem Operation.advance_faithful_iff {op : Operation} (h : op.Faithful) (pkg : Packages)
    (now : Nat) (node : Node) :
    (op.advance pkg now node).2.Faithful ↔
      (op.source = .mined → op.progress = .decided (.ok false) →
        getHighestBlock node.chain = none) := by
  unfold Operation.advance
  split
  · next call hprogress =>
      have hnot : op.progress ≠ .decided (.ok false) := by simp [hprogress]
      refine iff_of_true ?_ fun _ hdecided => absurd hdecided hnot
      split <;> exact Operation.faithful_of_not_handled fun _ _ h => by cases h
  · next isNextBlock hprogress =>
      constructor
      · intro hfaithful hmined hdecided
        cases hprogress.symm.trans hdecided
        have hiff := hfaithful hmined _ _ rfl
        rw [hmined, broadcastsAfter] at hiff
        simpa using hiff
      · intro hrefused hmined answer broadcast hhandled
        cases hhandled
        rw [hmined]
        cases isNextBlock with
        | error e => simp [broadcastsAfter]
        | ok accepted =>
            cases accepted with
            | true => simp [broadcastsAfter]
            | false => simp [broadcastsAfter, hrefused hmined hprogress]
  · next hnot =>
      exact iff_of_true h fun _ hdecided => absurd hdecided (hnot _)

/-- A step keeps the broadcasts faithful exactly if it is admissible. -/
theorem Intake.step_faithful_iff (pkg : Packages) {s : Intake} (htakes : s.Takes)
    (h : s.Faithful) (event : IntakeEvent) :
    (s.step pkg event).Faithful ↔ Admissible s event := by
  have hown : (s.step pkg event).Faithful ↔
      ∀ op ∈ (s.step pkg event).operations, op.Faithful :=
    ⟨fun hstep => hstep.own, (htakes.step pkg event).faithful⟩
  rw [hown]
  have hnew (op : Operation) (hprogress : ∀ isNextBlock broadcast,
      op.progress ≠ .handled isNextBlock broadcast) :=
    (faithful_append_iff h.own op).2 (Operation.faithful_of_not_handled hprogress)
  cases event with
  | minerBlockNew newBlock =>
      cases newBlock with
      | none => exact iff_of_true h.own trivial
      | some newBlock =>
          rw [Intake.step, Intake.processMinedBlock, Admissible]
          split
          · next hknown =>
              refine iff_of_false (fun hall => ?_) (not_not_intro hknown)
              have hdup := (faithful_append_iff h.own _).1 hall rfl none true rfl
              exact absurd (hdup.1 rfl) (by simp)
          · next hunknown => exact iff_of_true (hnew _ fun _ _ h => by cases h) hunknown
  | blockFromPeer newBlock =>
      refine iff_of_true ?_ trivial
      cases newBlock with
      | none => exact h.own
      | some newBlock =>
          rw [Intake.step, Intake.blockFromPeer]
          split
          · exact h.own
          · exact hnew _ fun _ _ h => by cases h
  | validated i valid =>
      refine iff_of_true ?_ trivial
      rw [Intake.step]
      split
      · exact h.own
      · next op hi =>
          have hop := h.own op (List.mem_of_getElem? hi)
          exact (faithful_set_iff h.own hi).2 (Operation.afterValidation_faithful hop valid)
  | resume i now =>
      rw [Intake.step, Admissible]
      split
      · next hi => simpa [hi] using h.own
      · next op hi =>
          have hop := h.own op (List.mem_of_getElem? hi)
          rw [hi]
          simp only [Option.mem_def, Option.some.injEq, forall_eq']
          exact (faithful_set_iff h.own hi).trans
            (Operation.advance_faithful_iff hop pkg now s.node)
  | others node => exact iff_of_true h.own trivial

/-- **What is broadcast.**  A run from which nothing is on its way yet broadcasts in
all its states exactly the mined blocks that the multiverse has accepted, each hash
once, if and only if all its steps are admissible. -/
theorem broadcasts_own_iff (pkg : Packages) {s : Intake} (hstart : s.operations = [])
    (events : List IntakeEvent) :
    Along (Intake.step pkg) Admissible s events ↔
      ∀ k, ((events.take k).foldl (Intake.step pkg) s).Faithful := by
  have htakes : s.Takes := by
    refine ⟨?_, ?_, ?_⟩ <;> rw [hstart] <;> simp
  have hfaithful : s.Faithful := htakes.faithful (by rw [hstart]; simp)
  exact Along.iff_invariant_within (T := Intake.Takes)
    (fun _ event h => h.step pkg event)
    (fun _ event h h' => Intake.step_faithful_iff pkg h h' event) htakes hfaithful

/-- The engine on the sample's previous block. -/
def sampleIntake : Intake where
  knownBlocksCache := []
  node := sampleNode sampleParent

/-- A mined block, accepted. -/
def sampleAccepted : List IntakeEvent :=
  .minerBlockNew (some sampleNextBlock) :: List.replicate 5 (.resume 0 1010)

theorem broadcasts_own_iff_sample :
    ((sampleAccepted.take 6).foldl (Intake.step samplePackages) sampleIntake).Faithful ∧
    ((sampleAccepted.take 6).foldl (Intake.step samplePackages)
      sampleIntake).operations.filterMap Operation.broadcast? = [sampleNextBlock] :=
  ⟨(broadcasts_own_iff samplePackages (s := sampleIntake) rfl sampleAccepted).1
    (by decide +kernel) 6, by decide +kernel⟩

/-- A peer's block comes in and is stored, and then a mined one for the same height. -/
def sampleStale : List IntakeEvent :=
  [.blockFromPeer (some sampleNextBlock), .validated 0 true] ++
    List.replicate 5 (.resume 0 1010) ++
    [.others
        { chain := [sampleNextBlock, samplePrevious]
          store := (sampleStore samplePrevious).set (.block .bc .latest)
            (.bcBlock sampleNextBlock) },
      .minerBlockNew (some sampleRival)] ++
    List.replicate 5 (.resume 1 1010)

/-- The multiverse refuses it, and it is broadcast. -/
theorem refused_broadcast :
    ¬ ∀ (pkg : Packages) (s : Intake) (events : List IntakeEvent),
      s.operations = [] → (events.foldl (Intake.step pkg) s).Faithful := by
  intro hall
  have hrefused : ∃ op ∈ (sampleStale.foldl (Intake.step samplePackages)
      sampleIntake).operations,
      op.source = .mined ∧ op.progress = .handled (some (.ok false)) true := by
    decide +kernel
  obtain ⟨op, hop, hmined, hprogress⟩ := hrefused
  have hown := (hall samplePackages sampleIntake sampleStale rfl).own op hop hmined _ _
    hprogress
  exact absurd (hown.1 rfl) (by decide)

/-- So is a mined block that a peer has delivered first, without being offered. -/
example : (([.blockFromPeer (some sampleNextBlock), .minerBlockNew (some sampleNextBlock)] :
    List IntakeEvent).foldl (Intake.step samplePackages) sampleIntake).operations.map
      (·.progress) = [.validating, .handled none true] := by
  decide +kernel

end BcNode.Engine
