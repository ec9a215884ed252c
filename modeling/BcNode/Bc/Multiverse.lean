import BcNode.Mining.Agreement
import BcNode.Persistence.Store

/-!
# The multiverse: choosing the next block

`addNextBlock` of `bc/multiverse` decides whether a block becomes the head of
the in-memory list `_chain`.  It compares the block with what the store has
under `bc.block.latest` and `bc.block.parent`, which it awaits one after the
other, and only then looks at `_chain` again.

The decision itself does not look at `_chain`.  `evaluate` is everything from
the second `await` to a `return` or to one of the three things that follow
(`Verdict`); `settle` is what each of those does to the list.  `Gate` lists
what a block has passed by the time it gets past all refusals, and
`evaluate_gate` is the one place that walks down the exits.
-/

namespace BcNode.Bc

open BcNode.Verified BcNode.Js BcNode.Protos BcNode.Mining BcNode.Persistence

/-! ## The list -/

/-- `child` comes right after `parent`. -/
structure Extends (parent child : BcBlock) : Prop where
  previousHash : child.previousHash = parent.hash
  height : child.height = parent.height + 1

/-- `getHighestBlock`. -/
def getHighestBlock (chain : List BcBlock) : Option BcBlock := chain.head?

/-- `getParentHighestBlock`: `null` as soon as there is a parent. -/
def getParentHighestBlock (chain : List BcBlock) : Option BcBlock :=
  if chain.length > 1 then none else chain[1]?

/-- `block === false`, where `block` is a block, `null` or `undefined`. -/
def isFalse (_block : Option BcBlock) : Bool := false

/-- `addBestBlock`. -/
def addBestBlock (pkg : Packages) (chain : List BcBlock) (newBlock : BcBlock) :
    List BcBlock × Bool :=
  match getHighestBlock chain with
  | none => (chain, true)
  | some currentHighestBlock =>
      let currentParentHighestBlock := getParentHighestBlock chain
      if isFalse currentParentHighestBlock then
        if pkg.bn newBlock.totalDistance > pkg.bn currentHighestBlock.totalDistance then
          ([newBlock], true)
        else (chain, false)
      else if pkg.bn newBlock.totalDistance <
          pkg.bn currentHighestBlock.totalDistance then
        (chain, false)
      else
        match currentParentHighestBlock with
        | some parent =>
            if newBlock.previousHash = parent.hash then (newBlock :: chain.tail, true)
            else (chain, false)
        | none => (chain, false)

theorem getParentHighestBlock_eq_none (chain : List BcBlock) :
    getParentHighestBlock chain = none := by
  unfold getParentHighestBlock
  split
  · rfl
  · exact List.getElem?_eq_none (by omega)

/-- With a block in the list `addBestBlock` never takes another: it cannot see
the parent. -/
theorem addBestBlock_of_ne_nil (pkg : Packages) {chain : List BcBlock}
    (h : chain ≠ []) (newBlock : BcBlock) :
    addBestBlock pkg chain newBlock = (chain, false) := by
  obtain ⟨highest, rest, rfl⟩ := List.exists_cons_of_ne_nil h
  unfold addBestBlock
  simp only [getHighestBlock, List.head?_cons, getParentHighestBlock_eq_none, isFalse,
    Bool.false_eq_true, if_false, ite_self]

/-- A block on the parent of the head that weighs at least as much as the head. -/
def BetterSibling (pkg : Packages) (chain : List BcBlock) (newBlock : BcBlock) : Prop :=
  ∃ highest ∈ chain[0]?, ∃ parent ∈ chain[1]?, newBlock.previousHash = parent.hash ∧
    pkg.bn newBlock.totalDistance ≥ pkg.bn highest.totalDistance

instance (pkg : Packages) (chain : List BcBlock) (newBlock : BcBlock) :
    Decidable (BetterSibling pkg chain newBlock) :=
  inferInstanceAs (Decidable (∃ highest ∈ chain[0]?, ∃ parent ∈ chain[1]?, _ ∧ _))

/-- A better sibling takes the place of the head, and no other block does. -/
structure ReplacesSibling (pkg : Packages) (chain : List BcBlock) (newBlock : BcBlock)
    (result : List BcBlock × Bool) : Prop where
  better : BetterSibling pkg chain newBlock → result = (newBlock :: chain.tail, true)
  other : ¬ BetterSibling pkg chain newBlock → result = (chain, false)

/-- **Sibling replacement.**  `addBestBlock` treats a block as it should exactly if the
block is not a better sibling of the head. -/
theorem addBestBlock_replaces_iff (pkg : Packages) {chain : List BcBlock}
    (hlength : 2 ≤ chain.length) (newBlock : BcBlock) :
    ReplacesSibling pkg chain newBlock (addBestBlock pkg chain newBlock) ↔
      ¬ BetterSibling pkg chain newBlock := by
  have hne : chain ≠ [] := by
    rintro rfl
    exact absurd hlength (by decide)
  rw [addBestBlock_of_ne_nil pkg hne]
  constructor
  · intro hreplaces hbetter
    have htaken := congrArg Prod.snd (hreplaces.better hbetter)
    cases htaken
  · exact fun hnot => ⟨fun hbetter => absurd hbetter hnot, fun _ => rfl⟩

/-- A head and its parent. -/
def sampleHeadAndParent : List BcBlock := [samplePrevious, { hash := "9f", height := 4 }]

theorem addBestBlock_replaces_iff_sample :
    ReplacesSibling samplePackages sampleHeadAndParent
      { samplePrevious with previousHash := "9e" }
      (addBestBlock samplePackages sampleHeadAndParent
        { samplePrevious with previousHash := "9e" }) :=
  (addBestBlock_replaces_iff samplePackages (by decide) _).2 (by decide +kernel)

/-- A sibling of the same weight is refused. -/
theorem sibling_not_replaced :
    ¬ ∀ (pkg : Packages) (chain : List BcBlock) (newBlock : BcBlock), 2 ≤ chain.length →
      ReplacesSibling pkg chain newBlock (addBestBlock pkg chain newBlock) := by
  intro hall
  have hreplaces := hall samplePackages sampleHeadAndParent
    { samplePrevious with hash := "a1" } (by decide)
  have htaken := congrArg Prod.snd (hreplaces.better (by decide +kernel))
  exact absurd htaken (by decide +kernel)

/-! ## The decision -/

/-- What `addNextBlock` does once its checks are through. -/
inductive Verdict where
  | refuse
  | addBest
  | push
  deriving DecidableEq, Repr

/-- The hot swap.  Its guard compares two fresh `BN` objects, and its body calls
`getTimBlockestamp`, which no block has, before it touches the list. -/
def hotSwap (pkg : Packages)
    (newBlock currentHighestBlock currentHighestParent : BcBlock) :
    Except JsError Unit :=
  if currentHighestParent.hash ≠ currentHighestBlock.previousHash ∧
      currentHighestBlock.height = newBlock.height then do
    let _ ← newBN currentHighestBlock.height
    if sameFreshObject = true then
      let valid ← validateSequenceDifficulty pkg currentHighestParent newBlock
      if valid = true ∧ pkg.bn newBlock.totalDistance >
          pkg.bn currentHighestBlock.totalDistance then
        throw .typeError
  else return ()

/-- The comparison of the connected chains: whether `newBlock` passes.  The timestamps of
the two newest headers have been through `new BN` in `getNewestHeader`. -/
def connectionWeight (newBlock currentHighestBlock : BcBlock) : Except JsError Bool := do
  let newSum ← childrenHeightSum newBlock
  let currentSum ← childrenHeightSum currentHighestBlock
  if newSum < currentSum then return false
  else if newSum = currentSum then do
    let newBlockNewestChildHeader ← getNewestHeader newBlock
    let currentBlockNewestChildHeader ← getNewestHeader currentHighestBlock
    let newHeader ← newBlockNewestChildHeader.deref
    let currentHeader ← currentBlockNewestChildHeader.deref
    return !decide (newHeader.timestamp < currentHeader.timestamp)
  else return true

/-- Above height 2 the new block and the latest one must be a block sequence. -/
def isSequence (pkg : Packages) (newBlock currentHighestBlock : BcBlock) :
    Except JsError Bool :=
  if newBlock.height > 2 then validateBlockSequence pkg [newBlock, currentHighestBlock]
  else return true

/-- `addNextBlock` after its last `await`, up to what it does to the list. -/
def evaluate (pkg : Packages) (now : Nat)
    (newBlock currentHighestBlock currentHighestParent : BcBlock) :
    Except JsError Verdict := do
  hotSwap pkg newBlock currentHighestBlock currentHighestParent
  if newBlock.height = 1 then return .refuse
  if (newBlock.height : Int) - 1 ≠ currentHighestBlock.height then return .refuse
  if !(← connectionWeight newBlock currentHighestBlock) then return .refuse
  if !validateSequenceTotalDistance pkg currentHighestBlock newBlock then return .refuse
  if !(← validateSequenceDifficulty pkg currentHighestBlock newBlock) then return .refuse
  if (newBlock.height : Int) - 7 > currentHighestBlock.height then return .refuse
  if newBlock.hash = currentHighestBlock.hash then return .refuse
  if newBlock.height < currentHighestBlock.height then return .refuse
  if pkg.bn newBlock.totalDistance < pkg.bn currentHighestBlock.totalDistance then
    return .refuse
  if numberIsString newBlock.blockchainHeadersCount "0" then return .refuse
  if newBlock.timestamp + 3 ≤ currentHighestBlock.timestamp then return .refuse
  if newBlock.timestamp + 27 < now then return .refuse
  if newBlock.previousHash ≠ currentHighestBlock.hash then return .addBest
  if !(← isSequence pkg newBlock currentHighestBlock) then return .addBest
  return .push

/-- The list after the decision, and what the promise resolves or rejects with.
A pushed block stays on the list when the rovered sequences throw. -/
def settle (pkg : Packages) (chain : List BcBlock)
    (newBlock currentHighestBlock : BcBlock) :
    Verdict → Except JsError Bool × List BcBlock
  | .refuse => (.ok false, chain)
  | .addBest =>
      let (chain, accepted) := addBestBlock pkg chain newBlock
      (.ok accepted, chain)
  | .push =>
      let chain := newBlock :: chain
      match validateRoveredSequences [newBlock, currentHighestBlock] with
      | .error e => (.error e, chain)
      | .ok _ => (.ok true, if chain.length > 7 then chain.dropLast else chain)

/-- `evaluate`, then `settle`. -/
def decideNext (pkg : Packages) (now : Nat) (chain : List BcBlock)
    (newBlock currentHighestBlock currentHighestParent : BcBlock) :
    Except JsError Bool × List BcBlock :=
  match evaluate pkg now newBlock currentHighestBlock currentHighestParent with
  | .error e => (.error e, chain)
  | .ok verdict => settle pkg chain newBlock currentHighestBlock verdict

/-! ## The call and its awaits -/

/-- The state the multiverse works on: `_chain` and the store. -/
structure Node where
  chain : List BcBlock
  store : Store

/-- A call of `addNextBlock` that has not settled yet, by the point at which it
waits. -/
inductive Call where
  | called (newBlock : BcBlock)
  | awaitingLatest (newBlock : BcBlock)
  | awaitingParent (newBlock currentHighestBlock : BcBlock)
  | deciding (newBlock currentHighestBlock currentHighestParent : BcBlock)
  deriving DecidableEq, Repr

/-- A read that a call goes on from, or rejects with. -/
def Call.after (node : Node) (read : Except JsError BcBlock) (next : BcBlock → Call) :
    Node × (Except JsError Bool ⊕ Call) :=
  match read with
  | .ok block => (node, .inr (next block))
  | .error e => (node, .inl (.error e))

/-- Let a call run up to its next `await` or to its end. -/
def Call.resume (pkg : Packages) (now : Nat) (node : Node) :
    Call → Node × (Except JsError Bool ⊕ Call)
  | .called newBlock =>
      match node.chain with
      | [] => ({ node with chain := [newBlock] }, .inl (.ok true))
      | _ :: _ => (node, .inr (.awaitingLatest newBlock))
  | .awaitingLatest newBlock =>
      Call.after node (getBlockIn node.store (.block .bc .latest))
        (.awaitingParent newBlock)
  | .awaitingParent newBlock currentHighestBlock =>
      Call.after node (getBlockIn node.store (.block .bc .parent))
        (.deciding newBlock currentHighestBlock)
  | .deciding newBlock currentHighestBlock currentHighestParent =>
      let (result, chain) := decideNext pkg now node.chain newBlock
        currentHighestBlock currentHighestParent
      ({ node with chain }, .inl result)

/-- `addNextBlock` with nothing else running. -/
def addNextBlock (pkg : Packages) (now : Nat) (newBlock : BcBlock) (node : Node) :
    Except JsError Bool × Node :=
  match node.chain with
  | [] => (.ok true, { node with chain := [newBlock] })
  | _ :: _ =>
      match getBlockIn node.store (.block .bc .latest) with
      | .error e => (.error e, node)
      | .ok currentHighestBlock =>
          match getBlockIn node.store (.block .bc .parent) with
          | .error e => (.error e, node)
          | .ok currentHighestParent =>
              let (result, chain) := decideNext pkg now node.chain newBlock
                currentHighestBlock currentHighestParent
              (result, { node with chain })

/-! ## What an accepted block has passed -/

/-- The connected chains of `newBlock` weigh no less than those of the latest
block, and where they weigh the same its newest header is no older. -/
structure Outweighs (newBlock currentHighestBlock : BcBlock) : Prop where
  sums : ∃ newSum currentSum, childrenHeightSum newBlock = .ok newSum ∧
    childrenHeightSum currentHighestBlock = .ok currentSum ∧ currentSum ≤ newSum ∧
    (newSum = currentSum → ∃ newHeader currentHeader,
      getNewestHeader newBlock = .ok (.found newHeader) ∧
      getNewestHeader currentHighestBlock = .ok (.found currentHeader) ∧
      currentHeader.timestamp ≤ newHeader.timestamp)

/-- Everything a block has passed once `addNextBlock` can no longer refuse it
outright. -/
structure Gate (pkg : Packages) (now : Nat) (newBlock currentHighestBlock : BcBlock) :
    Prop where
  height : newBlock.height = currentHighestBlock.height + 1
  outweighs : Outweighs newBlock currentHighestBlock
  totalDistance_valid :
    validateSequenceTotalDistance pkg currentHighestBlock newBlock = true
  difficulty_valid :
    validateSequenceDifficulty pkg currentHighestBlock newBlock = .ok true
  hash_ne : newBlock.hash ≠ currentHighestBlock.hash
  totalDistance_le :
    pkg.bn currentHighestBlock.totalDistance ≤ pkg.bn newBlock.totalDistance
  timestamp : currentHighestBlock.timestamp < newBlock.timestamp + 3
  recent : now ≤ newBlock.timestamp + 27

theorem Newest.deref_ok {newest : Newest} {header : BlockchainHeader}
    (h : newest.deref = .ok header) : newest = .found header := by
  cases newest with
  | found found => cases h; rfl
  | missing => cases h
  | undefined => cases h

theorem connectionWeight_ok {newBlock currentHighestBlock : BcBlock}
    (h : connectionWeight newBlock currentHighestBlock = .ok true) :
    Outweighs newBlock currentHighestBlock := by
  unfold connectionWeight at h
  obtain ⟨newSum, hnewSum, h⟩ := bind_ok.1 h
  obtain ⟨currentSum, hcurrentSum, h⟩ := bind_ok.1 h
  obtain ⟨hle, h⟩ := (ite_return_ok (by decide)).1 h
  refine ⟨newSum, currentSum, hnewSum, hcurrentSum, by omega, ?_⟩
  intro heq
  rw [if_pos heq] at h
  obtain ⟨newNewest, hnewNewest, h⟩ := bind_ok.1 h
  obtain ⟨currentNewest, hcurrentNewest, h⟩ := bind_ok.1 h
  obtain ⟨newHeader, hnewHeader, h⟩ := bind_ok.1 h
  obtain ⟨currentHeader, hcurrentHeader, h⟩ := bind_ok.1 h
  refine ⟨newHeader, currentHeader, ?_, ?_, ?_⟩
  · rw [hnewNewest, Newest.deref_ok hnewHeader]
  · rw [hcurrentNewest, Newest.deref_ok hcurrentHeader]
  · have hnot := Except.ok.inj h
    simpa using hnot

/-- **The walk down the exits.**  A verdict other than refusal has been through
the whole gate, and a push through the two tests after it as well. -/
theorem evaluate_gate {pkg : Packages} {now : Nat}
    {newBlock currentHighestBlock currentHighestParent : BcBlock} {verdict : Verdict}
    (h : evaluate pkg now newBlock currentHighestBlock currentHighestParent = .ok verdict)
    (hverdict : verdict ≠ .refuse) :
    Gate pkg now newBlock currentHighestBlock ∧
      (verdict = .push → newBlock.previousHash = currentHighestBlock.hash ∧
        isSequence pkg newBlock currentHighestBlock = .ok true) := by
  have hrefuse : Verdict.refuse ≠ verdict := hverdict.symm
  unfold evaluate at h
  obtain ⟨_, _, h⟩ := bind_ok.1 h
  obtain ⟨_, h⟩ := (ite_return_ok hrefuse).1 h
  obtain ⟨hheight, h⟩ := (ite_return_ok hrefuse).1 h
  obtain ⟨weight, hweight, h⟩ := bind_ok.1 h
  obtain ⟨hpasses, h⟩ := (ite_return_ok hrefuse).1 h
  obtain ⟨htotal, h⟩ := (ite_return_ok hrefuse).1 h
  obtain ⟨difficulty, hdifficulty, h⟩ := bind_ok.1 h
  obtain ⟨hvalid, h⟩ := (ite_return_ok hrefuse).1 h
  obtain ⟨_, h⟩ := (ite_return_ok hrefuse).1 h
  obtain ⟨hhash, h⟩ := (ite_return_ok hrefuse).1 h
  obtain ⟨_, h⟩ := (ite_return_ok hrefuse).1 h
  obtain ⟨hdistance, h⟩ := (ite_return_ok hrefuse).1 h
  obtain ⟨_, h⟩ := (ite_return_ok hrefuse).1 h
  obtain ⟨htimestamp, h⟩ := (ite_return_ok hrefuse).1 h
  obtain ⟨hrecent, h⟩ := (ite_return_ok hrefuse).1 h
  simp only [Bool.not_eq_true', Bool.not_eq_false] at hpasses htotal hvalid
  rw [hpasses] at hweight
  rw [hvalid] at hdifficulty
  have hgate : Gate pkg now newBlock currentHighestBlock :=
    { height := by omega
      outweighs := connectionWeight_ok hweight
      totalDistance_valid := htotal
      difficulty_valid := hdifficulty
      hash_ne := hhash
      totalDistance_le := by omega
      timestamp := by omega
      recent := by omega }
  refine ⟨hgate, ?_⟩
  intro hpush
  rw [hpush] at h
  obtain ⟨hprevious, h⟩ := (ite_return_ok (by decide)).1 h
  obtain ⟨sequence, hsequence, h⟩ := bind_ok.1 h
  obtain ⟨hsequenced, _⟩ := (ite_return_ok (by decide)).1 h
  simp only [Bool.not_eq_true', Bool.not_eq_false] at hsequenced
  rw [hsequenced] at hsequence
  exact ⟨not_not.1 hprevious, hsequence⟩

theorem roveredPair_ok {child parent : BcBlock}
    {childHeaders parentHeaders : BlockchainHeaders}
    (hchild : child.getBlockchainHeaders = .ok childHeaders)
    (hparent : parent.getBlockchainHeaders = .ok parentHeaders) :
    ∃ checks, roveredPair child parent = .ok checks := by
  unfold roveredPair
  split
  · exact ⟨_, rfl⟩
  · rw [validateChildHeadersSequence, hchild, hparent]
    exact ⟨_, rfl⟩

theorem validateRoveredSequences_of_sorted {blocks : List BcBlock} {child parent : BcBlock}
    {checks : List Bool} (hsorted : sortDescending (·.height) blocks = [child, parent])
    (hchecks : roveredPair child parent = .ok checks) :
    ∃ verdict, validateRoveredSequences blocks = .ok verdict := by
  unfold validateRoveredSequences
  rw [hsorted]
  simp only [aperture2, List.tail_cons, List.zip_cons_cons, List.zip_nil_right,
    List.mapM_cons, List.mapM_nil, hchecks, bind, Except.bind, pure, Except.pure]
  exact ⟨_, rfl⟩

/-- A pushed block carries headers of every chain, so nothing after the push
can throw. -/
theorem validateRoveredSequences_ok {a b : BcBlock}
    {headersA headersB : BlockchainHeaders}
    (ha : a.getBlockchainHeaders = .ok headersA)
    (hb : b.getBlockchainHeaders = .ok headersB) :
    ∃ verdict, validateRoveredSequences [a, b] = .ok verdict := by
  have hsorted : sortDescending (·.height) [a, b] = [a, b] ∨
      sortDescending (·.height) [a, b] = [b, a] := by
    simp only [sortDescending, List.insertionSort, List.orderedInsert, List.foldr]
    split
    · exact Or.inl rfl
    · exact Or.inr rfl
  rcases hsorted with hsorted | hsorted
  · obtain ⟨checks, hchecks⟩ := roveredPair_ok ha hb
    exact validateRoveredSequences_of_sorted hsorted hchecks
  · obtain ⟨checks, hchecks⟩ := roveredPair_ok hb ha
    exact validateRoveredSequences_of_sorted hsorted hchecks

theorem childrenHeightSum_headers {block : BcBlock} {sum : Nat}
    (h : childrenHeightSum block = .ok sum) :
    ∃ headers, block.getBlockchainHeaders = .ok headers := by
  unfold childrenHeightSum childrenHighestBlock at h
  obtain ⟨_, h, _⟩ := bind_ok.1 h
  obtain ⟨headers, h, _⟩ := bind_ok.1 h
  exact ⟨headers, h⟩

/-- The list after a push. -/
def pushed (chain : List BcBlock) (newBlock : BcBlock) : List BcBlock :=
  if (newBlock :: chain).length > 7 then (newBlock :: chain).dropLast
  else newBlock :: chain

/-- A push never throws. -/
theorem decideNext_push {pkg : Packages} {now : Nat} (chain : List BcBlock)
    {newBlock currentHighestBlock currentHighestParent : BcBlock}
    (h : evaluate pkg now newBlock currentHighestBlock currentHighestParent = .ok .push) :
    decideNext pkg now chain newBlock currentHighestBlock currentHighestParent =
      (.ok true, pushed chain newBlock) := by
  obtain ⟨hgate, _⟩ := evaluate_gate h (by decide)
  obtain ⟨_, _, hnew, hcurrent, _, _⟩ := hgate.outweighs.sums
  obtain ⟨headers, hheaders⟩ := childrenHeightSum_headers hnew
  obtain ⟨headers', hheaders'⟩ := childrenHeightSum_headers hcurrent
  obtain ⟨valid, hvalid⟩ := validateRoveredSequences_ok hheaders hheaders'
  simp only [decideNext, h, settle, hvalid, pushed]

/-- Nothing else changes the list, and on a nonempty one nothing else is an
acceptance. -/
theorem decideNext_unpushed {pkg : Packages} {now : Nat} (chain : List BcBlock)
    {newBlock currentHighestBlock currentHighestParent : BcBlock}
    (h : evaluate pkg now newBlock currentHighestBlock currentHighestParent ≠ .ok .push) :
    (decideNext pkg now chain newBlock currentHighestBlock
        currentHighestParent).2 = chain ∧
      (chain ≠ [] → (decideNext pkg now chain newBlock currentHighestBlock
        currentHighestParent).1 ≠ .ok true) := by
  unfold decideNext
  cases heval : evaluate pkg now newBlock currentHighestBlock currentHighestParent with
  | error e => exact ⟨rfl, nofun⟩
  | ok verdict =>
      cases verdict with
      | refuse => exact ⟨rfl, nofun⟩
      | push => exact absurd heval h
      | addBest =>
          cases chain with
          | nil => exact ⟨rfl, fun hne => absurd rfl hne⟩
          | cons head rest =>
              simp only [settle, addBestBlock_of_ne_nil pkg (List.cons_ne_nil head rest)]
              exact ⟨trivial, nofun⟩

/-- On a nonempty list with a latest block in the store, a call either refuses
or throws and leaves the list alone, or pushes after a full evaluation. -/
theorem addNextBlock_cases {pkg : Packages} {now : Nat} {node : Node}
    {currentHighestBlock : BcBlock}
    (hlatest : node.store (.block .bc .latest) = some (.bcBlock currentHighestBlock))
    (hchain : node.chain ≠ []) (newBlock : BcBlock) :
    (∃ currentHighestParent,
      evaluate pkg now newBlock currentHighestBlock currentHighestParent = .ok .push ∧
      node.store (.block .bc .parent) = some (.bcBlock currentHighestParent) ∧
      (addNextBlock pkg now newBlock node).1 = .ok true) ∨
    ((addNextBlock pkg now newBlock node).1 ≠ .ok true ∧
      (addNextBlock pkg now newBlock node).2 = node) := by
  obtain ⟨head, rest, hcons⟩ := List.exists_cons_of_ne_nil hchain
  unfold addNextBlock
  rw [getBlockIn_of_some hlatest, hcons]
  dsimp only
  cases hparent : getBlockIn node.store (.block .bc .parent) with
  | error e => exact Or.inr ⟨nofun, rfl⟩
  | ok currentHighestParent =>
      by_cases hpush : evaluate pkg now newBlock currentHighestBlock
        currentHighestParent = .ok .push
      · refine Or.inl ⟨currentHighestParent, hpush, getBlockIn_ok.1 hparent, ?_⟩
        simp only [decideNext_push _ hpush]
      · obtain ⟨hsame, hresult⟩ := decideNext_unpushed (head :: rest) hpush
        refine Or.inr ⟨hresult (List.cons_ne_nil head rest), ?_⟩
        simp only [hsame]
        rw [← hcons]

/-- **Acceptance is sound.**  On a nonempty list a block is accepted only past
the whole gate and on top of the stored latest block; whatever is not accepted
leaves the list as it was. -/
theorem addNextBlock_sound {pkg : Packages} {now : Nat} {node : Node}
    {currentHighestBlock : BcBlock}
    (hlatest : node.store (.block .bc .latest) = some (.bcBlock currentHighestBlock))
    (hchain : node.chain ≠ []) (newBlock : BcBlock) :
    ((addNextBlock pkg now newBlock node).1 = .ok true →
      Gate pkg now newBlock currentHighestBlock ∧
        newBlock.previousHash = currentHighestBlock.hash) ∧
    ((addNextBlock pkg now newBlock node).1 ≠ .ok true →
      (addNextBlock pkg now newBlock node).2.chain = node.chain) := by
  rcases addNextBlock_cases hlatest hchain newBlock with
    ⟨currentHighestParent, hpush, _, haccepted⟩ | ⟨hrefused, hsame⟩
  · obtain ⟨hgate, hprevious⟩ := evaluate_gate hpush (by decide)
    refine ⟨fun _ => ⟨hgate, (hprevious rfl).1⟩, fun hnot => absurd haccepted hnot⟩
  · refine ⟨fun haccepted => absurd haccepted hrefused, fun _ => ?_⟩
    rw [hsame]

/-- The sample block, mined within the second of its template. -/
def sampleNextBlock : BcBlock :=
  completeTemplate samplePackages sampleTemplate { sampleSolution with timestamp := 1000 }

/-- Another block on the sample's previous one. -/
def sampleRival : BcBlock := { sampleNextBlock with hash := "b1", miner := "0xbb" }

/-- A parent for the sample's previous block. -/
def sampleParent : BcBlock where
  hash := "9f"
  height := 4
  timestamp := 980

/-- A store with the sample's previous block as the latest one. -/
def sampleStore (parent : BcBlock) : Store :=
  ((Store.empty.set .synclock (.bcBlock getGenesisBlock)).set
    (.block .bc .latest) (.bcBlock samplePrevious)).set
    (.block .bc .parent) (.bcBlock parent)

def sampleNode (parent : BcBlock) : Node where
  chain := [samplePrevious]
  store := sampleStore parent

theorem sampleStore_latest (parent : BcBlock) :
    sampleStore parent (.block .bc .latest) = some (.bcBlock samplePrevious) := by
  simp [sampleStore]

theorem sampleStore_parent (parent : BcBlock) :
    sampleStore parent (.block .bc .parent) = some (.bcBlock parent) := by
  simp [sampleStore]

theorem sampleStore_synclock (parent : BcBlock) :
    sampleStore parent .synclock = some (.bcBlock getGenesisBlock) := by
  simp [sampleStore]

theorem addNextBlock_sound_sample :
    (addNextBlock samplePackages 1010 sampleNextBlock
      (sampleNode sampleParent)).1 = .ok true ∧
      Gate samplePackages 1010 sampleNextBlock samplePrevious ∧
      sampleNextBlock.previousHash = samplePrevious.hash := by
  have haccepted : (addNextBlock samplePackages 1010 sampleNextBlock
      (sampleNode sampleParent)).1 = .ok true := by decide +kernel
  exact ⟨haccepted,
    (addNextBlock_sound (sampleStore_latest sampleParent) (List.cons_ne_nil _ _)
      sampleNextBlock).1 haccepted⟩

end BcNode.Bc
