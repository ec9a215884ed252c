import BcNode.Mining.WorkIds
import BcNode.Persistence.Store

/-!
# `startMining`

`startMining` reads the latest block, asks the store for the child blocks above its
headers, and prepares a template from what it gets.  Every chain for which the store
has no new block keeps one header.  That header should be the latest block's, but
`prepareNewBlock` takes it from `_unfinishedBlock` where there is one, and that may
be a template for an older block.

`keepsHeights_iff` says of one template when its chains keep their heights, provided
that what was read lies above the latest block (`FoundAbove`).  `readForMining_safe`
says that it does, whatever else happens between the reads, as long as the keys of
child blocks keep their meaning (`WellKeyed`).
-/

namespace BcNode.Mining

open BcNode.Verified BcNode.Js BcNode.Protos BcNode.Bc BcNode.Persistence

/-! ## What `startMining` reads -/

/-- A pair of `latestBlockHeadersHeights`. -/
def chainAndHeight (header : Value) : Except JsError (String × Nat) := do
  let blockchain ← header.getBlockchain
  let height ← header.getHeight
  return (blockchain, height)

/-- `latestBlockHeadersHeights[chain]`: of several pairs the last one counts. -/
def heightOf (latestBlockHeadersHeights : List (String × Nat)) (chain : Chain) :
    Option Nat :=
  latestBlockHeadersHeights.reverse.lookup chain.name

/-- `range(from, to + 1)`, once `from` has been raised; here they are `lowest` and
`highest`. -/
def lastHeights (lowest highest : Nat) : List Nat :=
  let lowest := max (highest - 30) lowest
  List.range' lowest (highest + 1 - lowest)

/-- The keys of `newBlockHeadersKeys` for one chain.  On genesis `from` and `to` are
one value; where that is `undefined`, nothing has the key. -/
def newBlockHeadersKeysOf (lastPreviousBlock : BcBlock) (headers : BlockchainHeaders)
    (latestBlockHeadersHeights : List (String × Nat)) (chain : Chain) :
    Except JsError (List Key) :=
  let key (height : Nat) : Key := .block (.child chain) (.height height)
  if lastPreviousBlock.height = 1 then
    .ok ((heightOf latestBlockHeadersHeights chain).map key).toList
  else
    match (headers.get chain).getLast? with
    | none =>
        .error (.error s!"previous NRG block {lastPreviousBlock.height} failed minimum \"{chain.name}\" state changes")
    | some lastHeaderInPreviousBlock =>
        let lowest := lastHeaderInPreviousBlock.height + 1
        match heightOf latestBlockHeadersHeights chain with
        | some highest =>
            if lowest = highest then .ok [key lowest]
            else if lowest > highest then .ok []
            else .ok ((lastHeights lowest highest).map key)
        | none => .ok ((lastHeights lowest (lowest + 1)).map key)

/-- The reads of `startMining`.  The two orders are those in which the reads of its
`getBulk` calls act. -/
def readForMining (knownRovers : List String) (headersOrder blocksOrder : List Nat) :
    StoreM (BcBlock × List Value) := do
  let lastPreviousBlock ← getBlock (.block .bc .latest)
  let latestBlockHeaders ← Async.ofTask (getBulk headersOrder
    (knownRovers.map fun chain => blockKey chain .latest))
  let latestBlockHeadersHeights ← Async.ofExcept (latestBlockHeaders.mapM chainAndHeight)
  let headers ← Async.ofExcept lastPreviousBlock.getBlockchainHeaders
  let newBlockHeadersKeys ← Async.ofExcept (Chain.all.mapM
    (newBlockHeadersKeysOf lastPreviousBlock headers latestBlockHeadersHeights))
  let currentBlocks ← Async.ofTask (getBulk blocksOrder newBlockHeadersKeys.flatten)
  return (lastPreviousBlock, currentBlocks)

/-- A value of the store where the code goes on to use a child block.  Headers do as
well: `prepareNewBlock` copies the fields they share. -/
def asChildBlock : Value → Except JsError Block
  | .block b => .ok b
  | .header h =>
      .ok
        { blockchain := h.blockchain
          hash := h.hash
          previousHash := h.previousHash
          timestamp := h.timestamp
          height := h.height
          merkleRoot := h.merkleRoot }
  | _ => .error .typeError

/-! ## The header map, chain by chain -/

/-- Blocks that carry the names of chains. -/
def Named (blocks : List Block) : Prop :=
  ∀ b ∈ blocks, ∃ chain : Chain, b.blockchain = chain.name

/-- The blocks of one chain. -/
def blocksOf (chain : Chain) (blocks : List Block) : List Block :=
  blocks.filter (·.blockchain = chain.name)

theorem mem_blocksOf {chain : Chain} {blocks : List Block} {b : Block} :
    b ∈ blocksOf chain blocks ↔ b ∈ blocks ∧ b.blockchain = chain.name := by
  simp [blocksOf]

theorem Chain.name_injective {chain chain' : Chain} (h : chain.name = chain'.name) :
    chain = chain' := by
  have hlabels := chainOfLabel?_name chain
  rw [h, chainOfLabel?_name] at hlabels
  exact (Option.some.inj hlabels).symm

/-- A list set under the name of a chain. -/
theorem setByLabel_get {map map' : BlockchainHeaders} {chain : Chain}
    {list : List BlockchainHeader} (h : setByLabel map chain.name list = .ok map')
    (other : Chain) :
    map'.get other = if other = chain then list else map.get other := by
  rw [setByLabel, chainOfLabel?_name] at h
  cases h
  split
  · next heq => rw [heq, BlockchainHeaders.get_set_self]
  · next hne => rw [BlockchainHeaders.get_set_ne _ hne]

/-- Lists set one after the other, each depending on its label only. -/
theorem setByLabel_foldlM {f : String → List BlockchainHeader} {labels : List String}
    (hnamed : ∀ label ∈ labels, ∃ chain : Chain, label = chain.name) :
    ∀ {map map' : BlockchainHeaders},
      labels.foldlM (fun newMap label => setByLabel newMap label (f label)) map =
        .ok map' →
      ∀ chain : Chain, map'.get chain =
        if chain.name ∈ labels then f chain.name else map.get chain := by
  induction labels with
  | nil =>
      intro map map' h chain
      cases h
      rfl
  | cons label labels ih =>
      intro map map' h chain
      obtain ⟨next, hset, hrest⟩ := foldlM_cons_ok.1 h
      obtain ⟨labelled, rfl⟩ := hnamed label List.mem_cons_self
      rw [ih (fun l hl => hnamed l (List.mem_cons_of_mem _ hl)) hrest,
        setByLabel_get hset]
      by_cases heq : chain = labelled
      · subst heq
        simp
      · have hne : chain.name ≠ labelled.name := fun h => heq (Chain.name_injective h)
        simp [heq, hne]

/-- The first half of `prepareChildBlockHeadersMap`. -/
theorem setNewChildHeaders_get {blocks : List Block} (hnamed : Named blocks)
    {map : BlockchainHeaders} (h : setNewChildHeaders blocks = .ok map) (chain : Chain) :
    map.get chain = (blocksOf chain blocks).map (copyBlock · 1) := by
  have hlabels : ∀ label ∈ ((blocks.map (·.blockchain)).eraseDups.filter
      (· ≠ "__proto__")), ∃ chain : Chain, label = chain.name := by
    intro label hlabel
    have hmem := List.mem_eraseDups.1 (List.mem_filter.1 hlabel).1
    obtain ⟨b, hb, rfl⟩ := List.mem_map.1 hmem
    exact hnamed b hb
  rw [setNewChildHeaders, groupByBlockchain, List.foldlM_map] at h
  rw [setByLabel_foldlM hlabels h chain]
  split
  · rfl
  · next hnone =>
      have hempty : blocksOf chain blocks = [] := by
        rw [blocksOf, List.filter_eq_nil_iff]
        intro b hb hname
        refine hnone (List.mem_filter.2 ⟨List.mem_eraseDups.2 ?_, ?_⟩)
        · rw [← of_decide_eq_true hname]
          exact List.mem_map_of_mem hb
        · cases chain <;> decide
      rw [hempty]
      cases chain <;> rfl

/-- The last header of one chain. -/
def lastHeader (block : BcBlock) (chain : Chain) : Option BlockchainHeader :=
  block.blockchainHeaders.bind fun headers => (headers.get chain).getLast?

/-- One turn of the second half: a chain without headers takes the last one of the
previous block. -/
theorem carryLastHeader_get {previousBlock : BcBlock} {map map' : BlockchainHeaders}
    {chain : Chain} (h : carryLastHeader previousBlock map chain = .ok map') :
    (∀ other, map.get other ≠ [] ∨ other ≠ chain → map'.get other = map.get other) ∧
    (map.get chain = [] → ∃ header, lastHeader previousBlock chain = some header ∧
      map'.get chain =
        [copyHeader header (header.blockchainConfirmationsInParentCount + 1)]) := by
  unfold carryLastHeader at h
  split at h
  · next hsome =>
      cases h
      exact ⟨fun _ _ => rfl,
        fun hnil => absurd (hsome.symm.trans hnil) (List.cons_ne_nil _ _)⟩
  · next hnil =>
      obtain ⟨headers, hheaders, h⟩ := bind_ok.1 h
      split at h
      · next header hlast =>
          cases h
          refine ⟨fun other hother => BlockchainHeaders.get_set_ne _ ?_ _, fun _ =>
            ⟨header, ?_, BlockchainHeaders.get_set_self ..⟩⟩
          · rintro rfl
            rcases hother with hne | hne
            · exact hne hnil
            · exact hne rfl
          · rw [lastHeader, BcBlock.getBlockchainHeaders_ok.1 hheaders]
            exact hlast
      · cases h

/-- The whole second half. -/
theorem carryLastHeader_foldlM {previousBlock : BcBlock} {chains : List Chain} :
    ∀ {map map' : BlockchainHeaders},
      chains.foldlM (carryLastHeader previousBlock) map = .ok map' →
      ∀ chain, (map.get chain ≠ [] → map'.get chain = map.get chain) ∧
        (map.get chain = [] → chain ∈ chains →
          ∃ header, lastHeader previousBlock chain = some header ∧ map'.get chain =
            [copyHeader header (header.blockchainConfirmationsInParentCount + 1)]) := by
  induction chains with
  | nil =>
      intro map map' h chain
      cases h
      exact ⟨fun _ => rfl, fun _ hmem => absurd hmem List.not_mem_nil⟩
  | cons c chains ih =>
      intro map map' h chain
      obtain ⟨next, hturn, hrest⟩ := foldlM_cons_ok.1 h
      obtain ⟨hkeep, hfill⟩ := carryLastHeader_get hturn
      obtain ⟨hlater, hfillLater⟩ := ih hrest chain
      constructor
      · intro hne
        have hsame := hkeep chain (Or.inl hne)
        rw [hlater (hsame ▸ hne), hsame]
      · intro hnil hmem
        by_cases hc : chain = c
        · subst hc
          obtain ⟨header, hlast, hlist⟩ := hfill hnil
          refine ⟨header, hlast, ?_⟩
          rw [hlater (hlist ▸ List.cons_ne_nil _ _), hlist]
        · have hsame := hkeep chain (Or.inr hc)
          exact hfillLater (hsame.trans hnil)
            ((List.mem_cons.1 hmem).resolve_left hc)

/-- On genesis a chain takes the last of its blocks. -/
theorem genesis_foldlM {blocks : List Block} (hnamed : Named blocks) :
    ∀ {map map' : BlockchainHeaders},
      blocks.foldlM (fun newMap header =>
        setByLabel newMap header.blockchain [copyBlock header 1]) map = .ok map' →
      ∀ chain, map'.get chain =
        match (blocksOf chain blocks).getLast? with
        | some b => [copyBlock b 1]
        | none => map.get chain := by
  induction blocks with
  | nil =>
      intro map map' h chain
      cases h
      rfl
  | cons b blocks ih =>
      intro map map' h chain
      obtain ⟨next, hset, hrest⟩ := foldlM_cons_ok.1 h
      obtain ⟨labelled, hlabel⟩ := hnamed b List.mem_cons_self
      rw [hlabel] at hset
      rw [ih (fun a ha => hnamed a (List.mem_cons_of_mem _ ha)) hrest, setByLabel_get hset]
      by_cases heq : chain = labelled
      · subst heq
        have hcons : blocksOf chain (b :: blocks) = b :: blocksOf chain blocks :=
          List.filter_cons_of_pos (by simp [hlabel])
        rw [hcons, List.getLast?_cons]
        cases (blocksOf chain blocks).getLast? <;> simp
      · have hskip : blocksOf chain (b :: blocks) = blocksOf chain blocks := by
          apply List.filter_cons_of_neg
          rw [hlabel, decide_eq_true_eq]
          exact fun hname => heq (Chain.name_injective hname.symm)
        rw [hskip, if_neg heq]

/-- The last header a chain ends up with. -/
theorem prepareHeaders_last {lastPreviousBlock : BcBlock} {currentBlocks : List Block}
    {unfinishedBlock : Option BcBlock} {headers : BlockchainHeaders}
    (hnamed : Named currentBlocks)
    (h : prepareHeaders lastPreviousBlock currentBlocks unfinishedBlock = .ok headers)
    (chain : Chain) :
    (headers.get chain).getLast? =
      match (blocksOf chain currentBlocks).getLast? with
      | some b => some (copyBlock b 1)
      | none =>
          if lastPreviousBlock.height = 1 then none
          else (lastHeader (unfinishedBlock.getD lastPreviousBlock) chain).map
            fun header =>
              copyHeader header (header.blockchainConfirmationsInParentCount + 1) := by
  unfold prepareHeaders at h
  split at h
  · next hgenesis =>
      rw [genesis_foldlM hnamed h]
      cases (blocksOf chain currentBlocks).getLast? with
      | some b => rfl
      | none =>
          have hone : lastPreviousBlock.height = 1 := hgenesis
          rw [if_pos hone]
          cases chain <;> rfl
  · next habove =>
      obtain ⟨newMap, hnew, hcarry⟩ := bind_ok.1 h
      obtain ⟨hkeep, hfill⟩ := carryLastHeader_foldlM hcarry chain
      have hget := setNewChildHeaders_get hnamed hnew chain
      cases hlast : (blocksOf chain currentBlocks).getLast? with
      | some b =>
          have hne : newMap.get chain ≠ [] := by
            rw [hget]
            intro hnil
            rw [List.map_eq_nil_iff.1 hnil] at hlast
            cases hlast
          rw [hkeep hne, hget, List.getLast?_map, hlast]
          rfl
      | none =>
          rw [List.getLast?_eq_none_iff.1 hlast] at hget
          obtain ⟨header, hheader, hlist⟩ := hfill hget chain.mem_all
          have hone : lastPreviousBlock.height ≠ 1 := habove
          rw [hlist, hheader, if_neg hone]
          rfl

/-! ## One template -/

/-- A template that `startMining` builds upon. -/
def isNarrow (block : BcBlock) : Bool :=
  match getBlockchainsBlocksCount block with
  | .ok count => count < 6
  | .error _ => false

theorem Officer.dropWideTemplate_ok {officer officer' : Officer}
    (h : officer.dropWideTemplate = .ok officer') :
    officer'.unfinishedBlock = officer.unfinishedBlock.filter isNarrow := by
  unfold Officer.dropWideTemplate at h
  split at h
  · next hnone =>
      cases h
      rw [hnone]
      rfl
  · next unfinishedBlock hsome =>
      obtain ⟨count, hcount, h⟩ := bind_ok.1 h
      rw [hsome, Option.filter_some]
      split at h
      · next hwide =>
          cases h
          have hnarrow : isNarrow unfinishedBlock = false := by
            rw [isNarrow, hcount]
            exact decide_eq_false (Nat.not_lt.2 hwide)
          rw [hnarrow]
          rfl
      · next hwide =>
          cases h
          have hnarrow : isNarrow unfinishedBlock = true := by
            rw [isNarrow, hcount]
            exact decide_eq_true (Nat.not_le.1 hwide)
          rw [hnarrow, hsome]
          rfl

/-- Where the headers of a template come from. -/
theorem Officer.startMining_headers {pkg : Packages} {minerKey : String}
    {officer officer' : Officer} {inputs : MiningInputs} {entry : Unfinished}
    {update : WorkData}
    (h : officer.startMining pkg minerKey inputs = (officer', .ok (entry, update))) :
    ∃ headers, entry.unfinishedBlock.blockchainHeaders = some headers ∧
      prepareHeaders inputs.lastPreviousBlock inputs.currentBlocks
        (officer.unfinishedBlock.filter isNarrow) = .ok headers := by
  unfold Officer.startMining at h
  split at h
  · cases h
  · next dropped hdrop =>
      split at h
      · cases h
      · next newBlock work hprepare =>
          obtain ⟨headers, lastHeaders, root, difficulty, hheaders, _, _, _, rfl, _⟩ :=
            prepareTemplate_ok hprepare
          cases h
          rw [← Officer.dropWideTemplate_ok hdrop]
          exact ⟨headers, rfl, hheaders⟩

/-- A template, with what `startMining` had read for it and what was cached in
`_unfinishedBlock`. -/
structure Prepared where
  inputs : MiningInputs
  unfinishedBlock : Option BcBlock
  template : BcBlock
  deriving DecidableEq, Repr

/-- The last header of a chain in `block` has one at least as high in `other`. -/
def EndsNoHigher (chain : Chain) (block other : BcBlock) : Prop :=
  ∀ header ∈ lastHeader block chain, ∃ header' ∈ lastHeader other chain,
    header.height ≤ header'.height

instance (chain : Chain) (block other : BcBlock) :
    Decidable (EndsNoHigher chain block other) :=
  inferInstanceAs (Decidable (∀ header ∈ lastHeader block chain,
    ∃ header' ∈ lastHeader other chain, header.height ≤ header'.height))

/-- No chain of the template ends below the latest block it is built on. -/
def Prepared.KeepsHeights (p : Prepared) : Prop :=
  ∀ chain, EndsNoHigher chain p.inputs.lastPreviousBlock p.template

/-- If a chain has no new child block, the cached template, where it is built upon,
ends no lower in it than the latest block.  On genesis it is the new blocks that
count. -/
def Prepared.CoversChain (p : Prepared) (chain : Chain) : Prop :=
  (p.inputs.lastPreviousBlock.height = 1 →
    ∀ header ∈ lastHeader p.inputs.lastPreviousBlock chain,
      ∃ b ∈ blocksOf chain p.inputs.currentBlocks, header.height ≤ b.height) ∧
  (p.inputs.lastPreviousBlock.height ≠ 1 →
    blocksOf chain p.inputs.currentBlocks = [] →
    ∀ cached ∈ p.unfinishedBlock.filter isNarrow,
      EndsNoHigher chain p.inputs.lastPreviousBlock cached)

instance (p : Prepared) (chain : Chain) : Decidable (p.CoversChain chain) :=
  inferInstanceAs (Decidable ((_ → _) ∧ (_ → _)))

/-- Every chain is covered. -/
def Prepared.Covered (p : Prepared) : Prop := ∀ chain, p.CoversChain chain

/-- To look at every chain is to look at five. -/
instance Chain.decidableForall (P : Chain → Prop) [DecidablePred P] :
    Decidable (∀ chain, P chain) :=
  decidable_of_iff (∀ chain ∈ Chain.all, P chain)
    ⟨fun h chain => h chain chain.mem_all, fun h chain _ => h chain⟩

instance (p : Prepared) : Decidable p.KeepsHeights :=
  Chain.decidableForall fun chain =>
    EndsNoHigher chain p.inputs.lastPreviousBlock p.template

instance (p : Prepared) : Decidable p.Covered := Chain.decidableForall p.CoversChain

/-- What the reads of `startMining` find above a block. -/
structure FoundAbove (lastPreviousBlock : BcBlock) (currentBlocks : List Block) : Prop where
  named : Named currentBlocks
  above : lastPreviousBlock.height ≠ 1 →
    ∀ chain, ∀ header ∈ lastHeader lastPreviousBlock chain,
      ∀ b ∈ blocksOf chain currentBlocks, header.height < b.height
  single : lastPreviousBlock.height = 1 →
    ∀ chain, ∀ b ∈ blocksOf chain currentBlocks, ∀ b' ∈ blocksOf chain currentBlocks,
      b.height = b'.height

/-- One chain of one template. -/
theorem endsNoHigher_iff {p : Prepared} {headers : BlockchainHeaders}
    (hfound : FoundAbove p.inputs.lastPreviousBlock p.inputs.currentBlocks)
    (htemplate : p.template.blockchainHeaders = some headers)
    (hheaders : prepareHeaders p.inputs.lastPreviousBlock p.inputs.currentBlocks
      (p.unfinishedBlock.filter isNarrow) = .ok headers) (chain : Chain) :
    EndsNoHigher chain p.inputs.lastPreviousBlock p.template ↔ p.CoversChain chain := by
  have hlast : lastHeader p.template chain = (headers.get chain).getLast? := by
    rw [lastHeader, htemplate]
    rfl
  rw [prepareHeaders_last hfound.named hheaders] at hlast
  unfold EndsNoHigher Prepared.CoversChain
  rw [hlast]
  cases hnew : (blocksOf chain p.inputs.currentBlocks).getLast? with
  | some b =>
      have hb := List.mem_of_getLast? hnew
      have hne : blocksOf chain p.inputs.currentBlocks ≠ [] := List.ne_nil_of_mem hb
      constructor
      · intro hends
        refine ⟨fun _ header hheader => ?_, fun _ hnil => absurd hnil hne⟩
        obtain ⟨header', hheader', hle⟩ := hends header hheader
        cases hheader'
        exact ⟨b, hb, hle⟩
      · rintro ⟨hgenesis, -⟩ header hheader
        refine ⟨copyBlock b 1, rfl, ?_⟩
        by_cases hone : p.inputs.lastPreviousBlock.height = 1
        · obtain ⟨b', hb', hle⟩ := hgenesis hone header hheader
          rw [hfound.single hone chain b' hb' b hb] at hle
          exact hle
        · exact Nat.le_of_lt (hfound.above hone chain header hheader b hb)
  | none =>
      have hnil := List.getLast?_eq_none_iff.1 hnew
      rw [hnil]
      by_cases hone : p.inputs.lastPreviousBlock.height = 1
      · simp [hone]
      · -- the chain falls back on the cached template, or on the latest block itself
        simp only [if_neg hone]
        cases hcached : p.unfinishedBlock.filter isNarrow with
        | none =>
            simp only [Option.getD_none, Option.map_eq_some_iff, Option.mem_def]
            refine ⟨fun _ => ⟨fun h => absurd h hone, by simp⟩, fun _ header hheader => ?_⟩
            exact ⟨_, ⟨header, hheader, rfl⟩, Nat.le_refl _⟩
        | some cached => simp [hone, copyHeader, EndsNoHigher]

theorem keepsHeights_iff {pkg : Packages} {minerKey : String} {officer officer' : Officer}
    {inputs : MiningInputs} {entry : Unfinished} {update : WorkData}
    (hfound : FoundAbove inputs.lastPreviousBlock inputs.currentBlocks)
    (h : officer.startMining pkg minerKey inputs = (officer', .ok (entry, update))) :
    Prepared.KeepsHeights ⟨inputs, officer.unfinishedBlock, entry.unfinishedBlock⟩ ↔
      Prepared.Covered ⟨inputs, officer.unfinishedBlock, entry.unfinishedBlock⟩ := by
  obtain ⟨headers, htemplate, hheaders⟩ := Officer.startMining_headers h
  exact forall_congr' fun chain =>
    @endsNoHigher_iff ⟨inputs, officer.unfinishedBlock, entry.unfinishedBlock⟩ headers
      hfound htemplate hheaders chain

/-! ## What the store answers -/

/-- Under the key of a child block is a block of that chain and height. -/
def WellKeyed (s : Store) : Prop :=
  ∀ chain height value, s (.block (.child chain) (.height height)) = some value →
    value.getBlockchain = .ok chain.name ∧ value.getHeight = .ok height

/-- Whatever happens, the keys keep their meaning. -/
def KeepsKeys (s s' : Store) : Prop := WellKeyed s → WellKeyed s'

theorem KeepsKeys.refl (s : Store) : KeepsKeys s s := id

theorem KeepsKeys.trans (s₁ s₂ s₃ : Store) (h : KeepsKeys s₁ s₂) (h' : KeepsKeys s₂ s₃) :
    KeepsKeys s₁ s₃ := h' ∘ h

theorem wellKeyed_empty : WellKeyed Store.empty := fun _ _ _ h => by cases h

/-- The value goes with one of the keys. -/
def FiledUnder (keys : List Key) (value : Value) : Prop :=
  ∃ chain height, .block (.child chain) (.height height) ∈ keys ∧
    value.getBlockchain = .ok chain.name ∧ value.getHeight = .ok height

/-- Keys of child blocks. -/
def ChildKeys (keys : List Key) : Prop :=
  ∀ key ∈ keys, ∃ chain height, key = .block (.child chain) (.height height)

/-- Each read acts in a state of its own, and answers with what goes with its key. -/
theorem getBulk_safe {keys : List Key} (hkeys : ChildKeys keys) (order : List Nat)
    {s : Store} (hs : WellKeyed s) :
    Task.Safe KeepsKeys (fun values _ => ∀ value ∈ values, FiledUnder keys value)
      (getBulk order keys) s := by
  have hreads : ∀ t ∈ keys.map fun key => Task.read fun store => getIn store key,
      Task.Safe KeepsKeys
        (fun result _ => ∀ value, result = .ok value → FiledUnder keys value) t s := by
    intro t ht
    obtain ⟨key, hkey, rfl⟩ := List.mem_map.1 ht
    intro s' hs'
    refine ⟨KeepsKeys.refl s', fun _ _ value hvalue => ?_⟩
    obtain ⟨chain, height, rfl⟩ := hkeys key hkey
    exact ⟨chain, height, hkey, hs' hs chain height value (getIn_ok.1 hvalue)⟩
  apply Task.Safe.bind KeepsKeys.refl
    (Task.Safe.all_results KeepsKeys.refl KeepsKeys.trans order hreads)
  intro results s₁ hresults s₂ _ value hvalue
  obtain ⟨result, hresult, hok⟩ := List.mem_filterMap.1 hvalue
  cases result with
  | ok found => cases hok; exact hresults _ hresult _ rfl
  | error e => cases hok

/-- What is known of a height at which a block of a chain is asked for. -/
def AskedFor (lastPreviousBlock : BcBlock) (headers : BlockchainHeaders)
    (heights : List (String × Nat)) (chain : Chain) (height : Nat) : Prop :=
  (lastPreviousBlock.height = 1 → heightOf heights chain = some height) ∧
  (lastPreviousBlock.height ≠ 1 →
    ∀ header ∈ (headers.get chain).getLast?, header.height < height)

theorem le_of_mem_lastHeights {lowest highest height : Nat}
    (h : height ∈ lastHeights lowest highest) : lowest ≤ height := by
  rw [lastHeights, List.mem_range'_1] at h
  omega

/-- The heights asked for. -/
theorem newBlockHeadersKeysOf_ok {lastPreviousBlock : BcBlock} {headers : BlockchainHeaders}
    {heights : List (String × Nat)} {chain : Chain} {keys : List Key}
    (h : newBlockHeadersKeysOf lastPreviousBlock headers heights chain = .ok keys) :
    ∀ key ∈ keys, ∃ height, key = .block (.child chain) (.height height) ∧
      AskedFor lastPreviousBlock headers heights chain height := by
  unfold newBlockHeadersKeysOf at h
  intro key hkey
  split at h
  · next hone =>
      cases h
      obtain ⟨height, hheight, rfl⟩ : ∃ height, heightOf heights chain = some height ∧
          key = .block (.child chain) (.height height) := by
        simpa [eq_comm] using hkey
      exact ⟨height, rfl, fun _ => hheight, fun hne => absurd hone hne⟩
  · next hone =>
      split at h
      · cases h
      · next header hlast =>
          have hfrom : ∃ height, key = .block (.child chain) (.height height) ∧
              header.height + 1 ≤ height := by
            split at h
            · dsimp only at h
              split at h
              · cases h
                exact ⟨_, List.mem_singleton.1 hkey, Nat.le_refl _⟩
              · split at h
                · cases h
                  cases hkey
                · cases h
                  obtain ⟨height, hheight, rfl⟩ := List.mem_map.1 hkey
                  exact ⟨height, rfl, le_of_mem_lastHeights hheight⟩
            · cases h
              obtain ⟨height, hheight, rfl⟩ := List.mem_map.1 hkey
              exact ⟨height, rfl, le_of_mem_lastHeights hheight⟩
          obtain ⟨height, rfl, hle⟩ := hfrom
          refine ⟨height, rfl, fun h => absurd h hone, fun _ header' hheader' => ?_⟩
          rw [hlast] at hheader'
          cases hheader'
          exact hle

/-- So is every key of the second `getBulk`. -/
theorem askedFor_of_mem_flatten {lastPreviousBlock : BcBlock} {headers : BlockchainHeaders}
    {heights : List (String × Nat)} {keys : List (List Key)}
    (hkeys : Chain.all.mapM (newBlockHeadersKeysOf lastPreviousBlock headers heights) =
      .ok keys) {key : Key} (hkey : key ∈ keys.flatten) :
    ∃ chain height, key = .block (.child chain) (.height height) ∧
      AskedFor lastPreviousBlock headers heights chain height := by
  obtain ⟨chainKeys, hchainKeys, hmem⟩ := List.mem_flatten.1 hkey
  obtain ⟨chain, _, hof⟩ := mem_of_mapM_ok hkeys chainKeys hchainKeys
  exact ⟨chain, newBlockHeadersKeysOf_ok hof key hmem⟩

theorem asChildBlock_ok {value : Value} {b : Block} (h : asChildBlock value = .ok b) :
    value.getBlockchain = .ok b.blockchain ∧ value.getHeight = .ok b.height := by
  cases value with
  | block _ => cases h; exact ⟨rfl, rfl⟩
  | header _ => cases h; exact ⟨rfl, rfl⟩
  | _ => cases h

/-- The child blocks that were found lie above the block. -/
theorem foundAbove {lastPreviousBlock : BcBlock} {headers : BlockchainHeaders}
    {heights : List (String × Nat)} {keys : List (List Key)} {values : List Value}
    {currentBlocks : List Block}
    (hheaders : lastPreviousBlock.getBlockchainHeaders = .ok headers)
    (hkeys : Chain.all.mapM (newBlockHeadersKeysOf lastPreviousBlock headers heights) =
      .ok keys)
    (hvalues : ∀ value ∈ values, FiledUnder keys.flatten value)
    (hblocks : values.mapM asChildBlock = .ok currentBlocks) :
    FoundAbove lastPreviousBlock currentBlocks := by
  have hasked : ∀ b ∈ currentBlocks, ∃ chain : Chain, b.blockchain = chain.name ∧
      AskedFor lastPreviousBlock headers heights chain b.height := by
    intro b hb
    obtain ⟨value, hvalue, hchild⟩ := mem_of_mapM_ok hblocks b hb
    obtain ⟨hlabel, hheight⟩ := asChildBlock_ok hchild
    obtain ⟨chain, height, hkey, hname, hheight'⟩ := hvalues value hvalue
    obtain ⟨chain', height', heq, hof⟩ := askedFor_of_mem_flatten hkeys hkey
    cases heq
    rw [hheight] at hheight'
    cases hheight'
    exact ⟨chain, Except.ok.inj (hlabel.symm.trans hname), hof⟩
  have hof : ∀ chain, ∀ b ∈ blocksOf chain currentBlocks,
      AskedFor lastPreviousBlock headers heights chain b.height := by
    intro chain b hb
    obtain ⟨hmem, hname⟩ := mem_blocksOf.1 hb
    obtain ⟨chain', hname', hasked⟩ := hasked b hmem
    rwa [Chain.name_injective (hname.symm.trans hname')]
  refine ⟨?_, ?_, ?_⟩
  · intro b hb
    obtain ⟨chain, hname, _⟩ := hasked b hb
    exact ⟨chain, hname⟩
  · intro hne chain header hheader b hb
    rw [lastHeader, BcBlock.getBlockchainHeaders_ok.1 hheaders] at hheader
    exact (hof chain b hb).2 hne header hheader
  · intro hone chain b hb b' hb'
    exact Option.some.inj (((hof chain b hb).1 hone).symm.trans ((hof chain b' hb').1 hone))

/-- What `startMining` has read, if nothing was missing. -/
def ReadFor (read : Except JsError (BcBlock × List Value)) : Prop :=
  ∀ lastPreviousBlock values currentBlocks, read = .ok (lastPreviousBlock, values) →
    values.mapM asChildBlock = .ok currentBlocks →
    FoundAbove lastPreviousBlock currentBlocks

theorem safe_rejected (e : JsError) (s : Store) :
    Task.Safe KeepsKeys (fun read _ => ReadFor read) (.done (.error e)) s :=
  fun _ _ _ _ _ hread => by cases hread

/-- A `getBulk` of any keys changes nothing. -/
theorem getBulk_keeps (order : List Nat) (keys : List Key) :
    Task.Always KeepsKeys (getBulk order keys) := by
  refine Task.Always.bind (Task.Always.all order ?_) fun _ => trivial
  intro t ht
  obtain ⟨key, _, rfl⟩ := List.mem_map.1 ht
  exact Task.Always.read KeepsKeys.refl _

theorem readForMining_safe (knownRovers : List String) (headersOrder blocksOrder : List Nat)
    {s : Store} (hs : WellKeyed s) :
    Task.Safe KeepsKeys (fun read _ => ReadFor read)
      (ExceptT.run (readForMining knownRovers headersOrder blocksOrder)) s := by
  refine safe_getBlock_bind KeepsKeys.refl (fun s₁ lastPreviousBlock h₁ _ => ?_)
    fun s₁ e _ => safe_rejected e s₁
  rw [Async.run_ofTask_bind]
  apply Task.Safe.bind KeepsKeys.refl
    (Task.Safe.of_always (fun _ _ h => h) (fun _ _ h => h) (getBulk_keeps _ _) (h₁ hs))
  intro latestBlockHeaders s₂ hs₂
  rw [Async.run_ofExcept_bind]
  cases latestBlockHeaders.mapM chainAndHeight with
  | error e => exact safe_rejected e s₂
  | ok heights =>
      dsimp only
      rw [Async.run_ofExcept_bind]
      cases hheaders : lastPreviousBlock.getBlockchainHeaders with
      | error e => exact safe_rejected e s₂
      | ok headers =>
          dsimp only
          rw [Async.run_ofExcept_bind]
          cases hkeys : Chain.all.mapM
              (newBlockHeadersKeysOf lastPreviousBlock headers heights) with
          | error e => exact safe_rejected e s₂
          | ok keys =>
              have hchild : ChildKeys keys.flatten := by
                intro key hkey
                obtain ⟨chain, height, heq, _⟩ := askedFor_of_mem_flatten hkeys hkey
                exact ⟨chain, height, heq⟩
              dsimp only
              rw [Async.run_ofTask_bind]
              apply Task.Safe.bind KeepsKeys.refl (getBulk_safe hchild blocksOrder hs₂)
              intro values s₃ hvalues s₄ _ L values' currentBlocks hread hblocks
              cases hread
              exact foundAbove hheaders hkeys hvalues hblocks

end BcNode.Mining
