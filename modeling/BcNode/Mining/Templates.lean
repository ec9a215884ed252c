import BcNode.Mining.ChildHeights
import BcNode.Mining.Rebuild

/-!
# What a template carries

`startMining` asks the store for the child blocks above each chain's last header.  How
many keys that makes depends on the newest block of the chain, a key may have nothing
under it, and the blocks come back in one list from which `prepareNewBlock` groups them
by their labels.  `carriedHeaders` is what a chain should end up with.

`startMining_template` says that it does, and that the template passes the checks on
its header lists.
-/

namespace BcNode.Mining

open BcNode.Verified BcNode.Js BcNode.Protos BcNode.Bc BcNode.Persistence

/-- `ROVERS`: the keys of `rovers`. -/
def ROVERS : List String := ["btc", "eth", "lsk", "neo", "wav"]

theorem ROVERS_eq : ROVERS = Chain.all.map Chain.name := rfl

/-! ## What there is to carry -/

/-- The child block under a height. -/
def childBlockAt (store : Store) (chain : Chain) (height : Nat) : Option Block :=
  (store (.block (.child chain) (.height height))).bind fun value =>
    (asChildBlock value).toOption

/-- The heights above `last` and up to `highest`, of which only the last 31 count. -/
def countedHeights (last highest : Nat) : List Nat :=
  (List.range (highest + 1)).filter fun height => last < height ∧ highest ≤ height + 30

/-- The blocks of a chain that the store has at these heights. -/
def newBlocks (store : Store) (chain : Chain) (last highest : Nat) : List Block :=
  (countedHeights last highest).filterMap (childBlockAt store chain)

/-- All of them, as one list. -/
def allNewBlocks (store : Store) (lasts highest : Chain → Nat) : List Block :=
  Chain.all.flatMap fun chain => newBlocks store chain (lasts chain) (highest chain)

/-- The new blocks with one confirmation each or, where there are none, the last header
with one more. -/
def carriedHeaders (store : Store) (chain : Chain) (last : BlockchainHeader)
    (highest : Nat) : List BlockchainHeader :=
  if newBlocks store chain last.height highest = [] then
    [copyHeader last (last.blockchainConfirmationsInParentCount + 1)]
  else (newBlocks store chain last.height highest).map (copyBlock · 1)

theorem countedHeights_sorted (last highest : Nat) :
    (countedHeights last highest).Pairwise (· < ·) :=
  List.Pairwise.filter _ List.pairwise_lt_range

/-- The range of the source, with its lower end raised, has the same heights. -/
theorem lastHeights_eq (last highest : Nat) :
    lastHeights (last + 1) highest = countedHeights last highest := by
  refine List.Perm.eq_of_pairwise ?_ List.pairwise_lt_range'
    (countedHeights_sorted last highest) ?_
  · exact fun a b _ _ hab hba => absurd hab (Nat.lt_asymm hba)
  · refine (List.perm_ext_iff_of_nodup List.nodup_range'
      ((countedHeights_sorted last highest).imp Nat.ne_of_lt)).2 fun height => ?_
    simp only [List.mem_range'_1, countedHeights, List.mem_filter, List.mem_range,
      decide_eq_true_eq]
    omega

/-- Under the `latest` key of each chain is a block of that chain and height. -/
def NewestAt (store : Store) (highest : Chain → Nat) : Prop :=
  ∀ chain, ∃ value, store (.block (.child chain) .latest) = some value ∧
    value.getBlockchain = .ok chain.name ∧ value.getHeight = .ok (highest chain)

/-- The heights `startMining` gathers. -/
theorem NewestAt.heights {store : Store} {highest : Chain → Nat}
    (h : NewestAt store highest) :
    ((ROVERS.map fun chain => blockKey chain .latest).filterMap store).mapM
      chainAndHeight = .ok (Chain.all.map fun chain => (chain.name, highest chain)) := by
  choose value hstored hlabel hheight using h
  have hfound : (ROVERS.map fun chain => blockKey chain .latest).filterMap store =
      Chain.all.map value := by
    simp [ROVERS_eq, Function.comp_def, blockKey_name, hstored]
  have hpair (chain : Chain) :
      chainAndHeight (value chain) = .ok (chain.name, highest chain) := by
    rw [chainAndHeight, hlabel, hheight]
    rfl
  rw [hfound, mapM_ok (fun v hv => ?_)]
  · simp [hpair, Except.toOption]
  · obtain ⟨chain, -, rfl⟩ := List.mem_map.1 hv
    exact ⟨_, hpair chain⟩

theorem heightOf_all (highest : Chain → Nat) (chain : Chain) :
    heightOf (Chain.all.map fun chain => (chain.name, highest chain)) chain =
      some (highest chain) := by
  cases chain <;> rfl

/-- The keys of one chain. -/
theorem newBlockHeadersKeysOf_above {lastPreviousBlock : BcBlock}
    (hheight : lastPreviousBlock.height ≠ 1) {headers : BlockchainHeaders}
    {heights : List (String × Nat)} {chain : Chain} {last : BlockchainHeader}
    (hlast : (headers.get chain).getLast? = some last) {highest : Nat}
    (hhighest : heightOf heights chain = some highest) :
    newBlockHeadersKeysOf lastPreviousBlock headers heights chain =
      .ok ((countedHeights last.height highest).map fun height =>
        .block (.child chain) (.height height)) := by
  rw [newBlockHeadersKeysOf, if_neg hheight, hlast, hhighest, ← lastHeights_eq]
  dsimp only
  -- the two short cuts of the source are ranges of one height and of none
  split
  · next heq =>
      have hraised : max (highest - 30) (last.height + 1) = highest := by omega
      have hone : highest + 1 - highest = 1 := by omega
      rw [lastHeights, hraised, hone, heq]
      rfl
  · split
    · next hgt =>
        have hraised : highest + 1 - max (highest - 30) (last.height + 1) = 0 := by omega
        rw [lastHeights, hraised]
        rfl
    · rfl

/-- What `startMining` has read when nobody else is at work. -/
theorem readForMining_exec {store : Store} {lastPreviousBlock : BcBlock}
    (hlatest : store (.block .bc .latest) = some (.bcBlock lastPreviousBlock))
    (hheight : lastPreviousBlock.height ≠ 1) {headers : BlockchainHeaders}
    (hheaders : lastPreviousBlock.blockchainHeaders = some headers)
    {last : Chain → BlockchainHeader}
    (hlast : ∀ chain, (headers.get chain).getLast? = some (last chain))
    {highest : Chain → Nat} (hnewest : NewestAt store highest)
    (headersOrder blocksOrder : List Nat) :
    Async.exec (readForMining ROVERS headersOrder blocksOrder) store =
      (.ok (lastPreviousBlock, Chain.all.flatMap fun chain =>
        (countedHeights (last chain).height (highest chain)).filterMap fun height =>
          store (.block (.child chain) (.height height))), store) := by
  have hkeys : Chain.all.mapM (newBlockHeadersKeysOf lastPreviousBlock headers
      (Chain.all.map fun chain => (chain.name, highest chain))) =
      .ok (Chain.all.map fun chain =>
        (countedHeights (last chain).height (highest chain)).map fun height =>
          .block (.child chain) (.height height)) := by
    have hof (chain : Chain) := newBlockHeadersKeysOf_above hheight (hlast chain)
      (heightOf_all highest chain)
    rw [mapM_ok fun chain _ => ⟨_, hof chain⟩]
    simp [hof, Except.toOption]
  simp only [readForMining, Async.exec_bind, exec_getBlock,
    getBlockIn_of_some hlatest, Async.exec_ofTask, getBulk_run, Async.exec_ofExcept,
    hnewest.heights, BcBlock.getBlockchainHeaders_some hheaders, hkeys, Async.exec_pure]
  simp only [List.filterMap_flatten, List.map_map, List.flatMap_def, Function.comp_def,
    List.filterMap_map]

/-! ## The blocks among it -/

theorem asChildBlock_isOk {value : Value} {label : String}
    (h : value.getBlockchain = .ok label) : ∃ b, asChildBlock value = .ok b := by
  cases value with
  | block b => exact ⟨b, rfl⟩
  | header _ => exact ⟨_, rfl⟩
  | _ => cases h

/-- Everything that was read is a child block. -/
theorem newBlocks_read {store : Store} (hstore : WellKeyed store)
    (lasts highest : Chain → Nat) :
    (Chain.all.flatMap fun chain =>
      (countedHeights (lasts chain) (highest chain)).filterMap fun height =>
        store (.block (.child chain) (.height height))).mapM asChildBlock =
      .ok (allNewBlocks store lasts highest) := by
  rw [mapM_ok fun value hvalue => ?_]
  · simp only [List.filterMap_flatMap, List.filterMap_filterMap]
    rfl
  · obtain ⟨chain, -, hof⟩ := List.mem_flatMap.1 hvalue
    obtain ⟨height, -, hstored⟩ := List.mem_filterMap.1 hof
    exact asChildBlock_isOk (hstore chain height value hstored).1

theorem childBlockAt_some {store : Store} (hstore : WellKeyed store) {chain : Chain}
    {height : Nat} {b : Block} (h : childBlockAt store chain height = some b) :
    b.blockchain = chain.name ∧ b.height = height := by
  obtain ⟨value, hstored, hchild⟩ := Option.bind_eq_some_iff.1 h
  obtain ⟨hlabel, hheight⟩ := hstore chain height value hstored
  cases hblock : asChildBlock value with
  | error e => rw [hblock] at hchild; cases hchild
  | ok found =>
      rw [hblock] at hchild
      cases hchild
      obtain ⟨hlabel', hheight'⟩ := asChildBlock_ok hblock
      exact ⟨Except.ok.inj (hlabel'.symm.trans hlabel),
        Except.ok.inj (hheight'.symm.trans hheight)⟩

section NewBlocks

variable {store : Store} (hstore : WellKeyed store)

include hstore

theorem newBlocks_label {chain : Chain} {last highest : Nat} {b : Block}
    (hb : b ∈ newBlocks store chain last highest) : b.blockchain = chain.name := by
  obtain ⟨height, -, hfound⟩ := List.mem_filterMap.1 hb
  exact (childBlockAt_some hstore hfound).1

theorem newBlocks_sorted (chain : Chain) (last highest : Nat) :
    (newBlocks store chain last highest).Pairwise (·.height < ·.height) := by
  refine List.Pairwise.filterMap _ (fun height height' hlt b hb b' hb' => ?_)
    (countedHeights_sorted last highest)
  rw [(childBlockAt_some hstore hb).2, (childBlockAt_some hstore hb').2]
  exact hlt

variable (lasts highest : Chain → Nat)

theorem allNewBlocks_named : Named (allNewBlocks store lasts highest) := by
  intro b hb
  obtain ⟨chain, -, hof⟩ := List.mem_flatMap.1 hb
  exact ⟨chain, newBlocks_label hstore hof⟩

/-- From the list of all blocks each chain gets its own back. -/
theorem blocksOf_allNewBlocks (chain : Chain) :
    blocksOf chain (allNewBlocks store lasts highest) =
      newBlocks store chain (lasts chain) (highest chain) := by
  have hown (other : Chain) : blocksOf chain
      (newBlocks store other (lasts other) (highest other)) =
      if other = chain then newBlocks store other (lasts other) (highest other)
      else [] := by
    split
    · next heq =>
        refine List.filter_eq_self.2 fun b hb => decide_eq_true ?_
        rw [newBlocks_label hstore hb, heq]
    · next hne =>
        refine List.filter_eq_nil_iff.2 fun b hb hname => hne ?_
        rw [decide_eq_true_eq, newBlocks_label hstore hb] at hname
        exact Chain.name_injective hname
  unfold blocksOf at hown ⊢
  rw [allNewBlocks, List.filter_flatMap]
  simp only [hown]
  cases chain <;> simp [Chain.all]

end NewBlocks

/-! ## The template -/

theorem carriedHeaders_ne_nil (store : Store) (chain : Chain) (last : BlockchainHeader)
    (highest : Nat) : carriedHeaders store chain last highest ≠ [] := by
  unfold carriedHeaders
  split
  · exact List.cons_ne_nil _ _
  · next hne => exact fun hnil => hne (List.map_eq_nil_iff.1 hnil)

theorem carriedHeaders_sorted {store : Store} (hstore : WellKeyed store) (chain : Chain)
    (last : BlockchainHeader) (highest : Nat) :
    (carriedHeaders store chain last highest).Pairwise (·.height < ·.height) := by
  unfold carriedHeaders
  split
  · exact List.pairwise_singleton _ _
  · exact List.pairwise_map.2 (newBlocks_sorted hstore chain last.height highest)

theorem onStore_run {α : Type} (t : Task Store α) (w : World) :
    (onStore t).run w = ((t.run w.store).1, { w with store := (t.run w.store).2 }) :=
  Task.run_focus World.store (fun w store => { w with store }) (fun _ _ => rfl)
    (fun _ => rfl) (fun _ _ _ => rfl) t w

/-- Once there are headers, `startMining` registers a template with them. -/
theorem Officer.startMining_isOk (pkg : Packages) (minerKey : String) {officer : Officer}
    (hunfinished : officer.unfinishedBlock = none) (inputs : MiningInputs)
    {headers lastHeaders : BlockchainHeaders}
    (hheaders : prepareHeaders inputs.lastPreviousBlock inputs.currentBlocks none =
      .ok headers) (hne : headers.Nonempty)
    (hlast : inputs.lastPreviousBlock.getBlockchainHeaders = .ok lastHeaders) :
    ∃ officer' entry update, officer.startMining pkg minerKey inputs =
        (officer', .ok (entry, update)) ∧
      officer'.unfinishedBlock = some entry.unfinishedBlock ∧
      entry.unfinishedBlock.blockchainHeaders = some headers := by
  obtain ⟨newBlock, hprepare, htemplate⟩ := prepareNewBlock_isOk pkg hheaders hne hlast
    inputs.currentTimestamp inputs.block [] minerKey
  rw [Officer.startMining, Officer.dropWideTemplate, hunfinished]
  dsimp only
  rw [hunfinished, prepareTemplate, hprepare]
  simp only [bind, Except.bind, BcBlock.getBlockchainHeaders_some htemplate, pure,
    Except.pure]
  exact ⟨_, _, _, rfl, rfl, htemplate⟩

section Template

variable {store : Store} (hstore : WellKeyed store) {lastPreviousBlock : BcBlock}
  (hheight : lastPreviousBlock.height ≠ 1) {headers : BlockchainHeaders}
  (hheaders : lastPreviousBlock.blockchainHeaders = some headers)
  {last : Chain → BlockchainHeader}
  (hlast : ∀ chain, (headers.get chain).getLast? = some (last chain))
  (highest : Chain → Nat)

include hstore hheight hheaders hlast

/-- The header map without a cached template. -/
theorem prepareHeaders_carried :
    ∃ templateHeaders, prepareHeaders lastPreviousBlock
        (allNewBlocks store (fun chain => (last chain).height) highest) none =
        .ok templateHeaders ∧
      ∀ chain, templateHeaders.get chain =
        carriedHeaders store chain (last chain) (highest chain) := by
  have hnamed := allNewBlocks_named hstore (fun chain => (last chain).height) highest
  have hlastHeader (chain : Chain) :
      lastHeader lastPreviousBlock chain = some (last chain) := by
    rw [lastHeader, hheaders, Option.bind_some, hlast]
  obtain ⟨newMap, hnew⟩ := setNewChildHeaders_isOk hnamed
  obtain ⟨templateHeaders, hprepare⟩ := prepareHeaders_isOk none hheight hnew
    fun chain => (hlastHeader chain).symm ▸ Option.some_ne_none _
  obtain ⟨newMap', hnew', hcarries⟩ := prepareHeaders_carries hheight hprepare
  cases hnew.symm.trans hnew'
  refine ⟨templateHeaders, hprepare, fun chain => ?_⟩
  have hget : newMap.get chain =
      (newBlocks store chain (last chain).height (highest chain)).map (copyBlock · 1) := by
    rw [setNewChildHeaders_get hnamed hnew chain,
      blocksOf_allNewBlocks hstore]
  unfold carriedHeaders
  split
  · next hnone =>
      rw [hnone] at hget
      obtain ⟨header, hheader, hlist⟩ := (hcarries chain).2 hget
      cases (hlastHeader chain).symm.trans hheader
      exact hlist
  · next hsome =>
      have hne : newMap.get chain ≠ [] := fun hnil =>
        hsome (List.map_eq_nil_iff.1 (hget.symm.trans hnil))
      rw [(hcarries chain).1 hne, hget]

/-- The template a run ends with. -/
theorem startMining_run {w : World} (hw : w.store = store)
    (hlatest : store (.block .bc .latest) = some (.bcBlock lastPreviousBlock))
    (hnewest : NewestAt store highest) (hunfinished : w.officer.unfinishedBlock = none)
    (pkg : Packages) (minerKey : String) (call : MiningCall) :
    ∃ template templateHeaders,
      ((startMining pkg minerKey ROVERS call).run w).2.officer.unfinishedBlock =
        some template ∧
      template.blockchainHeaders = some templateHeaders ∧
      ∀ chain, templateHeaders.get chain =
        carriedHeaders store chain (last chain) (highest chain) := by
  obtain ⟨templateHeaders, hprepare, hcarried⟩ :=
    prepareHeaders_carried hstore hheight hheaders hlast highest
  have hne : templateHeaders.Nonempty := fun chain => by
    rw [hcarried chain]
    exact carriedHeaders_ne_nil _ _ _ _
  obtain ⟨officer', entry, update, hstart, hcached, htemplate⟩ :=
    Officer.startMining_isOk pkg minerKey hunfinished
      { currentTimestamp := call.currentTimestamp
        randomHex := call.randomHex
        lastPreviousBlock
        currentBlocks := allNewBlocks store (fun chain => (last chain).height) highest
        block := call.block }
      hprepare hne (BcBlock.getBlockchainHeaders_some hheaders)
  refine ⟨entry.unfinishedBlock, templateHeaders, ?_, htemplate, hcarried⟩
  have hread := readForMining_exec hlatest hheight hheaders hlast hnewest
    call.headersOrder call.blocksOrder
  unfold Async.exec at hread
  rw [startMining, Task.run_bind, onStore_run, hw, hread]
  dsimp only [Task.modify, Task.run_act, Task.run_done]
  rw [World.startMining, newBlocks_read hstore]
  dsimp only
  rw [hstart]
  exact hcached

end Template

/-- **What a template carries.**  Above genesis, without a cached template and with
child blocks stored under their own keys, `startMining` prepares a template whose header
lists pass their checks.  Each chain has the blocks the store has above its last header
or, where there are none, that header once more. -/
theorem startMining_template (pkg : Packages) (minerKey : String) (call : MiningCall)
    {w : World} (hstore : WellKeyed w.store) {lastPreviousBlock : BcBlock}
    (hlatest : w.store (.block .bc .latest) = some (.bcBlock lastPreviousBlock))
    (hheight : 1 < lastPreviousBlock.height) {headers : BlockchainHeaders}
    (hheaders : lastPreviousBlock.blockchainHeaders = some headers)
    (hnonempty : headers.Nonempty) {highest : Chain → Nat}
    (hnewest : NewestAt w.store highest) (hunfinished : w.officer.unfinishedBlock = none) :
    ∃ template, ((startMining pkg minerKey ROVERS call).run w).2.officer.unfinishedBlock =
        some template ∧
      numberOfBlockchainsNeededMatchesChildBlock template = .ok true ∧
      ifMoreThanOneHeaderPerBlockchainAreTheyOrdered template = .ok true ∧
      ∃ templateHeaders, template.blockchainHeaders = some templateHeaders ∧
        ∀ chain, ∀ last ∈ (headers.get chain).getLast?,
          templateHeaders.get chain =
            carriedHeaders w.store chain last (highest chain) := by
  obtain ⟨last, hlast⟩ : ∃ last : Chain → BlockchainHeader,
      ∀ chain, (headers.get chain).getLast? = some (last chain) :=
    ⟨fun chain => (headers.get chain).getLast (hnonempty chain),
      fun chain => List.getLast?_eq_some_getLast (hnonempty chain)⟩
  obtain ⟨template, templateHeaders, hcached, htemplate, hcarried⟩ :=
    startMining_run hstore (Nat.ne_of_gt hheight) hheaders hlast highest rfl hlatest hnewest
      hunfinished pkg minerKey call
  have hne : templateHeaders.Nonempty := fun chain => by
    rw [hcarried chain]
    exact carriedHeaders_ne_nil _ _ _ _
  refine ⟨template, hcached,
    numberOfBlockchainsNeededMatchesChildBlock_of_nonempty htemplate hne,
    ifMoreThanOneHeaderPerBlockchainAreTheyOrdered_of_pairwise htemplate fun chain => ?_,
    templateHeaders, htemplate, fun chain header hheader => ?_⟩
  · rw [hcarried chain]
    exact carriedHeaders_sorted hstore chain _ _
  · rw [hlast chain] at hheader
    cases hheader
    exact hcarried chain

/-- On top of the sample's previous block there is a new block of `wav` only. -/
def sampleNewestStore : Store
  | .block .bc .latest => some (.bcBlock samplePrevious)
  | .block (.child .wav) .latest => some (.block (sampleChild .wav 1000000 11))
  | .block (.child .wav) (.height 11) => some (.block (sampleChild .wav 1000000 11))
  | .block (.child chain) .latest => some (.block (sampleChild chain 980000 10))
  | _ => none

theorem sampleNewestStore_wellKeyed : WellKeyed sampleNewestStore := by
  intro chain height value hstored
  unfold sampleNewestStore at hstored
  split at hstored
  · next hkey => cases hkey
  · next hkey => cases hkey
  · next hkey =>
      cases hkey
      cases hstored
      exact ⟨rfl, rfl⟩
  · next hkey => cases hkey
  · cases hstored

def sampleCall : MiningCall where
  block := sampleChild .wav 1000000 11
  currentTimestamp := 1000
  randomHex := "00"

theorem startMining_template_sample :
    ∃ template, ((startMining samplePackages "miner" ROVERS sampleCall).run
        { store := sampleNewestStore }).2.officer.unfinishedBlock = some template ∧
      numberOfBlockchainsNeededMatchesChildBlock template = .ok true ∧
      ifMoreThanOneHeaderPerBlockchainAreTheyOrdered template = .ok true ∧
      ∃ templateHeaders, template.blockchainHeaders = some templateHeaders ∧
        templateHeaders.get .btc = [copyBlock (sampleChild .btc 980000 10) 2] ∧
        templateHeaders.get .wav = [copyBlock (sampleChild .wav 1000000 11) 1] := by
  have hnonempty : (sampleHeaders 980000 980000 10).Nonempty := by
    intro chain
    cases chain <;> exact List.cons_ne_nil _ _
  have hnewest : NewestAt sampleNewestStore
      fun chain => if chain = .wav then 11 else 10 := by
    intro chain
    cases chain <;> exact ⟨_, rfl, rfl, rfl⟩
  obtain ⟨template, hcached, hmatches, hordered, templateHeaders, htemplate, hcarried⟩ :=
    startMining_template samplePackages "miner" sampleCall
      (w := { store := sampleNewestStore }) sampleNewestStore_wellKeyed rfl (by decide)
      rfl hnonempty hnewest rfl
  refine ⟨template, hcached, hmatches, hordered, templateHeaders, htemplate, ?_, ?_⟩
  · rw [hcarried .btc _ rfl]
    decide +kernel
  · rw [hcarried .wav _ rfl]
    decide +kernel

end BcNode.Mining
