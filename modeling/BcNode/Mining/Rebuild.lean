import BcNode.Mining.StartMining

/-!
# Templates built again

Every rovered block makes `startMining` prepare a new template, and it passes the last
one on as `_unfinishedBlock`.  A chain without new blocks then takes over that
template's header, which has its confirmation raised already, and raises it once more.

`prepareNewBlock_rebuilds` says what the headers are after any number of rebuilds,
`rebuilt_headers_iff` when they are still those of the first template.
-/

namespace BcNode.Mining

open BcNode.Js BcNode.Protos

/-! ## When a template can be prepared -/

/-- The chain has new blocks. -/
def HasNew (newChildHeaders : List Block) (chain : Chain) : Prop :=
  ∃ b ∈ newChildHeaders, chainOfLabel? b.blockchain = some chain

instance (newChildHeaders : List Block) (chain : Chain) :
    Decidable (HasNew newChildHeaders chain) :=
  inferInstanceAs (Decidable (∃ b ∈ newChildHeaders,
    chainOfLabel? b.blockchain = some chain))

theorem setByLabel_ok {map map' : BlockchainHeaders} {label : String}
    {list : List BlockchainHeader} :
    setByLabel map label list = .ok map' ↔
      ∃ chain, chainOfLabel? label = some chain ∧ map' = map.set chain list := by
  unfold setByLabel
  cases chainOfLabel? label <;> simp [eq_comm]

/-- Lists that are not empty, set by label, fill the chains with such a label. -/
theorem setByLabel_foldlM_ne_nil {entries : List (String × List Block)}
    (hne : ∀ entry ∈ entries, entry.2 ≠ []) :
    ∀ {map map' : BlockchainHeaders},
      entries.foldlM (fun newMap entry =>
        setByLabel newMap entry.1 (entry.2.map (copyBlock · 1))) map = .ok map' →
      ∀ chain, map'.get chain ≠ [] ↔ map.get chain ≠ [] ∨
        ∃ entry ∈ entries, chainOfLabel? entry.1 = some chain := by
  induction entries with
  | nil =>
      intro map map' h chain
      cases h
      simp
  | cons entry entries ih =>
      intro map map' h chain
      obtain ⟨next, hset, hrest⟩ := foldlM_cons_ok.1 h
      obtain ⟨labelled, hlabel, rfl⟩ := setByLabel_ok.1 hset
      rw [ih (fun e he => hne e (List.mem_cons_of_mem _ he)) hrest chain]
      have hfilled := hne entry List.mem_cons_self
      by_cases hchain : chain = labelled
      · subst hchain
        simp [hlabel, hfilled]
      · have hother : labelled ≠ chain := fun h => hchain h.symm
        simp [BlockchainHeaders.get_set_ne _ hchain, hlabel, hother]

/-- After the first half of `prepareChildBlockHeadersMap` the chains with new blocks
have headers, and no others. -/
theorem setNewChildHeaders_ne_nil_iff {newChildHeaders : List Block}
    {map : BlockchainHeaders} (h : setNewChildHeaders newChildHeaders = .ok map)
    (chain : Chain) : map.get chain ≠ [] ↔ HasNew newChildHeaders chain := by
  have hentry (entry : String × List Block) :
      entry ∈ groupByBlockchain newChildHeaders ↔
        (∃ b ∈ newChildHeaders, b.blockchain = entry.1) ∧ entry.1 ≠ "__proto__" ∧
          entry.2 = newChildHeaders.filter (·.blockchain = entry.1) := by
    simp only [groupByBlockchain, List.mem_map, List.mem_filter, List.mem_eraseDups,
      decide_eq_true_eq]
    constructor
    · rintro ⟨label, ⟨hmem, hproto⟩, rfl⟩
      exact ⟨hmem, hproto, rfl⟩
    · rintro ⟨hmem, hproto, heq⟩
      exact ⟨entry.1, ⟨hmem, hproto⟩, Prod.ext rfl heq.symm⟩
  have hne : ∀ entry ∈ groupByBlockchain newChildHeaders, entry.2 ≠ [] := by
    intro entry hmem
    obtain ⟨⟨b, hb, hlabel⟩, -, heq⟩ := (hentry entry).1 hmem
    rw [heq]
    exact List.ne_nil_of_mem (List.mem_filter.2 ⟨hb, decide_eq_true hlabel⟩)
  rw [setByLabel_foldlM_ne_nil hne h chain]
  have hempty : BlockchainHeaders.get {} chain = [] := by cases chain <;> rfl
  simp only [hempty, ne_eq, not_true_eq_false, false_or]
  constructor
  · rintro ⟨entry, hmem, hlabel⟩
    obtain ⟨⟨b, hb, hblockchain⟩, -⟩ := (hentry entry).1 hmem
    exact ⟨b, hb, by rw [hblockchain, hlabel]⟩
  · rintro ⟨b, hb, hlabel⟩
    have hproto : b.blockchain ≠ "__proto__" := by
      intro hproto
      rw [hproto] at hlabel
      cases hlabel
    exact ⟨(b.blockchain, newChildHeaders.filter (·.blockchain = b.blockchain)),
      (hentry _).2 ⟨⟨b, hb, rfl⟩, hproto, rfl⟩, hlabel⟩

/-- Lists can be set under the names of chains. -/
theorem setByLabel_foldlM_isOk (f : String → List BlockchainHeader) {labels : List String}
    (hnamed : ∀ label ∈ labels, ∃ chain : Chain, label = chain.name)
    (map : BlockchainHeaders) :
    ∃ map', labels.foldlM (fun newMap label => setByLabel newMap label (f label)) map =
      .ok map' := by
  induction labels generalizing map with
  | nil => exact ⟨map, rfl⟩
  | cons label labels ih =>
      obtain ⟨chain, hlabel⟩ := hnamed label List.mem_cons_self
      obtain ⟨map', hrest⟩ := ih (fun l hl => hnamed l (List.mem_cons_of_mem _ hl))
        (map.set chain (f label))
      refine ⟨map', foldlM_cons_ok.2 ⟨_, setByLabel_ok.2 ⟨chain, ?_, rfl⟩, hrest⟩⟩
      rw [hlabel, chainOfLabel?_name]

/-- The first half goes through if the blocks carry the names of chains. -/
theorem setNewChildHeaders_isOk {newChildHeaders : List Block}
    (hnamed : Named newChildHeaders) :
    ∃ map, setNewChildHeaders newChildHeaders = .ok map := by
  rw [setNewChildHeaders, groupByBlockchain, List.foldlM_map]
  refine setByLabel_foldlM_isOk _ (fun label hlabel => ?_) {}
  have hmem := List.mem_eraseDups.1 (List.mem_filter.1 hlabel).1
  obtain ⟨b, hb, rfl⟩ := List.mem_map.1 hmem
  exact hnamed b hb

/-- The second half goes through if the previous block has a header of every chain. -/
theorem carryLastHeader_foldlM_isOk {previousBlock : BcBlock}
    (hlast : ∀ chain, lastHeader previousBlock chain ≠ none) (chains : List Chain)
    (map : BlockchainHeaders) :
    ∃ map', chains.foldlM (carryLastHeader previousBlock) map = .ok map' := by
  have hturn (map : BlockchainHeaders) (chain : Chain) :
      ∃ map', carryLastHeader previousBlock map chain = .ok map' := by
    obtain ⟨header, hheader⟩ := Option.ne_none_iff_exists'.1 (hlast chain)
    obtain ⟨headers, hheaders, hget⟩ := Option.bind_eq_some_iff.1 hheader
    unfold carryLastHeader
    split
    · exact ⟨_, rfl⟩
    · rw [BcBlock.getBlockchainHeaders_some hheaders]
      simp only [bind, Except.bind, hget]
      exact ⟨_, rfl⟩
  induction chains generalizing map with
  | nil => exact ⟨map, rfl⟩
  | cons chain chains ih =>
      obtain ⟨next, hnext⟩ := hturn map chain
      obtain ⟨map', hmap'⟩ := ih next
      exact ⟨map', foldlM_cons_ok.2 ⟨next, hnext, hmap'⟩⟩

/-- Behind a string, everything can be folded into a merkle root. -/
theorem createMerkleRoot_isOk (pkg : Packages) (list : List MerkleItem) (prev : String) :
    ∃ root, createMerkleRoot pkg list (some prev) = .ok root := by
  induction list generalizing prev with
  | nil => exact ⟨some prev, rfl⟩
  | cons item list ih => exact ih (pkg.blake2bl (prev ++ item.text))

/-- Block hashes are strings, and come first. -/
theorem createMerkleRoot_merkleItems_isOk (pkg : Packages) {blockHashes : List String}
    (hne : blockHashes ≠ []) (txs : List BcTransaction) (difficulty miner : String)
    (height version schemaVersion nrgGrant : Nat) :
    ∃ root, createMerkleRoot pkg (merkleItems blockHashes txs difficulty miner height
      version schemaVersion nrgGrant) none = .ok root := by
  cases blockHashes with
  | nil => exact absurd rfl hne
  | cons hash hashes => exact createMerkleRoot_isOk pkg _ (pkg.blake2bl hash)

/-! ## One template -/

/-- The headers of the new blocks and, for every other chain, the last header of
`previousBlock` with `n` confirmations more. -/
def Carries (previousBlock : BcBlock) (newMap : BlockchainHeaders) (n : Nat)
    (headers : BlockchainHeaders) : Prop :=
  ∀ chain, (newMap.get chain ≠ [] → headers.get chain = newMap.get chain) ∧
    (newMap.get chain = [] → ∃ header, lastHeader previousBlock chain = some header ∧
      headers.get chain =
        [copyHeader header (header.blockchainConfirmationsInParentCount + n)])

section Carries

variable {previousBlock : BcBlock} {newMap headers : BlockchainHeaders} {n : Nat}

theorem Carries.ne_nil (h : Carries previousBlock newMap n headers) (chain : Chain) :
    headers.get chain ≠ [] := by
  by_cases hnil : newMap.get chain = []
  · obtain ⟨header, -, hlist⟩ := (h chain).2 hnil
    rw [hlist]
    exact List.cons_ne_nil _ _
  · rw [(h chain).1 hnil]
    exact hnil

theorem lastHeader_ne_none {block : BcBlock}
    (hheaders : block.blockchainHeaders = some headers) {chain : Chain}
    (hne : headers.get chain ≠ []) : lastHeader block chain ≠ none := by
  rw [lastHeader, hheaders]
  exact fun hnone => hne (List.getLast?_eq_none_iff.1 hnone)

/-- What a template has carried over, the next one carries on. -/
theorem Carries.trans (h : Carries previousBlock newMap n headers) {template : BcBlock}
    (htemplate : template.blockchainHeaders = some headers) {headers' : BlockchainHeaders}
    (h' : Carries template newMap 1 headers') :
    Carries previousBlock newMap (n + 1) headers' := by
  intro chain
  refine ⟨(h' chain).1, fun hnil => ?_⟩
  obtain ⟨header, hheader, hlist⟩ := (h chain).2 hnil
  obtain ⟨carried, hcarried, hlist'⟩ := (h' chain).2 hnil
  rw [lastHeader, htemplate, Option.bind_some, hlist] at hcarried
  cases hcarried
  exact ⟨header, hheader, hlist'⟩

/-- A header that is carried more often has more confirmations. -/
theorem Carries.raised_eq_zero (h : Carries previousBlock newMap 1 headers) {raised : Nat}
    (h' : Carries previousBlock newMap (1 + raised) headers) {chain : Chain}
    (hnil : newMap.get chain = []) : raised = 0 := by
  obtain ⟨header, hheader, hlist⟩ := (h chain).2 hnil
  obtain ⟨header', hheader', hlist'⟩ := (h' chain).2 hnil
  cases hheader.symm.trans hheader'
  have hcounts := congrArg (List.map (·.blockchainConfirmationsInParentCount))
    (hlist.symm.trans hlist')
  simp only [List.map_cons, List.map_nil, copyHeader, List.cons.injEq, and_true] at hcounts
  omega

end Carries

section Template

variable {lastPreviousBlock : BcBlock} {newChildHeaders : List Block}
  {unfinishedBlock : Option BcBlock}

/-- Above genesis `prepareNewBlock` finds headers for every chain. -/
theorem prepareHeaders_carries (hheight : lastPreviousBlock.height ≠ 1)
    {headers : BlockchainHeaders}
    (h : prepareHeaders lastPreviousBlock newChildHeaders unfinishedBlock = .ok headers) :
    ∃ newMap, setNewChildHeaders newChildHeaders = .ok newMap ∧
      Carries (unfinishedBlock.getD lastPreviousBlock) newMap 1 headers := by
  have habove : ¬ lastPreviousBlock.height = Genesis.height := hheight
  rw [prepareHeaders, if_neg habove, prepareChildBlockHeadersMap] at h
  obtain ⟨newMap, hnew, hcarry⟩ := bind_ok.1 h
  refine ⟨newMap, hnew, fun chain => ?_⟩
  obtain ⟨hkeep, hfill⟩ := carryLastHeader_foldlM hcarry chain
  exact ⟨hkeep, fun hnil => hfill hnil chain.mem_all⟩

theorem prepareHeaders_isOk (unfinishedBlock : Option BcBlock)
    (hheight : lastPreviousBlock.height ≠ 1) {newMap : BlockchainHeaders}
    (hnew : setNewChildHeaders newChildHeaders = .ok newMap)
    (hlast : ∀ chain, lastHeader (unfinishedBlock.getD lastPreviousBlock) chain ≠ none) :
    ∃ headers, prepareHeaders lastPreviousBlock newChildHeaders unfinishedBlock =
      .ok headers := by
  have habove : ¬ lastPreviousBlock.height = Genesis.height := hheight
  obtain ⟨headers, hheaders⟩ := carryLastHeader_foldlM_isOk hlast Chain.all newMap
  refine ⟨headers, ?_⟩
  rw [prepareHeaders, if_neg habove, prepareChildBlockHeadersMap, hnew]
  exact hheaders

theorem blockchainMapToList_ne_nil {headers : BlockchainHeaders} {chain : Chain}
    (hne : headers.get chain ≠ []) : blockchainMapToList headers ≠ [] := by
  have hflatten : blockchainMapToList headers = headers.lists.flatten := by
    simp [blockchainMapToList, BlockchainHeaders.lists, Chain.all]
  rw [hflatten]
  intro hnil
  refine hne (List.flatten_eq_nil_iff.1 hnil _ ?_)
  exact List.mem_map_of_mem chain.mem_all

/-- With its headers, `prepareNewBlock` has everything it needs. -/
theorem prepareNewBlock_isOk (pkg : Packages) {headers lastHeaders : BlockchainHeaders}
    (hheaders : prepareHeaders lastPreviousBlock newChildHeaders unfinishedBlock =
      .ok headers) (hne : ∀ chain, headers.get chain ≠ [])
    (hlast : lastPreviousBlock.getBlockchainHeaders = .ok lastHeaders)
    (currentTimestamp : Nat) (block : Block) (newTransactions : List BcTransaction)
    (minerAddress : String) :
    ∃ newBlock, prepareNewBlock pkg currentTimestamp lastPreviousBlock newChildHeaders block
        newTransactions minerAddress unfinishedBlock = .ok (newBlock, currentTimestamp) ∧
      newBlock.blockchainHeaders = some headers := by
  have hhashes : getChildrenBlocksHashes pkg (blockchainMapToList headers) ≠ [] := fun h =>
    blockchainMapToList_ne_nil (hne .btc) (List.map_eq_nil_iff.1 h)
  obtain ⟨root, hroot⟩ := createMerkleRoot_merkleItems_isOk pkg hhashes newTransactions
    (templateDifficulty pkg currentTimestamp lastPreviousBlock block.timestamp
      (getNewBlockCount lastHeaders headers))
    minerAddress (lastPreviousBlock.height + 1) Genesis.version Genesis.schemaVersion
    Genesis.nrgGrant
  refine ⟨newTemplate pkg lastPreviousBlock headers newTransactions minerAddress
    (templateDifficulty pkg currentTimestamp lastPreviousBlock block.timestamp
      (getNewBlockCount lastHeaders headers)) (root.getD "")
    (chainWeightOf pkg lastPreviousBlock) newChildHeaders.length, ?_, rfl⟩
  simp only [prepareNewBlock, bind, Except.bind, hheaders, hlast, hroot,
    bnGtNumber_natCast, if_true]
  rfl

end Template

/-! ## Any number of templates -/

/-- What a call of `prepareNewBlock` brings with it, besides the blocks. -/
structure Restart where
  currentTimestamp : Nat
  block : Block
  newTransactions : List BcTransaction := []

section Rebuild

variable (pkg : Packages) (minerAddress : String) (lastPreviousBlock : BcBlock)
  (newChildHeaders : List Block)

/-- The template `prepareNewBlock` builds. -/
def buildTemplate (unfinishedBlock : Option BcBlock) (restart : Restart) :
    Except JsError BcBlock := do
  let (newBlock, _) ← prepareNewBlock pkg restart.currentTimestamp lastPreviousBlock
    newChildHeaders restart.block restart.newTransactions minerAddress unfinishedBlock
  return newBlock

/-- Each restart builds upon the template before it. -/
def rebuild (first : BcBlock) (restarts : List Restart) : Except JsError BcBlock :=
  restarts.foldlM (fun template restart =>
    buildTemplate pkg minerAddress lastPreviousBlock newChildHeaders (some template)
      restart) first

variable {pkg minerAddress lastPreviousBlock newChildHeaders}

/-- What the first template carries. -/
theorem buildTemplate_carries (hheight : lastPreviousBlock.height ≠ 1)
    {unfinishedBlock : Option BcBlock} {restart : Restart} {template : BcBlock}
    (h : buildTemplate pkg minerAddress lastPreviousBlock newChildHeaders unfinishedBlock
      restart = .ok template) :
    ∃ headers newMap, template.blockchainHeaders = some headers ∧
      setNewChildHeaders newChildHeaders = .ok newMap ∧
      Carries (unfinishedBlock.getD lastPreviousBlock) newMap 1 headers := by
  obtain ⟨⟨newBlock, finalTimestamp⟩, hprepare, hreturn⟩ := bind_ok.1 h
  cases hreturn
  obtain ⟨headers, lastHeaders, root, difficulty, hheaders, -, -, -, rfl, -⟩ :=
    prepareNewBlock_ok hprepare
  obtain ⟨newMap, hnew, hcarries⟩ := prepareHeaders_carries hheight hheaders
  exact ⟨headers, newMap, rfl, hnew, hcarries⟩

theorem buildTemplate_previous {unfinishedBlock : Option BcBlock} {restart : Restart}
    {template : BcBlock}
    (h : buildTemplate pkg minerAddress lastPreviousBlock newChildHeaders unfinishedBlock
      restart = .ok template) :
    ∃ lastHeaders, lastPreviousBlock.getBlockchainHeaders = .ok lastHeaders := by
  obtain ⟨⟨newBlock, finalTimestamp⟩, hprepare, -⟩ := bind_ok.1 h
  obtain ⟨-, lastHeaders, -, -, -, hlast, -⟩ := prepareNewBlock_ok hprepare
  exact ⟨lastHeaders, hlast⟩

variable {newMap : BlockchainHeaders}
  (hnew : setNewChildHeaders newChildHeaders = .ok newMap)
  (hheight : lastPreviousBlock.height ≠ 1) {lastHeaders : BlockchainHeaders}
  (hlast : lastPreviousBlock.getBlockchainHeaders = .ok lastHeaders)

include hnew hheight hlast

variable (pkg minerAddress) in
/-- A template that carries headers can be built upon, and raises them once more. -/
theorem buildTemplate_step {template : BcBlock} {headers : BlockchainHeaders} {n : Nat}
    (hheaders : template.blockchainHeaders = some headers)
    (hcarries : Carries lastPreviousBlock newMap n headers) (restart : Restart) :
    ∃ template' headers', buildTemplate pkg minerAddress lastPreviousBlock newChildHeaders
        (some template) restart = .ok template' ∧
      template'.blockchainHeaders = some headers' ∧
      Carries lastPreviousBlock newMap (n + 1) headers' := by
  obtain ⟨headers', hheaders'⟩ := prepareHeaders_isOk (some template) hheight hnew
    fun chain => lastHeader_ne_none hheaders (hcarries.ne_nil chain)
  obtain ⟨newMap', hnew', hcarries'⟩ := prepareHeaders_carries hheight hheaders'
  cases hnew.symm.trans hnew'
  have hnext := hcarries.trans hheaders hcarries'
  obtain ⟨template', hprepare, htemplate'⟩ := prepareNewBlock_isOk pkg hheaders'
    hnext.ne_nil hlast restart.currentTimestamp restart.block restart.newTransactions
    minerAddress
  refine ⟨template', headers', ?_, htemplate', hnext⟩
  rw [buildTemplate, hprepare]
  rfl

/-- After any number of restarts the carried headers have been raised that often. -/
theorem prepareNewBlock_rebuilds (restarts : List Restart) :
    ∀ {template : BcBlock} {headers : BlockchainHeaders} {n : Nat},
      template.blockchainHeaders = some headers →
      Carries lastPreviousBlock newMap n headers →
      ∃ last headers', rebuild pkg minerAddress lastPreviousBlock newChildHeaders template
          restarts = .ok last ∧
        last.blockchainHeaders = some headers' ∧
        Carries lastPreviousBlock newMap (n + restarts.length) headers' := by
  induction restarts with
  | nil =>
      intro template headers n hheaders hcarries
      exact ⟨template, headers, rfl, hheaders, hcarries⟩
  | cons restart restarts ih =>
      intro template headers n hheaders hcarries
      obtain ⟨next, nextHeaders, hbuild, hnext, hcarriesNext⟩ :=
        buildTemplate_step pkg minerAddress hnew hheight hlast hheaders hcarries restart
      obtain ⟨last, headers', hrest, hlast', hcarries'⟩ := ih hnext hcarriesNext
      refine ⟨last, headers', foldlM_cons_ok.2 ⟨next, hbuild, hrest⟩, hlast', ?_⟩
      rwa [List.length_cons, Nat.add_comm restarts.length, ← Nat.add_assoc]

omit hnew hheight hlast in
/-- **When a rebuild changes nothing.**  The headers are those of the first template,
which is built from the previous block alone, exactly if there is no rebuild at all or
every chain has a new block. -/
theorem rebuilt_headers_iff (hheight : 1 < lastPreviousBlock.height) {restart : Restart}
    {first : BcBlock}
    (hfirst : buildTemplate pkg minerAddress lastPreviousBlock newChildHeaders none
      restart = .ok first) (restarts : List Restart) :
    (∃ last, rebuild pkg minerAddress lastPreviousBlock newChildHeaders first restarts =
        .ok last ∧ last.blockchainHeaders = first.blockchainHeaders) ↔
      restarts = [] ∨ ∀ chain, HasNew newChildHeaders chain := by
  have habove : lastPreviousBlock.height ≠ 1 := Nat.ne_of_gt hheight
  obtain ⟨lastHeaders, hlast⟩ := buildTemplate_previous hfirst
  obtain ⟨headers, newMap, hheaders, hnew, hcarries⟩ := buildTemplate_carries habove hfirst
  obtain ⟨last, headers', hrebuild, hheaders', hcarries'⟩ :=
    prepareNewBlock_rebuilds hnew habove hlast restarts hheaders hcarries
  have hsame : (∃ last, rebuild pkg minerAddress lastPreviousBlock newChildHeaders first
      restarts = .ok last ∧ last.blockchainHeaders = first.blockchainHeaders) ↔
      headers' = headers := by
    rw [hrebuild, hheaders]
    constructor
    · rintro ⟨last', hlast', heq⟩
      cases hlast'
      exact Option.some.inj (hheaders'.symm.trans heq)
    · rintro rfl
      exact ⟨last, rfl, hheaders'⟩
  rw [hsame]
  constructor
  · intro heq
    subst heq
    refine or_iff_not_imp_right.2 fun hall => ?_
    obtain ⟨chain, hnone⟩ := not_forall.1 hall
    exact List.length_eq_zero_iff.1 (hcarries.raised_eq_zero hcarries'
      (not_not.1 fun hne => hnone ((setNewChildHeaders_ne_nil_iff hnew chain).1 hne)))
  · rintro (rfl | hall)
    · cases hrebuild
      exact Option.some.inj (hheaders'.symm.trans hheaders)
    · refine BlockchainHeaders.ext_get fun chain => ?_
      have hne := (setNewChildHeaders_ne_nil_iff hnew chain).2 (hall chain)
      rw [(hcarries' chain).1 hne, (hcarries chain).1 hne]

end Rebuild

/-! ## A template built twice -/

def sampleRestart : Restart where
  currentTimestamp := 1000
  block := sampleChild .wav 1000000 11

theorem rebuilt_headers_iff_sample :
    ∃ last, rebuild samplePackages "0xaa" samplePrevious
        (sampleChildren 1000000 1000000 11)
        (sampleNewBlock 1000000 "299263803680982" "59207330")
        [sampleRestart, sampleRestart] = .ok last ∧
      last.blockchainHeaders = some (sampleHeaders 1000000 1000000 11) := by
  have hfirst : buildTemplate samplePackages "0xaa" samplePrevious
      (sampleChildren 1000000 1000000 11) none sampleRestart =
      .ok (sampleNewBlock 1000000 "299263803680982" "59207330") := by
    rw [buildTemplate, sampleRestart, sampleNewBlock_prepared]
    rfl
  have hnew : ∀ chain, HasNew (sampleChildren 1000000 1000000 11) chain := by decide
  exact (rebuilt_headers_iff (by decide) hfirst [sampleRestart, sampleRestart]).2
    (Or.inr hnew)

/-- The sample's previous block with a new block of `btc` only; the others are carried
with the given count. -/
def sampleCarried (confirmations : Nat) : BlockchainHeaders where
  btcList := [copyBlock (sampleChild .btc 1000000 11) 1]
  ethList := [copyBlock (sampleChild .eth 980000 10) confirmations]
  lskList := [copyBlock (sampleChild .lsk 980000 10) confirmations]
  neoList := [copyBlock (sampleChild .neo 980000 10) confirmations]
  wavList := [copyBlock (sampleChild .wav 980000 10) confirmations]

/-- One rebuild is enough for a header that is carried to be counted twice. -/
theorem carried_header_raised :
    ¬ ∀ (pkg : Packages) (minerAddress : String) (lastPreviousBlock : BcBlock)
      (headers : BlockchainHeaders) (newChildHeaders : List Block) (restart : Restart)
      (first : BcBlock) (restarts : List Restart),
      1 < lastPreviousBlock.height →
      lastPreviousBlock.blockchainHeaders = some headers → headers.Nonempty →
      buildTemplate pkg minerAddress lastPreviousBlock newChildHeaders none restart =
        .ok first →
      ∃ last, rebuild pkg minerAddress lastPreviousBlock newChildHeaders first restarts =
        .ok last ∧ last.blockchainHeaders = first.blockchainHeaders := by
  intro hall
  have hfirst : buildTemplate samplePackages "0xaa" samplePrevious
      [sampleChild .btc 1000000 11] none sampleRestart =
      .ok (newTemplate samplePackages samplePrevious (sampleCarried 2) [] "0xaa"
        "300000000000000" "70372825" "1250000000000" 1) := by
    decide +kernel
  have hnonempty : (sampleHeaders 980000 980000 10).Nonempty := by
    intro chain
    cases chain <;> exact List.cons_ne_nil _ _
  obtain ⟨last, hlast, heq⟩ := hall samplePackages "0xaa" samplePrevious
    (sampleHeaders 980000 980000 10) [sampleChild .btc 1000000 11] sampleRestart _
    [sampleRestart] (by decide) rfl hnonempty hfirst
  have hraised : (rebuild samplePackages "0xaa" samplePrevious
      [sampleChild .btc 1000000 11]
      (newTemplate samplePackages samplePrevious (sampleCarried 2) [] "0xaa"
        "300000000000000" "70372825" "1250000000000" 1) [sampleRestart]).map
        (·.blockchainHeaders) = .ok (some (sampleCarried 3)) := by
    decide +kernel
  rw [hlast] at hraised
  have hsame : some (sampleCarried 3) = some (sampleCarried 2) :=
    (Except.ok.inj hraised).symm.trans heq
  exact absurd hsame (by decide)

end BcNode.Mining
