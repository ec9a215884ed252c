import BcNode.Bc.ValidCache
import BcNode.P2p.Wire

/-!
# Two rules that are not what they look like

`isFieldLengthBounded` is written to reject a block with an oversized field and
rejects none.  `validateBlockSequence` checks hash links, difficulties and child
headers along a sequence, and only the hash links decide; but the difficulties are
still computed, and a number that `bn.js` does not take makes them throw.
-/

namespace BcNode.Bc

open BcNode.Verified BcNode.Js BcNode.Protos BcNode.Mining

/-! ## Oversized fields -/

/-- `length` of the fields of `block.toObject()` that have one: the texts and the
lists. -/
def fieldLengths (block : BcBlock) : Obj Nat :=
  let text (field : String) : Nat := P2p.jsLength field.toList
  [("hash", text block.hash), ("previousHash", text block.previousHash),
    ("miner", text block.miner), ("difficulty", text block.difficulty),
    ("merkleRoot", text block.merkleRoot), ("chainRoot", text block.chainRoot),
    ("distance", text block.distance), ("totalDistance", text block.totalDistance),
    ("nonce", text block.nonce), ("targetHash", text block.targetHash),
    ("targetMiner", text block.targetMiner),
    ("targetSignature", text block.targetSignature),
    ("twsList", block.twsList.length),
    ("emblemChainBlockHash", text block.emblemChainBlockHash),
    ("emblemChainFingerprintRoot", text block.emblemChainFingerprintRoot),
    ("emblemChainAddress", text block.emblemChainAddress),
    ("txsList", block.txsList.length),
    ("blockchainFingerprintsRoot", text block.blockchainFingerprintsRoot)]

/-- Some text or list field is longer than 128. -/
def Oversized (block : BcBlock) : Prop := ∃ field ∈ fieldLengths block, 128 < field.2

/-- A checked block with an oversized field is rejected. -/
def RejectsOversized (pkg : Packages) (block : BcBlock) : Prop :=
  UNCHECKED_HEIGHT ≤ block.height → Oversized block →
    isFieldLengthBounded block = false ∧ isValidBlock pkg block = .ok false

theorem isFieldLengthBounded_eq (block : BcBlock) : isFieldLengthBounded block = true :=
  rfl

/-- **The bound is never enforced.**  Oversized fields are rejected exactly where the
check has nothing to reject. -/
theorem rejectsOversized_iff (pkg : Packages) (block : BcBlock) :
    RejectsOversized pkg block ↔
      block.height < UNCHECKED_HEIGHT ∨ ¬ Oversized block := by
  constructor
  · intro h
    by_contra hneither
    rw [not_or, not_not] at hneither
    have hbounded := (h (Nat.le_of_not_lt hneither.1) hneither.2).1
    rw [isFieldLengthBounded_eq] at hbounded
    cases hbounded
  · rintro (hheight | hbounded) hchecked hoversized
    · exact absurd hchecked (Nat.not_le_of_lt hheight)
    · exact absurd hoversized hbounded

/-- No check of `isValidBlock` reads who mined the target. -/
theorem isValidBlock_targetMiner (pkg : Packages) (block : BcBlock) (miner : String) :
    isValidBlock pkg { block with targetMiner := miner } = isValidBlock pkg block := rfl

/-- A valid block, made oversized. -/
def sampleOversized : BcBlock :=
  { sampleCheckedBlock with targetMiner := String.ofList (List.replicate 129 'a') }

/-- A block with a target miner of 129 characters is valid. -/
theorem sampleOversized_valid :
    ¬ RejectsOversized samplePackages sampleOversized ∧ Oversized sampleOversized ∧
      isFieldLengthBounded sampleOversized = true ∧
      isValidBlock samplePackages sampleOversized = .ok true := by
  have hheight : UNCHECKED_HEIGHT ≤ sampleOversized.height := by decide
  have hlong : Oversized sampleOversized := by
    refine ⟨("targetMiner", 129), ?_, by decide⟩
    decide +kernel
  have hvalid : isValidBlock samplePackages sampleOversized = .ok true := by
    rw [sampleOversized, isValidBlock_targetMiner]
    decide +kernel
  exact ⟨fun h => absurd (h hheight hlong).1 (by decide), hlong, rfl, hvalid⟩

/-! ## A sequence of blocks -/

/-- The blocks, highest first, each over the block whose hash it names. -/
def Linked (blocks : List BcBlock) : Prop :=
  ∃ sorted, List.Perm sorted blocks ∧
    sorted.Pairwise (fun above below => below.height < above.height) ∧
    sorted.IsChain fun above below => above.previousHash = below.hash

/-- No header list is missing or empty. -/
def FullHeaders (blocks : List BcBlock) : Prop :=
  ∀ block ∈ blocks, ∃ headers, block.blockchainHeaders = some headers ∧ headers.Nonempty

/-- No number that the difficulties along the sequence read is too large. -/
def SafeSequence (blocks : List BcBlock) : Prop :=
  ∀ lower ∈ blocks, ∀ upper ∈ blocks, lower.height < upper.height → SafePair lower upper

/-- The numbers of a block count in all pairs it is the lower, or the upper, block of. -/
theorem SafePair.trans {lower middle upper : BcBlock} (h : SafePair lower middle)
    (h' : SafePair middle upper) : SafePair lower upper :=
  ⟨h'.timestamp, h.previousTimestamp, h.previousHeight, h'.headers⟩

theorem forall_aperture2_safePair {blocks : List BcBlock}
    (hheights : (blocks.map (·.height)).Nodup) :
    (∀ pair ∈ aperture2 (sortAscending (·.height) blocks), SafePair pair.1 pair.2) ↔
      SafeSequence blocks := by
  have htrans : Trans SafePair SafePair SafePair := ⟨SafePair.trans⟩
  rw [forall_mem_aperture2, List.isChain_iff_pairwise, pairwise_sortAscending_iff hheights,
    SafeSequence]

/-- A difficulty is computed exactly where its numbers are safe. -/
theorem validateSequenceDifficulty_isOk_iff (pkg : Packages)
    {previousBlock newBlock : BcBlock} {blocks : List BcBlock} (h : FullHeaders blocks)
    (hprevious : previousBlock ∈ blocks) (hnew : newBlock ∈ blocks) :
    (∃ valid, validateSequenceDifficulty pkg previousBlock newBlock = .ok valid) ↔
      SafePair previousBlock newBlock := by
  constructor
  · rintro ⟨valid, hvalid⟩
    exact SafePair.of_ok hvalid
  · intro hsafe
    obtain ⟨previousHeaders, hpreviousHeaders, -⟩ := h previousBlock hprevious
    obtain ⟨headers, hheaders, hnonempty⟩ := h newBlock hnew
    obtain ⟨_, -, -, hverdict⟩ := hsafe.validateSequenceDifficulty_eq pkg
      (BcBlock.getBlockchainHeaders_some hpreviousHeaders) hheaders hnonempty
    exact ⟨_, hverdict⟩

/-- All difficulties along the sequence are computed where all numbers are safe. -/
theorem mapM_validateSequenceDifficulty (pkg : Packages) {blocks : List BcBlock}
    (hheights : (blocks.map (·.height)).Nodup) (h : FullHeaders blocks) :
    (∃ verdicts, ((aperture2 (sortAscending (·.height) blocks)).mapM fun pair =>
      validateSequenceDifficulty pkg pair.1 pair.2) = .ok verdicts) ↔
      SafeSequence blocks := by
  have hblocks {block : BcBlock} (hblock : block ∈ sortAscending (·.height) blocks) :
      block ∈ blocks := (sortAscending_perm _ blocks).mem_iff.1 hblock
  rw [mapM_isOk_iff, ← forall_aperture2_safePair hheights]
  refine forall₂_congr fun pair hpair => ?_
  exact validateSequenceDifficulty_isOk_iff pkg h (hblocks (mem_of_aperture2 hpair).1)
    (hblocks (mem_of_aperture2 hpair).2)

/-- No child sequence along it throws. -/
theorem mapM_roveredPair {blocks : List BcBlock} (h : FullHeaders blocks) :
    ∃ verdicts, ((aperture2 (sortDescending (·.height) blocks)).mapM fun pair =>
      roveredPair pair.1 pair.2) = .ok verdicts := by
  have hblocks {block : BcBlock} (hblock : block ∈ sortDescending (·.height) blocks) :
      block ∈ blocks := (sortDescending_perm _ blocks).mem_iff.1 hblock
  refine mapM_isOk_iff.2 fun pair hpair => ?_
  obtain ⟨_, hchild, -⟩ := h pair.1 (hblocks (mem_of_aperture2 hpair).1)
  obtain ⟨_, hparent, -⟩ := h pair.2 (hblocks (mem_of_aperture2 hpair).2)
  exact roveredPair_ok (BcBlock.getBlockchainHeaders_some hchild)
    (BcBlock.getBlockchainHeaders_some hparent)

/-- Where no two heights are equal the sorted sequence is the one of `Linked`. -/
theorem linked_iff {blocks : List BcBlock} (hheights : (blocks.map (·.height)).Nodup) :
    Linked blocks ↔ (sortDescending (·.height) blocks).IsChain
      fun above below => above.previousHash = below.hash := by
  constructor
  · rintro ⟨sorted, hperm, hsorted, hlinks⟩
    rwa [← eq_sortDescending hperm hheights (hsorted.imp Nat.le_of_lt)]
  · intro hlinks
    have hperm := sortDescending_perm (·.height) blocks
    have hdistinct := List.pairwise_map.1 ((hperm.map (·.height)).nodup_iff.2 hheights)
    have hsorted := (pairwise_sortDescending (·.height) blocks).and hdistinct
    exact ⟨_, hperm, hsorted.imp fun h => Nat.lt_of_le_of_ne h.1 h.2.symm, hlinks⟩

/-- A sequence that does not link up is refused before anything can throw. -/
theorem validateBlockSequence_of_not_linked (pkg : Packages) {blocks : List BcBlock}
    (hheights : (blocks.map (·.height)).Nodup) (h : ¬ Linked blocks) :
    validateBlockSequence pkg blocks = .ok false := by
  rw [linked_iff hheights] at h
  have hlinks : ((aperture2 (sortDescending (·.height) blocks)).map fun pair =>
      pair.1.previousHash == pair.2.hash).all id = false := by
    rw [List.all_map, Bool.eq_false_iff]
    refine fun hall => h ?_
    have hchain := (aperture2_all_iff
      (fun above below : BcBlock => above.previousHash == below.hash) _).1 hall
    simpa only [beq_iff_eq] using hchain
  unfold validateBlockSequence
  simp only [hlinks, Bool.not_false, if_true]
  rfl

/-- A sequence that links up is accepted, unless a difficulty throws. -/
theorem validateBlockSequence_of_linked (pkg : Packages) {blocks : List BcBlock}
    (hheights : (blocks.map (·.height)).Nodup) (hheaders : FullHeaders blocks)
    (h : Linked blocks) :
    (validateBlockSequence pkg blocks = .ok true ↔ SafeSequence blocks) ∧
      ((∃ valid, validateBlockSequence pkg blocks = .ok valid) ↔ SafeSequence blocks) := by
  have hlinks : ((aperture2 (sortDescending (·.height) blocks)).map fun pair =>
      pair.1.previousHash == pair.2.hash).all id = true := by
    rw [List.all_map]
    refine (aperture2_all_iff
      (fun above below : BcBlock => above.previousHash == below.hash) _).2 ?_
    simpa only [beq_iff_eq] using (linked_iff hheights).1 h
  obtain ⟨_, hrovered⟩ := mapM_roveredPair hheaders
  rw [← mapM_validateSequenceDifficulty pkg hheights hheaders]
  unfold validateBlockSequence
  simp only [hlinks, Bool.not_true, Bool.false_eq_true, if_false, hrovered]
  cases (aperture2 (sortAscending (·.height) blocks)).mapM fun pair =>
      validateSequenceDifficulty pkg pair.1 pair.2 with
  | error e =>
      have hthrows : ¬ ∃ verdicts, Except.error e = (.ok verdicts : Except _ (List Bool)) := by
        rintro ⟨_, hok⟩
        cases hok
      refine ⟨iff_of_false ?_ hthrows, iff_of_false ?_ hthrows⟩
      · exact fun hok => nomatch hok
      · rintro ⟨_, hok⟩
        cases hok
  | ok verdicts => exact ⟨iff_of_true rfl ⟨_, rfl⟩, iff_of_true ⟨_, rfl⟩ ⟨_, rfl⟩⟩

/-- Where no two heights are equal the order of the blocks does not matter. -/
theorem validateBlockSequence_perm (pkg : Packages) {blocks blocks' : List BcBlock}
    (hheights : (blocks.map (·.height)).Nodup) (hperm : blocks'.Perm blocks) :
    validateBlockSequence pkg blocks' = validateBlockSequence pkg blocks := by
  have hdown : sortDescending (·.height) blocks' = sortDescending (·.height) blocks :=
    eq_sortDescending ((sortDescending_perm _ blocks').trans hperm) hheights
      (pairwise_sortDescending _ blocks')
  have hup : sortAscending (·.height) blocks' = sortAscending (·.height) blocks :=
    eq_sortAscending ((sortAscending_perm _ blocks').trans hperm) hheights
      (pairwise_sortAscending _ blocks')
  unfold validateBlockSequence
  rw [hdown, hup]

/-- A verdict is returned, it is whether the blocks link up, and their order does not
matter. -/
structure DecidedByLinks (pkg : Packages) (blocks : List BcBlock) : Prop where
  returns : ∃ valid, validateBlockSequence pkg blocks = .ok valid
  linked : validateBlockSequence pkg blocks = .ok true ↔ Linked blocks
  order : ∀ blocks', blocks'.Perm blocks →
    validateBlockSequence pkg blocks' = validateBlockSequence pkg blocks

/-- **Sequence validation.**  For blocks with different heights and full header lists the
hash links decide exactly if, where they hold, no difficulty is computed from a number
that `bn.js` does not take. -/
theorem validateBlockSequence_iff (pkg : Packages) {blocks : List BcBlock}
    (hheights : (blocks.map (·.height)).Nodup) (hheaders : FullHeaders blocks) :
    DecidedByLinks pkg blocks ↔ (Linked blocks → SafeSequence blocks) := by
  have horder (blocks' : List BcBlock) (hperm : blocks'.Perm blocks) :=
    validateBlockSequence_perm pkg hheights hperm
  by_cases hlinked : Linked blocks
  · obtain ⟨haccepts, hreturns⟩ :=
      validateBlockSequence_of_linked pkg hheights hheaders hlinked
    rw [forall_prop_of_true hlinked]
    constructor
    · exact fun h => hreturns.1 h.returns
    · intro hsafe
      exact ⟨hreturns.2 hsafe, iff_of_true (haccepts.2 hsafe) hlinked, horder⟩
  · have hrefused := validateBlockSequence_of_not_linked pkg hheights hlinked
    refine iff_of_true ⟨⟨_, hrefused⟩, ?_, horder⟩ fun h => absurd h hlinked
    rw [hrefused]
    exact iff_of_false (by decide) hlinked

/-- Two blocks over the genesis block, as a peer may list them, with a `btc` header of the
given time in each. -/
def sampleSequence (timestamp : Nat) : List BcBlock :=
  let block : BcBlock :=
    { samplePrevious with
      blockchainHeaders := some (sampleHeaders timestamp 980000 10) }
  [{ block with hash := "b2", previousHash := "b1", height := 3 },
    { block with hash := "b1", previousHash := "b0", height := 2 }]

theorem sampleSequence_full (timestamp : Nat) :
    FullHeaders (sampleSequence timestamp) := by
  have hfull : (sampleHeaders timestamp 980000 10).Nonempty := by
    intro chain
    cases chain <;> exact List.cons_ne_nil _ _
  intro block hblock
  refine ⟨sampleHeaders timestamp 980000 10, ?_, hfull⟩
  rcases List.mem_pair.1 hblock with rfl | rfl <;> rfl

theorem sampleSequence_linked (timestamp : Nat) : Linked (sampleSequence timestamp) := by
  refine ⟨sampleSequence timestamp, .refl _, ?_, ?_⟩
  · exact List.pairwise_pair.2 (show 2 < 3 by decide)
  · exact .cons_cons rfl (.singleton _)

theorem validateBlockSequence_iff_sample :
    DecidedByLinks samplePackages (sampleSequence 980000) := by
  refine (validateBlockSequence_iff samplePackages (by decide)
    (sampleSequence_full 980000)).2 fun _ => ?_
  intro lower hlower upper hupper _
  rcases List.mem_pair.1 hlower with rfl | rfl <;>
    rcases List.mem_pair.1 hupper with rfl | rfl <;>
      exact ⟨by decide, by decide, by decide, by decide +kernel⟩

/-- Two blocks that link up, with a header too new for `bn.js`. -/
theorem linked_sequence_throws :
    ¬ DecidedByLinks samplePackages (sampleSequence (2 ^ 53)) ∧
      Linked (sampleSequence (2 ^ 53)) ∧
      validateBlockSequence samplePackages (sampleSequence (2 ^ 53)) =
        .error assertionFailed := by
  have hthrows : validateBlockSequence samplePackages (sampleSequence (2 ^ 53)) =
      .error assertionFailed := by decide +kernel
  refine ⟨fun h => ?_, sampleSequence_linked _, hthrows⟩
  obtain ⟨valid, hvalid⟩ := h.returns
  cases hthrows.symm.trans hvalid

end BcNode.Bc
