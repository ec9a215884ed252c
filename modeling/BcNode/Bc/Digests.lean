import BcNode.Verified.HashChain
import BcNode.Bc.Validation
import Mathlib.Data.List.Forall2

/-!
# What the digests bind

Chain root, merkle root and work all rest on the digests of the child headers.
This file says what equal values of them give away, and what they do not depend
on.

* `rearranged_digests`: the xor behind the work and the chain root does not see
  in which order, or in which of the five lists, the headers stand.
* `getChildrenBlocksHashes_binds`: a digest binds the concatenation of a header's
  hash and merkle root, and thereby the two parts once one length is known.
* `merkleRoot_binds`: the merkle root binds the list of digests and the fields
  that follow it.  It is a hash chain without a count; `HashChain.root_inj` does
  the work, and `merkleFraming` is what 64-character digests provide for it.
-/

namespace BcNode.Bc

open BcNode.Verified BcNode.Js BcNode.Protos BcNode.Mining

/-! ## Order of the headers -/

theorem blockchainMapToList_eq (headersMap : BlockchainHeaders) :
    blockchainMapToList headersMap = headersMap.lists.flatten := by
  simp [blockchainMapToList, BlockchainHeaders.lists_eq]

/-- The same headers, each as often, in whatever lists and order. -/
def Rearranged (a b : BlockchainHeaders) : Prop :=
  (blockchainMapToList a).Perm (blockchainMapToList b)

theorem count_blockchainMapToList (header : BlockchainHeader)
    (headers : BlockchainHeaders) :
    (blockchainMapToList headers).count header =
      headers.btcList.count header + headers.ethList.count header +
        headers.lskList.count header + headers.neoList.count header +
        headers.wavList.count header := by
  rw [blockchainMapToList_eq, BlockchainHeaders.lists_eq]
  simp only [List.flatten_cons, List.flatten_nil, List.append_nil, List.count_append]
  omega

/-- Permuting the headers within their lists. -/
theorem rearranged_of_perm {a b : BlockchainHeaders}
    (h : ∀ chain, (a.get chain).Perm (b.get chain)) : Rearranged a b := by
  refine List.perm_iff_count.2 fun header => ?_
  have hbtc : a.btcList.count header = b.btcList.count header := (h .btc).count_eq _
  have heth : a.ethList.count header = b.ethList.count header := (h .eth).count_eq _
  have hlsk : a.lskList.count header = b.lskList.count header := (h .lsk).count_eq _
  have hneo : a.neoList.count header = b.neoList.count header := (h .neo).count_eq _
  have hwav : a.wavList.count header = b.wavList.count header := (h .wav).count_eq _
  rw [count_blockchainMapToList, count_blockchainMapToList, hbtc, heth, hlsk, hneo, hwav]

/-- Moving the first header of one list to the front of another. -/
theorem rearranged_move (headers : BlockchainHeaders) {c d : Chain} (hne : c ≠ d)
    {moved : BlockchainHeader} {rest : List BlockchainHeader}
    (h : headers.get c = moved :: rest) :
    Rearranged headers ((headers.set c rest).set d (moved :: headers.get d)) := by
  refine List.perm_iff_count.2 fun header => ?_
  rw [count_blockchainMapToList, count_blockchainMapToList]
  have hcount : (headers.get c).count header =
      rest.count header + if moved == header then 1 else 0 := by
    rw [h, List.count_cons]
  cases c <;> cases d <;> first
    | exact absurd rfl hne
    | simp only [BlockchainHeaders.get, BlockchainHeaders.set, List.count_cons] at hcount ⊢
      omega

theorem getChildrenRootHash_perm {hashes hashes' : List String}
    (h : hashes.Perm hashes') :
    getChildrenRootHash hashes = getChildrenRootHash hashes' := by
  refine h.foldl_eq' ?_ 0
  intro x _ y _ all
  rw [Nat.xor_assoc, Nat.xor_assoc, Nat.xor_comm (bnOfHex x)]

theorem Rearranged.getChildrenRootHash_eq (pkg : Packages) {a b : BlockchainHeaders}
    (h : Rearranged a b) :
    getChildrenRootHash (getChildrenBlocksHashes pkg (blockchainMapToList a)) =
      getChildrenRootHash (getChildrenBlocksHashes pkg (blockchainMapToList b)) :=
  getChildrenRootHash_perm (h.map _)

/-- **Order does not matter.**  Rearranging the headers changes neither the work
over a previous block, nor the chain root of a template, nor what the validator
says about a chain root. -/
theorem rearranged_digests (pkg : Packages) (previousBlockHash : String)
    {a b : BlockchainHeaders} (h : Rearranged a b) :
    prepareWork pkg previousBlockHash a = prepareWork pkg previousBlockHash b ∧
    pkg.blake2bl (toString (getChildrenRootHash
        (getChildrenBlocksHashes pkg (blockchainMapToList a)))) =
      pkg.blake2bl (toString (getChildrenRootHash
        (getChildrenBlocksHashes pkg (blockchainMapToList b)))) ∧
    ∀ block : BcBlock,
      isChainRootCorrectlyCalculated pkg { block with blockchainHeaders := some a } =
        isChainRootCorrectlyCalculated pkg { block with blockchainHeaders := some b } := by
  have hroot := h.getChildrenRootHash_eq pkg
  refine ⟨?_, ?_, fun block => ?_⟩
  · rw [prepareWork, prepareWork, hroot]
  · rw [hroot]
  · simp only [isChainRootCorrectlyCalculated, BcBlock.getBlockchainHeaders, bind,
      Except.bind, hroot]

/-- Packages with a given hash, for the samples below. -/
def hashPackages (blake2bl : String → String) : Packages where
  blake2bl := blake2bl
  distance _ _ := 0
  divRound := Int.tdiv
  bnText _ := 0
  textLtOne _ := false

/-- A header of the Lisk chain with a given hash and merkle root. -/
def sampleHeader (hash merkleRoot : String) : BlockchainHeader where
  blockchain := "lsk"
  hash := hash
  previousHash := ""
  timestamp := 0
  height := 1
  merkleRoot := merkleRoot
  blockchainConfirmationsInParentCount := 1

/-- Three headers in two lists. -/
def sampleSplitHeaders : BlockchainHeaders where
  btcList := [sampleHeader "01" "2c"]
  lskList := [sampleHeader "7f" "ee", sampleHeader "33" "04"]

/-- The same headers in one list. -/
def sampleJoinedHeaders : BlockchainHeaders where
  lskList := [sampleHeader "33" "04", sampleHeader "01" "2c", sampleHeader "7f" "ee"]

theorem rearranged_digests_sample :
    prepareWork (hashPackages id) "0a" sampleSplitHeaders =
      prepareWork (hashPackages id) "0a" sampleJoinedHeaders ∧
    (hashPackages id).blake2bl (toString (getChildrenRootHash
        (getChildrenBlocksHashes (hashPackages id)
          (blockchainMapToList sampleSplitHeaders)))) =
      (hashPackages id).blake2bl (toString (getChildrenRootHash
        (getChildrenBlocksHashes (hashPackages id)
          (blockchainMapToList sampleJoinedHeaders)))) ∧
    ∀ block : BcBlock,
      isChainRootCorrectlyCalculated (hashPackages id)
          { block with blockchainHeaders := some sampleSplitHeaders } =
        isChainRootCorrectlyCalculated (hashPackages id)
          { block with blockchainHeaders := some sampleJoinedHeaders } :=
  rearranged_digests (hashPackages id) "0a" (by unfold Rearranged; decide)

/-! ## One header -/

/-- The text a header's digest is taken of. -/
def digestText (header : BlockchainHeader) : String := header.hash ++ header.merkleRoot

/-- Equal concatenations with equal first parts. -/
theorem string_append_inj {a b c d : String} (hlen : a.length = c.length)
    (h : a ++ b = c ++ d) : a = c ∧ b = d := by
  have htext := congrArg String.toList h
  rw [String.toList_append, String.toList_append] at htext
  obtain ⟨hfirst, hsecond⟩ := List.append_inj htext
    (by rw [String.length_toList, String.length_toList, hlen])
  exact ⟨String.toList_inj.1 hfirst, String.toList_inj.1 hsecond⟩

/-- With an injective hash, digests are equal exactly where the concatenated
texts are. -/
theorem getChildrenBlocksHashes_eq_iff {pkg : Packages}
    (hinj : Function.Injective pkg.blake2bl) (a b : List BlockchainHeader) :
    getChildrenBlocksHashes pkg a = getChildrenBlocksHashes pkg b ↔
      a.map digestText = b.map digestText := by
  have hcomp : blockHash pkg = pkg.blake2bl ∘ digestText := rfl
  rw [getChildrenBlocksHashes, getChildrenBlocksHashes, hcomp, ← List.map_map,
    ← List.map_map]
  exact (List.map_injective_iff.2 hinj).eq_iff

/-- **What equal digests give.**  As many headers on both sides, and at each
place the same hash and merkle root run together.  Where the two hashes are of
one length, they and the merkle roots are equal. -/
theorem getChildrenBlocksHashes_binds {pkg : Packages}
    (hinj : Function.Injective pkg.blake2bl) (a b : List BlockchainHeader)
    (h : getChildrenBlocksHashes pkg a = getChildrenBlocksHashes pkg b) :
    a.length = b.length ∧
      List.Forall₂ (fun x y => x.hash ++ x.merkleRoot = y.hash ++ y.merkleRoot ∧
        (x.hash.length = y.hash.length → x.hash = y.hash ∧ x.merkleRoot = y.merkleRoot))
        a b := by
  rw [getChildrenBlocksHashes_eq_iff hinj] at h
  have hpairs : List.Forall₂ (fun x y => digestText x = digestText y) a b := by
    have htexts : List.Forall₂ Eq (a.map digestText) (b.map digestText) := by
      rw [h, List.forall₂_eq_eq_eq]
    exact List.forall₂_map_right_iff.1 (List.forall₂_map_left_iff.1 htexts)
  refine ⟨hpairs.length_eq, hpairs.imp fun x y htext => ⟨htext, fun hlen => ?_⟩⟩
  exact string_append_inj hlen htext

theorem getChildrenBlocksHashes_binds_sample :
    [sampleHeader "1523" "4a", sampleHeader "7" "c"].length =
        [sampleHeader "152" "34a", sampleHeader "7" "c"].length ∧
      List.Forall₂ (fun x y => x.hash ++ x.merkleRoot = y.hash ++ y.merkleRoot ∧
        (x.hash.length = y.hash.length → x.hash = y.hash ∧ x.merkleRoot = y.merkleRoot))
        [sampleHeader "1523" "4a", sampleHeader "7" "c"]
        [sampleHeader "152" "34a", sampleHeader "7" "c"] :=
  @getChildrenBlocksHashes_binds (hashPackages id) Function.injective_id _ _
    (by decide)

/-- The place where the hash ends is not part of the text: two headers with
different hashes and merkle roots have the same digest, whatever the hash. -/
theorem getChildrenBlocksHashes_ambiguous :
    ¬ ∀ pkg : Packages, Function.Injective pkg.blake2bl →
      ∀ a b : List BlockchainHeader,
        getChildrenBlocksHashes pkg a = getChildrenBlocksHashes pkg b →
        a.length = b.length ∧
          List.Forall₂ (fun x y => x.hash = y.hash ∧ x.merkleRoot = y.merkleRoot) a b := by
  intro h
  have hbinds := (h (hashPackages id) Function.injective_id
    [sampleHeader "1523" "4a"] [sampleHeader "152" "34a"] (by decide)).2
  have hhash := (List.forall₂_cons.1 hbinds).1.1
  exact absurd hhash (by decide)

/-! ## The merkle root -/

/-- A digest so far and the next item, as they are hashed. -/
def appendText (digest text : String) : String := digest ++ text

/-- What follows the header digests in the list behind a merkle root, for a block
without transactions. -/
def trailingTexts (block : BcBlock) : List String :=
  [block.difficulty, block.miner, toString block.height, toString block.version,
    toString block.schemaVersion, toString block.nrgGrant,
    Genesis.blockchainFingerprintsRoot]

/-- Every string hashed for the merkle root of a block without transactions. -/
def merkleInputs (pkg : Packages) (headers : BlockchainHeaders) (block : BcBlock) :
    List String :=
  match getChildrenBlocksHashes pkg (blockchainMapToList headers) with
  | [] => []
  | digest :: digests =>
      HashChain.rootInputs pkg.blake2bl id appendText digest
        (digests ++ trailingTexts block)

theorem createMerkleRoot_some (pkg : Packages) (items : List MerkleItem) (prev : String) :
    createMerkleRoot pkg items (some prev) =
      .ok (some (HashChain.chain pkg.blake2bl appendText prev
        (items.map MerkleItem.text))) := by
  induction items generalizing prev with
  | nil => rfl
  | cons item items ih =>
      rw [createMerkleRoot, ih]
      rfl

/-- A list that opens with a string is folded into a hash chain. -/
theorem createMerkleRoot_str (pkg : Packages) (text : String) (items : List MerkleItem) :
    createMerkleRoot pkg (.str text :: items) none =
      .ok (some (HashChain.root pkg.blake2bl id appendText text
        (items.map MerkleItem.text))) :=
  createMerkleRoot_some pkg items (pkg.blake2bl text)

/-- Digests of 64 characters, put in front of the next item, can be told from it,
and the result from a digest by itself. -/
theorem merkleFraming {pkg : Packages}
    (hlen : ∀ text, (pkg.blake2bl text).length = 64) :
    HashChain.Framing pkg.blake2bl id appendText fun text => text.length = 64 where
  first_inj h := h
  next_inj h := string_append_inj (by rw [hlen, hlen]) h
  first_ne_next := by
    intro text text' input htext htext' h
    have hlength := congrArg String.length h
    rw [id, appendText, String.length_append, htext, htext', hlen] at hlength
    omega

/-- The check of the merkle root of a block without transactions. -/
theorem isMerkleRootCorrectlyCalculated_eq {pkg : Packages} {block : BcBlock}
    {headers : BlockchainHeaders} {digest : String} {digests : List String}
    (hheaders : block.getBlockchainHeaders = .ok headers) (htxs : block.txsList = [])
    (hdigests : getChildrenBlocksHashes pkg (blockchainMapToList headers) =
      digest :: digests) :
    isMerkleRootCorrectlyCalculated pkg block =
      .ok (block.merkleRoot == HashChain.root pkg.blake2bl id appendText digest
        (digests ++ trailingTexts block)) := by
  have htexts : (merkleItems digests [] block.difficulty block.miner block.height
      block.version block.schemaVersion block.nrgGrant).map MerkleItem.text =
        digests ++ trailingTexts block := by
    rw [merkleItems, List.map_nil, List.append_nil, List.map_append, List.map_map]
    exact congrArg (· ++ trailingTexts block) (List.map_id _)
  have hroot := createMerkleRoot_str pkg digest (merkleItems digests [] block.difficulty
    block.miner block.height block.version block.schemaVersion block.nrgGrant)
  rw [htexts] at hroot
  have hcons : merkleItems (digest :: digests) [] block.difficulty block.miner
      block.height block.version block.schemaVersion block.nrgGrant =
        .str digest :: merkleItems digests [] block.difficulty block.miner block.height
          block.version block.schemaVersion block.nrgGrant := rfl
  rw [isMerkleRootCorrectlyCalculated, hheaders]
  simp only [bind, Except.bind, hdigests, htxs, hcons, hroot]
  rfl

/-- **The merkle root binds the block.**  Two blocks without transactions, each
with a child header, both pass the check and have one merkle root.  If digests are
64 characters long and no string hashed for one root collides with a different one
hashed for the other, then the header digests are the same, in number too, and so
are the fields that enter the root.

No hash with digests of bounded length is injective on all strings, so the
assumption is made of the strings that are hashed. -/
theorem merkleRoot_binds {pkg : Packages} {a b : BcBlock} {ha hb : BlockchainHeaders}
    (hlen : ∀ text, (pkg.blake2bl text).length = 64)
    (hfree : HashChain.CollisionFree pkg.blake2bl (merkleInputs pkg ha a)
      (merkleInputs pkg hb b))
    (hha : a.getBlockchainHeaders = .ok ha) (hhb : b.getBlockchainHeaders = .ok hb)
    (hnea : blockchainMapToList ha ≠ []) (hneb : blockchainMapToList hb ≠ [])
    (htxa : a.txsList = []) (htxb : b.txsList = [])
    (hva : isMerkleRootCorrectlyCalculated pkg a = .ok true)
    (hvb : isMerkleRootCorrectlyCalculated pkg b = .ok true)
    (hroot : a.merkleRoot = b.merkleRoot) :
    getChildrenBlocksHashes pkg (blockchainMapToList ha) =
        getChildrenBlocksHashes pkg (blockchainMapToList hb) ∧
      a.difficulty = b.difficulty ∧ a.miner = b.miner ∧ a.height = b.height ∧
      a.version = b.version ∧ a.schemaVersion = b.schemaVersion ∧
      a.nrgGrant = b.nrgGrant := by
  have hdigest : ∀ headers, ∀ digest ∈ getChildrenBlocksHashes pkg headers,
      digest.length = 64 := by
    intro headers digest hmem
    obtain ⟨header, _, rfl⟩ := List.mem_map.1 hmem
    exact hlen _
  have hleada := hdigest (blockchainMapToList ha)
  have hleadb := hdigest (blockchainMapToList hb)
  obtain ⟨digesta, digestsa, hda⟩ := List.exists_cons_of_ne_nil
    (mt List.map_eq_nil_iff.1 hnea : getChildrenBlocksHashes pkg _ ≠ [])
  obtain ⟨digestb, digestsb, hdb⟩ := List.exists_cons_of_ne_nil
    (mt List.map_eq_nil_iff.1 hneb : getChildrenBlocksHashes pkg _ ≠ [])
  rw [isMerkleRootCorrectlyCalculated_eq hha htxa hda, Except.ok.injEq, beq_iff_eq] at hva
  rw [isMerkleRootCorrectlyCalculated_eq hhb htxb hdb, Except.ok.injEq, beq_iff_eq] at hvb
  rw [hva, hvb] at hroot
  rw [hda] at hleada
  rw [hdb] at hleadb
  rw [merkleInputs, merkleInputs, hda, hdb] at hfree
  have hcount : (trailingTexts a).length = (trailingTexts b).length := rfl
  obtain ⟨hdigests, htrailing⟩ :=
    HashChain.root_inj (merkleFraming hlen) hleada hleadb hcount hfree hroot
  simp only [trailingTexts, List.cons.injEq, Decimal.toString_nat_inj, and_true]
    at htrailing
  exact ⟨by rw [hda, hdb, hdigests], htrailing⟩

/-- A hash of 64 characters that tells the length of a short text. -/
def padded (text : String) : String :=
  String.ofList (List.replicate (text.length % 65) 'b' ++
    List.replicate (64 - text.length % 65) 'a')

theorem padded_length (text : String) : (padded text).length = 64 := by
  simp only [padded, String.length_ofList, List.length_append, List.length_replicate]
  omega

theorem padded_inj_length {s t : String} (h : padded s = padded t) :
    s.length % 65 = t.length % 65 := by
  have hcount := congrArg (fun text : String => text.toList.count 'b') h
  simpa [padded, List.count_append, List.count_replicate] using hcount

/-- A header map with one header. -/
def sampleOneHeader : BlockchainHeaders where
  lskList := [sampleHeader "1523" "4a"]

/-- The texts after the digest of that header in the merkle root below. -/
def sampleTexts : List String :=
  ["290", "0x02", toString 151500, toString 1, toString 10, toString 16000,
    Genesis.blockchainFingerprintsRoot]

/-- A block over one header, with the merkle root of its content; the timestamp
does not enter the root. -/
def sampleBlock (timestamp : Nat) : BcBlock where
  timestamp := timestamp
  difficulty := "290"
  miner := "0x02"
  height := 151500
  version := 1
  schemaVersion := 10
  nrgGrant := 16000
  blockchainHeaders := some sampleOneHeader
  merkleRoot := HashChain.root padded id appendText (padded "15234a") sampleTexts

theorem isMerkleRootCorrectlyCalculated_sampleBlock (timestamp : Nat) :
    isMerkleRootCorrectlyCalculated (hashPackages padded) (sampleBlock timestamp) =
      .ok true := by
  have hcheck := @isMerkleRootCorrectlyCalculated_eq (hashPackages padded)
    (sampleBlock timestamp) sampleOneHeader (padded "15234a") [] rfl rfl rfl
  rw [hcheck, Except.ok.injEq, beq_iff_eq]
  rfl

theorem collisionFree_sampleTexts :
    HashChain.CollisionFree padded
      (HashChain.rootInputs padded id appendText (padded "15234a") sampleTexts)
      (HashChain.rootInputs padded id appendText (padded "15234a") sampleTexts) := by
  intro i hi j hj h
  have hlengths : ((HashChain.rootInputs padded id appendText (padded "15234a")
      sampleTexts).map fun text => text.length % 65).Nodup := by
    simp only [HashChain.rootInputs, HashChain.inputs, sampleTexts, appendText,
      List.map_cons, List.map_nil, String.length_append, padded_length, id]
    decide
  exact List.inj_on_of_nodup_map hlengths hi hj (padded_inj_length h)

theorem merkleRoot_binds_sample :
    getChildrenBlocksHashes (hashPackages padded) (blockchainMapToList sampleOneHeader) =
        getChildrenBlocksHashes (hashPackages padded)
          (blockchainMapToList sampleOneHeader) ∧
      (sampleBlock 5).difficulty = (sampleBlock 8).difficulty ∧
      (sampleBlock 5).miner = (sampleBlock 8).miner ∧
      (sampleBlock 5).height = (sampleBlock 8).height ∧
      (sampleBlock 5).version = (sampleBlock 8).version ∧
      (sampleBlock 5).schemaVersion = (sampleBlock 8).schemaVersion ∧
      (sampleBlock 5).nrgGrant = (sampleBlock 8).nrgGrant :=
  @merkleRoot_binds (hashPackages padded) (sampleBlock 5) (sampleBlock 8)
    sampleOneHeader sampleOneHeader padded_length collisionFree_sampleTexts rfl rfl
    (by decide) (by decide) rfl rfl (isMerkleRootCorrectlyCalculated_sampleBlock 5)
    (isMerkleRootCorrectlyCalculated_sampleBlock 8) rfl

end BcNode.Bc
