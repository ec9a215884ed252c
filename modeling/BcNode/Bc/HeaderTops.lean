import BcNode.Bc.Validation
import Mathlib.Data.List.Fold

/-!
# The newest header and the sum of the child heights

Two folds of the validator over the five header lists of a block.  Both sort each
list, pop its last element and go on from there, and both go wrong on a block a peer
can send.

* `childrenHeightSum` collects the tops in an object under the label that stands in
  the header, so two lists whose tops carry one label count once.  It then adds plain
  numbers, which above `2 ^ 53` rounds.
* `getNewestHeader` reads the timestamp of what it popped and hands it to `new BN`, so an
  empty list makes it throw, and so does a timestamp from `2 ^ 53` on.
-/

namespace BcNode.Bc

open BcNode.Verified BcNode.Js BcNode.Protos

theorem highestOfList_eq_some {headers : List BlockchainHeader} {top : BlockchainHeader} :
    highestOfList headers = some top ↔ LastGreatest (·.height) headers top :=
  getLast?_insertionSort_iff

/-! ## The sum of the child heights -/

/-- The chains whose lists stand after that of `chain`. -/
def later (chain : Chain) : List Chain := (Chain.all.dropWhile (· != chain)).tail

theorem later_eq {chain : Chain} {front back : List Chain}
    (h : Chain.all = front ++ chain :: back) : later chain = back := by
  have hnodup : Chain.all.Nodup := by decide
  rw [h, List.nodup_middle, List.nodup_cons] at hnodup
  have hfront : ∀ c ∈ front, (c != chain) = true := by
    intro c hc
    have hne : c ≠ chain := fun heq => hnodup.1 (heq ▸ List.mem_append_left _ hc)
    exact bne_iff_ne.2 hne
  rw [later, h, List.dropWhile_append_of_pos hfront,
    List.dropWhile_cons_of_neg (by simp), List.tail_cons]

/-- The sum over the five lists of the greatest height in the list. -/
def highestSum (headers : BlockchainHeaders) : Nat :=
  Chain.all.foldr (fun chain sum => greatest (·.height) (headers.get chain) + sum) 0

/-- The top of the chain's list is not in the object in the end: its label is
`__proto__`, or the top of a later list carries the same label. -/
def Shadowed (headers : BlockchainHeaders) (chain : Chain) : Prop :=
  ∃ top, LastGreatest (·.height) (headers.get chain) top ∧
    (top.blockchain = "__proto__" ∨
      ∃ next ∈ later chain, ∃ other,
        LastGreatest (·.height) (headers.get next) other ∧
          other.blockchain = top.blockchain)

/-- The tops of some of the lists, under their own labels. -/
def labelled (tops : Chain → BlockchainHeader) (chains : List Chain) :
    List (String × BlockchainHeader) :=
  chains.map fun chain => ((tops chain).blockchain, tops chain)

/-- The tops of the lists, in turn, as `childrenHighestBlock` assigns them. -/
def assignedTops (headers : BlockchainHeaders) : List (String × BlockchainHeader) :=
  Chain.all.filterMap fun chain =>
    (highestOfList (headers.get chain)).map fun top => (top.blockchain, top)

/-- The heights that are in the object in the end, in the order in which they are added. -/
def keptHeights (headers : BlockchainHeaders) : List Nat :=
  (Obj.assignAll [] (assignedTops headers)).listed.map (·.height)

/-- The sum of the heights that are not. -/
def lostHeight (headers : BlockchainHeaders) : Nat :=
  displaced (·.height) (assignedTops headers)

section Sum

variable {headers : BlockchainHeaders} {tops : Chain → BlockchainHeader}
  (htops : ∀ chain, LastGreatest (·.height) (headers.get chain) (tops chain))

include htops

/-- The fold assigns the tops one after the other. -/
theorem foldlM_highestStep (chains : List Chain) (all : Obj BlockchainHeader) :
    (chains.map headers.get).foldlM highestStep all =
      .ok (all.assignAll (labelled tops chains)) := by
  induction chains generalizing all with
  | nil => rfl
  | cons chain chains ih =>
      have htop : highestOfList (headers.get chain) = some (tops chain) :=
        highestOfList_eq_some.2 (htops chain)
      have hstep : highestStep all (headers.get chain) =
          .ok (all.assign (tops chain).blockchain (tops chain)) := by
        rw [highestStep, htop]
      exact foldlM_cons_ok.2 ⟨_, hstep, ih _⟩

/-- What the sum is before anything is lost. -/
theorem weigh_labelled (chains : List Chain) :
    Obj.weigh (·.height) (labelled tops chains) =
      chains.foldr (fun chain sum => greatest (·.height) (headers.get chain) + sum) 0 := by
  induction chains with
  | nil => rfl
  | cons chain chains ih =>
      rw [List.foldr_cons, (htops chain).greatest_eq, ← ih]
      rfl

theorem assignedTops_eq : assignedTops headers = labelled tops Chain.all := by
  rw [assignedTops, labelled, ← List.filterMap_eq_map]
  refine List.filterMap_congr fun chain _ => ?_
  rw [highestOfList_eq_some.2 (htops chain)]
  rfl

/-- What is added up. -/
theorem childrenHeightSum_kept {block : BcBlock}
    (hblock : block.blockchainHeaders = some headers) :
    childrenHeightSum block = .ok (Double.sum (keptHeights headers)) := by
  rw [childrenHeightSum, childrenHighestBlock, BcBlock.getBlockchainHeaders_some hblock,
    keptHeights, assignedTops_eq htops]
  simp only [bind, Except.bind, BlockchainHeaders.lists,
    foldlM_highestStep htops Chain.all [], pure, Except.pure]

/-- Each greatest height is kept or lost. -/
theorem sum_keptHeights :
    (keptHeights headers).sum + lostHeight headers = highestSum headers := by
  have hsum (obj : Obj BlockchainHeader) :
      (obj.values.map (·.height)).sum = obj.weigh (·.height) := by
    rw [List.sum_eq_foldr, Obj.values, List.map_map, List.foldr_map]
    rfl
  have hproper : (Obj.assignAll [] (assignedTops headers)).Proper :=
    Obj.Proper.nil.assignAll _
  have hkept := (hproper.listed_perm.map (·.height)).sum_eq
  have htotal := Obj.weigh_assignAll (·.height) (assignedTops headers)
  rw [keptHeights, hkept, hsum, lostHeight, htotal, assignedTops_eq htops,
    weigh_labelled htops, highestSum]

/-- A top is displaced exactly where its list is shadowed. -/
theorem lostHeight_eq_zero_iff :
    lostHeight headers = 0 ↔
      ∀ chain, Shadowed headers chain → greatest (·.height) (headers.get chain) = 0 := by
  rw [lostHeight, assignedTops_eq htops, displaced_eq_zero_iff]
  constructor
  · rintro h chain ⟨top, htop, hlost⟩
    obtain rfl := htop.unique (htops chain)
    rw [htop.greatest_eq]
    obtain ⟨front, back, hall⟩ := List.append_of_mem chain.mem_all
    have hsplit : labelled tops Chain.all = labelled tops front ++
        ((tops chain).blockchain, tops chain) :: labelled tops back := by
      rw [hall, labelled, List.map_append, List.map_cons]
      rfl
    refine h _ _ _ hsplit (hlost.imp id ?_)
    rintro ⟨next, hnext, other, hother, hlabel⟩
    obtain rfl := hother.unique (htops next)
    rw [later_eq hall] at hnext
    refine List.mem_map.2 ⟨((tops next).blockchain, tops next), ?_, hlabel⟩
    exact List.mem_map_of_mem hnext
  · intro h before entry after hsplit hlost
    obtain ⟨front, rest, hall, rfl, hrest⟩ := List.map_eq_append_iff.1 hsplit
    obtain ⟨chain, back, rfl, rfl, rfl⟩ := List.map_eq_cons_iff.1 hrest
    rw [← (htops chain).greatest_eq]
    refine h chain ⟨tops chain, htops chain, hlost.imp id fun hmem => ?_⟩
    obtain ⟨entry, hentry, hlabel⟩ := List.mem_map.1 hmem
    obtain ⟨next, hnext, rfl⟩ := List.mem_map.1 hentry
    exact ⟨next, (later_eq hall).symm ▸ hnext, tops next, htops next, hlabel⟩

end Sum

/-- A header with nothing but a label and a height. -/
def headerAt (blockchain : String) (height : Nat) : BlockchainHeader where
  blockchain
  hash := ""
  previousHash := ""
  timestamp := 0
  height
  merkleRoot := ""
  blockchainConfirmationsInParentCount := 1

/-- Five lists, the second of them under a label of the sender's choice. -/
def sampleTops (ethLabel : String) : BlockchainHeaders where
  btcList := [headerAt "btc" 5, headerAt "btc" 3]
  ethList := [headerAt ethLabel 7]
  lskList := [headerAt "lsk" 4]
  neoList := [headerAt "neo" 2]
  wavList := [headerAt "wav" 9]

theorem sampleTops_nonempty (ethLabel : String) : (sampleTops ethLabel).Nonempty := by
  intro chain
  cases chain <;> exact List.cons_ne_nil _ _

/-- Above `2 ^ 53` four more heights change nothing. -/
example :
    childrenHeightSum
      { blockchainHeaders := some
          { sampleTops "eth" with
            btcList := [headerAt "btc" (2 ^ 53)]
            ethList := [headerAt "eth" 1]
            lskList := [headerAt "lsk" 1]
            neoList := [headerAt "neo" 1]
            wavList := [headerAt "wav" 1] } } = .ok (2 ^ 53) := by
  decide +kernel

/-! ## The newest header -/

/-- The headers of all five lists.  A block without the message has none. -/
def allHeaders (block : BcBlock) : List BlockchainHeader :=
  match block.blockchainHeaders with
  | some headers => headers.lists.flatten
  | none => []

/-- A newest header is returned where there is a header, and `false` where there is
none. -/
structure ReturnsNewest (newBlock : BcBlock) : Prop where
  newest : allHeaders newBlock ≠ [] →
    ∃ header ∈ allHeaders newBlock, getNewestHeader newBlock = .ok (.found header) ∧
      ∀ other ∈ allHeaders newBlock, other.timestamp ≤ header.timestamp
  missing : allHeaders newBlock = [] → getNewestHeader newBlock = .ok .missing

/-- **When there is a newest header.**  The newest header of a block is what
`getNewestHeader` returns exactly for the blocks with a header in each list and no
timestamp that `new BN` does not take. -/
theorem returnsNewest_iff (newBlock : BcBlock) :
    ReturnsNewest newBlock ↔
      ∃ headers, newBlock.blockchainHeaders = some headers ∧ headers.Nonempty ∧
        SafeTimestamps headers.lists.flatten := by
  constructor
  · intro h
    by_cases hnil : allHeaders newBlock = []
    · exact of_getNewestHeader_ok (h.missing hnil)
    · obtain ⟨header, -, hrun, -⟩ := h.newest hnil
      exact of_getNewestHeader_ok hrun
  · rintro ⟨headers, hblock, h, hsafe⟩
    have hall : allHeaders newBlock = headers.lists.flatten := by
      rw [allHeaders, hblock]
    obtain ⟨header, hget, hmem, hnewest⟩ := getNewestHeader_newest hblock h hsafe
    rw [← hall] at hmem hnewest
    refine ⟨fun _ => ⟨header, hmem, hget, hnewest⟩, fun hnil => ?_⟩
    rw [hnil] at hmem
    cases hmem

/-- A block whose last list is empty has headers, and asking for the newest throws. -/
theorem getNewestHeader_emptyList :
    ¬ ReturnsNewest { blockchainHeaders := some { sampleTops "eth" with wavList := [] } } ∧
      getNewestHeader
        { blockchainHeaders := some { sampleTops "eth" with wavList := [] } } =
          .error .typeError := by
  have hthrows : getNewestHeader
      { blockchainHeaders := some { sampleTops "eth" with wavList := [] } } =
        .error .typeError := rfl
  refine ⟨fun h => ?_, hthrows⟩
  obtain ⟨header, -, hrun, -⟩ := h.newest (List.cons_ne_nil _ _)
  cases hthrows.symm.trans hrun

/-- The same for a block with one header that is too new. -/
example : getNewestHeader
    { blockchainHeaders := some
        { sampleTops "eth" with
          wavList := [{ headerAt "wav" 9 with timestamp := 2 ^ 53 }] } } =
      .error assertionFailed := by
  decide +kernel

end BcNode.Bc
