import BcNode.Js.Values

/-!
# The messages of `core.proto`

Rovered blocks, child-chain headers and Block Collider blocks, with the
accessors the node uses on them.  An absent `blockchain_headers` message is
`none`: a block a peer sends need not carry one, and every use of it then
throws.

The five child chains are an enumeration.  The source reaches their header
lists through method names it builds from a chain label, such as
`get${chain[0].toUpperCase() + chain.slice(1)}List`; `chainOfLabel?` is that
lookup.
-/

namespace BcNode.Protos

open BcNode.Js

/-- The child chains, in the order of the fields of `BlockchainHeaders`. -/
inductive Chain where
  | btc | eth | lsk | neo | wav
  deriving DecidableEq, Repr

/-- `Object.keys(headers.toObject())`, without the suffix `List`. -/
def Chain.all : List Chain := [.btc, .eth, .lsk, .neo, .wav]

theorem Chain.mem_all (c : Chain) : c ∈ Chain.all := by
  cases c <;> decide

def Chain.name : Chain → String
  | .btc => "btc"
  | .eth => "eth"
  | .lsk => "lsk"
  | .neo => "neo"
  | .wav => "wav"

/-- The chain whose list a method name built from `label` addresses.  Only the
first character is raised, so a label may have it in either case; any other
label names no method. -/
def chainOfLabel? : String → Option Chain
  | "btc" | "Btc" => some .btc
  | "eth" | "Eth" => some .eth
  | "lsk" | "Lsk" => some .lsk
  | "neo" | "Neo" => some .neo
  | "wav" | "Wav" => some .wav
  | _ => none

theorem chainOfLabel?_name (c : Chain) : chainOfLabel? c.name = some c := by
  cases c <;> rfl

/-- `Block`: a block of a child chain as a rover reports it. -/
structure Block where
  blockchain : String
  hash : String
  previousHash : String
  timestamp : Nat
  height : Nat
  merkleRoot : String
  deriving DecidableEq, Repr

/-- `BlockchainHeader`: a child-chain header inside a Block Collider block. -/
structure BlockchainHeader where
  blockchain : String
  hash : String
  previousHash : String
  timestamp : Nat
  height : Nat
  merkleRoot : String
  blockchainConfirmationsInParentCount : Nat
  deriving DecidableEq, Repr

/-- `BlockchainHeaders`: one list of headers for each child chain. -/
structure BlockchainHeaders where
  btcList : List BlockchainHeader := []
  ethList : List BlockchainHeader := []
  lskList : List BlockchainHeader := []
  neoList : List BlockchainHeader := []
  wavList : List BlockchainHeader := []
  deriving DecidableEq, Repr

namespace BlockchainHeaders

/-- The list of one chain. -/
def get (headers : BlockchainHeaders) : Chain → List BlockchainHeader
  | .btc => headers.btcList
  | .eth => headers.ethList
  | .lsk => headers.lskList
  | .neo => headers.neoList
  | .wav => headers.wavList

/-- Replace the list of one chain. -/
def set (headers : BlockchainHeaders) (chain : Chain)
    (list : List BlockchainHeader) : BlockchainHeaders :=
  match chain with
  | .btc => { headers with btcList := list }
  | .eth => { headers with ethList := list }
  | .lsk => { headers with lskList := list }
  | .neo => { headers with neoList := list }
  | .wav => { headers with wavList := list }

@[simp] theorem get_set_self (headers : BlockchainHeaders) (c : Chain)
    (list : List BlockchainHeader) : (headers.set c list).get c = list := by
  cases c <;> rfl

theorem get_set_ne (headers : BlockchainHeaders) {c d : Chain} (h : d ≠ c)
    (list : List BlockchainHeader) :
    (headers.set c list).get d = headers.get d := by
  cases c <;> cases d <;> first | rfl | exact absurd rfl h

theorem ext_get {headers headers' : BlockchainHeaders}
    (h : ∀ c, headers.get c = headers'.get c) : headers = headers' := by
  cases headers
  cases headers'
  exact BlockchainHeaders.mk.injEq .. ▸
    ⟨h .btc, h .eth, h .lsk, h .neo, h .wav⟩

/-- `Object.values(headers.toObject())`: the lists in field order. -/
def lists (headers : BlockchainHeaders) : List (List BlockchainHeader) :=
  Chain.all.map headers.get

/-- Every chain has at least one header. -/
def Nonempty (headers : BlockchainHeaders) : Prop :=
  ∀ c, headers.get c ≠ []

theorem lists_eq (headers : BlockchainHeaders) :
    headers.lists = [headers.btcList, headers.ethList, headers.lskList,
      headers.neoList, headers.wavList] := rfl

end BlockchainHeaders

/-- `BcTransaction`. -/
structure BcTransaction where
  hash : String
  deriving DecidableEq, Repr

/-- `BcBlock`: a block of the Block Collider chain. -/
structure BcBlock where
  hash : String := ""
  previousHash : String := ""
  version : Nat := 0
  schemaVersion : Nat := 0
  height : Nat := 0
  miner : String := ""
  difficulty : String := ""
  timestamp : Nat := 0
  merkleRoot : String := ""
  chainRoot : String := ""
  distance : String := ""
  totalDistance : String := ""
  nonce : String := ""
  nrgGrant : Nat := 0
  targetHash : String := ""
  targetHeight : Nat := 0
  targetMiner : String := ""
  targetSignature : String := ""
  twn : Nat := 0
  twsList : List String := []
  emblemWeight : Nat := 0
  emblemChainBlockHash : String := ""
  emblemChainFingerprintRoot : String := ""
  emblemChainAddress : String := ""
  txCount : Nat := 0
  txsList : List BcTransaction := []
  txFeeBase : Nat := 0
  txDistanceSumLimit : Nat := 0
  blockchainHeadersCount : Nat := 0
  blockchainHeaders : Option BlockchainHeaders := none
  blockchainFingerprintsRoot : String := ""
  deriving DecidableEq, Repr

/-- A use of `block.getBlockchainHeaders()`: every one of them dereferences
the message at once. -/
def BcBlock.getBlockchainHeaders (block : BcBlock) :
    Except JsError BlockchainHeaders :=
  match block.blockchainHeaders with
  | some headers => .ok headers
  | none => .error .typeError

theorem BcBlock.getBlockchainHeaders_some {block : BcBlock}
    {headers : BlockchainHeaders} (h : block.blockchainHeaders = some headers) :
    block.getBlockchainHeaders = .ok headers := by
  rw [BcBlock.getBlockchainHeaders, h]

theorem BcBlock.getBlockchainHeaders_ok {block : BcBlock} {headers : BlockchainHeaders} :
    block.getBlockchainHeaders = .ok headers ↔ block.blockchainHeaders = some headers := by
  unfold BcBlock.getBlockchainHeaders
  cases block.blockchainHeaders <;> simp

/-- `Object.keys(block.toObject())`. -/
def BcBlock.keys : List String :=
  ["hash", "previousHash", "version", "schemaVersion", "height", "miner",
    "difficulty", "timestamp", "merkleRoot", "chainRoot", "distance",
    "totalDistance", "nonce", "nrgGrant", "targetHash", "targetHeight",
    "targetMiner", "targetSignature", "twn", "twsList", "emblemWeight",
    "emblemChainBlockHash", "emblemChainFingerprintRoot", "emblemChainAddress",
    "txCount", "txsList", "txFeeBase", "txDistanceSumLimit",
    "blockchainHeadersCount", "blockchainHeaders", "blockchainFingerprintsRoot"]

/-! ## `genesis.raw` -/

namespace Genesis

def hash : String := "a8212d5a65f579c2018b19172be34e4422a93c8437f8e7c19ddc8cad15353862"
def previousHash : String := "b6615809ca3ff24562ce2724ef010e369a976cb9068570074f88919eaddcd08f"
def version : Nat := 1
def schemaVersion : Nat := 1
def height : Nat := 1
def nrgGrant : Nat := 1600000000
def targetHash : String := "6f641871680978619176212f0000a40d8d0ae784ad35918ce677a5111a776cf9"
def targetHeight : Nat := 1800066
def targetMiner : String := "0x028d3af888e08aa8380e5866b6ed068bd60e7b19"
def targetSignature : String := ""
def twn : Nat := 0
def twsList : List String := []
def emblemWeight : Nat := 0
def emblemChainBlockHash : String := ""
def emblemChainFingerprintRoot : String :=
  "87b2bc3f12e3ded808c6d4b9b528381fa2a7e95ff2368ba93191a9495daa7f50"
def emblemChainAddress : String := ""
def txFeeBase : Nat := 0
def txDistanceSumLimit : Nat := 0
def childBlockchainCount : Nat := 5
def blockchainFingerprintsRoot : String :=
  "d65ffda8a561b53c09377ef7d3ee9ebbf18a618c603faf2631c1bbb7d66a03ac"

end Genesis

/-- `getGenesisBlock()`, as the store gives it back.  `genesis.raw` has the
numbers `1` and `0` for the string fields `distance` and `nonce`; the
generated serializer asks for their `length` and writes neither. -/
def getGenesisBlock : BcBlock where
  hash := Genesis.hash
  previousHash := Genesis.previousHash
  version := Genesis.version
  schemaVersion := Genesis.schemaVersion
  height := Genesis.height
  miner := "0x028d3af888e08aa8380e5866b6ed068bd60e7b19"
  difficulty := "296401962029366"
  timestamp := 0
  merkleRoot := "b277537249649f9e7e56d549805ccfdec56fddd6153c6bf4ded85c3e072ccbdf"
  chainRoot := "b4816d65eabac8f1a143805ffc6f4ca148c4548e020de3db21207a4849ea9abe"
  totalDistance := "1"
  nrgGrant := Genesis.nrgGrant
  targetHash := Genesis.targetHash
  targetHeight := Genesis.targetHeight
  targetMiner := Genesis.targetMiner
  emblemChainFingerprintRoot := Genesis.emblemChainFingerprintRoot
  blockchainHeadersCount := 5
  blockchainHeaders := some {}
  blockchainFingerprintsRoot := Genesis.blockchainFingerprintsRoot

end BcNode.Protos
