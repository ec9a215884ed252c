import BcNode.Protos.Core
import BcNode.Verified.Async

/-!
# The persisted store

`persistence/rocksdb` as the node uses it: `get` and `put` of single keys, each
one atomic, and `putChildHeaders`.

Keys are built from parts (`bc.block.` and a height, a chain name and
`.block.latest`, `valid_` and a hash).  `Key` keeps the parts; `Key.text` is the
string the database sees, and `Key.text_injective` says that no two keys, and so
no two writes of different keys, collide there.  Where the code puts the label of
a received header or block in front, `blockKey` is the key it gets.
-/

namespace BcNode.Persistence

open BcNode.Verified BcNode.Js BcNode.Protos

/-! ## Keys -/

/-- A label of none of the node's ledgers, which does not open like the key of a
validation verdict either. -/
abbrev OtherLabel := { label : String //
  label ≠ "bc" ∧ (∀ chain ∈ Chain.all, label ≠ chain.name) ∧
    "valid_".toList.isPrefixOf? label.toList = none }

/-- Whose blocks a key is about. -/
inductive Ledger where
  | bc
  | child (chain : Chain)
  | other (label : OtherLabel)
  deriving DecidableEq, Repr

def Ledger.name : Ledger → String
  | .bc => "bc"
  | .child chain => chain.name
  | .other label => label.val

/-- Which block of a ledger a key is about. -/
inductive Slot where
  | latest
  | parent
  | oldest
  | earliest
  | checkpoint
  | height (h : Nat)
  deriving DecidableEq, Repr

def Slot.text : Slot → String
  | .latest => "latest"
  | .parent => "parent"
  | .oldest => "oldest"
  | .earliest => "earliest"
  | .checkpoint => "checkpoint"
  | .height h => toString h

/-- The keys of the store. -/
inductive Key where
  | block (ledger : Ledger) (slot : Slot)
  | synclock
  | quorum
  | depth
  | rovers
  | appversion
  | valid (hash : String)
  deriving DecidableEq, Repr

def Key.text : Key → String
  | .block ledger slot => ledger.name ++ ".block." ++ slot.text
  | .synclock => "synclock"
  | .quorum => "bc.dht.quorum"
  | .depth => "bc.depth"
  | .rovers => "rovers"
  | .appversion => "appversion"
  | .valid hash => "valid_" ++ hash

/-- A word that opens with a letter is no numeral. -/
private theorem toString_ne_word (n : Nat) {word : String} {c : Char} {cs : List Char}
    (hword : word.toList = c :: cs) (hc : c.isDigit = false) : toString n ≠ word := by
  intro h
  have hmem : c ∈ (toString n).toList := by
    rw [h, hword]
    exact List.mem_cons_self
  rw [Decimal.isDigit_of_mem_toString hmem] at hc
  cases hc

theorem Slot.text_injective {a b : Slot} (h : a.text = b.text) : a = b := by
  have hlatest n : toString (n : Nat) ≠ "latest" := toString_ne_word n rfl rfl
  have hparent n : toString (n : Nat) ≠ "parent" := toString_ne_word n rfl rfl
  have holdest n : toString (n : Nat) ≠ "oldest" := toString_ne_word n rfl rfl
  have hearliest n : toString (n : Nat) ≠ "earliest" := toString_ne_word n rfl rfl
  have hcheckpoint n : toString (n : Nat) ≠ "checkpoint" := toString_ne_word n rfl rfl
  cases a <;> cases b <;> simp only [Slot.text] at h
  case height.height m n => rw [Decimal.toString_nat_inj.1 h]
  case height.latest m => exact absurd h (hlatest m)
  case height.parent m => exact absurd h (hparent m)
  case height.oldest m => exact absurd h (holdest m)
  case height.earliest m => exact absurd h (hearliest m)
  case height.checkpoint m => exact absurd h (hcheckpoint m)
  case latest.height m => exact absurd h.symm (hlatest m)
  case parent.height m => exact absurd h.symm (hparent m)
  case oldest.height m => exact absurd h.symm (holdest m)
  case earliest.height m => exact absurd h.symm (hearliest m)
  case checkpoint.height m => exact absurd h.symm (hcheckpoint m)
  all_goals first | rfl | exact absurd h (by decide)

theorem Ledger.name_injective {a b : Ledger} (h : a.name = b.name) : a = b := by
  have hother (label : OtherLabel) (chain : Chain) : label.val ≠ chain.name :=
    label.property.2.1 chain chain.mem_all
  rcases a with _ | chain | label <;> rcases b with _ | chain' | label' <;>
    simp only [Ledger.name] at h
  case bc.bc => rfl
  case bc.child => cases chain' <;> exact absurd h (by decide)
  case bc.other => exact absurd h.symm label'.property.1
  case child.bc => cases chain <;> exact absurd h (by decide)
  case child.child =>
    cases chain <;> cases chain' <;> first | rfl | exact absurd h (by decide)
  case child.other => exact absurd h.symm (hother label' chain)
  case other.bc => exact absurd h label.property.1
  case other.child => exact absurd h (hother label chain')
  case other.other => rw [Subtype.ext h]

theorem Slot.dot_notMem (slot : Slot) : '.' ∉ slot.text.toList := by
  intro hdot
  cases slot with
  | height h =>
      have hdigit := Decimal.isDigit_of_mem_toString hdot
      exact absurd hdigit (by decide)
  | _ => exact absurd hdot (by decide)

/-- The last dot of a text is where it is. -/
private theorem lastDot_injective {x y u v : List Char} (hu : '.' ∉ u) (hv : '.' ∉ v)
    (h : x ++ '.' :: u = y ++ '.' :: v) : x = y ∧ u = v := by
  rcases List.append_eq_append_iff.1 h with ⟨w, hy, hw⟩ | ⟨w, hx, hw⟩
  · cases w with
    | nil => exact ⟨by rw [hy, List.append_nil], (List.cons.inj hw).2⟩
    | cons c w =>
        refine absurd ?_ hu
        rw [(List.cons.inj hw).2]
        exact List.mem_append_right w List.mem_cons_self
  · cases w with
    | nil => exact ⟨by rw [hx, List.append_nil], (List.cons.inj hw).2.symm⟩
    | cons c w =>
        refine absurd ?_ hv
        rw [(List.cons.inj hw).2]
        exact List.mem_append_right w List.mem_cons_self

/-- A block's key up to its last dot, and what follows. -/
private theorem Key.toList_text_block (ledger : Ledger) (slot : Slot) :
    (Key.block ledger slot).text.toList =
      (ledger.name.toList ++ ".block".toList) ++ '.' :: slot.text.toList := by
  have hdot : ".block.".toList = ".block".toList ++ ['.'] := rfl
  simp only [Key.text, String.toList_append, hdot, List.append_assoc, List.singleton_append]

private theorem Key.text_block_injective {ledger ledger' : Ledger} {slot slot' : Slot}
    (h : (Key.block ledger slot).text = (Key.block ledger' slot').text) :
    Key.block ledger slot = Key.block ledger' slot' := by
  have hlist := congrArg String.toList h
  rw [Key.toList_text_block, Key.toList_text_block] at hlist
  obtain ⟨hname, hslot⟩ := lastDot_injective slot.dot_notMem slot'.dot_notMem hlist
  rw [Ledger.name_injective (String.toList_injective (List.append_cancel_right hname)),
    Slot.text_injective (String.toList_injective hslot)]

/-- No label makes a block's key one of a verdict. -/
private theorem Key.text_block_ne_valid (ledger : Ledger) (slot : Slot) (hash : String) :
    (Key.block ledger slot).text ≠ (Key.valid hash).text := by
  intro h
  have hlist := congrArg String.toList h
  rw [Key.toList_text_block] at hlist
  simp only [Key.text, String.toList_append, List.append_assoc] at hlist
  rcases ledger with _ | chain | label
  · exact absurd hlist (by simp [Ledger.name])
  · cases chain <;> exact absurd hlist (by simp [Ledger.name, Chain.name])
  · have hopen := label.property.2.2
    simp only [Ledger.name] at hlist
    generalize label.val.toList = cs at hlist hopen
    -- character by character: the label ends early, differs, or opens like the key
    match cs, hlist, hopen with
    | [], hlist, _ | [_], hlist, _ | [_, _], hlist, _ | [_, _, _], hlist, _
    | [_, _, _, _], hlist, _ | [_, _, _, _, _], hlist, _ => simp at hlist
    | c₁ :: c₂ :: c₃ :: c₄ :: c₅ :: c₆ :: cs, hlist, hopen =>
        simp at hlist
        obtain ⟨rfl, rfl, rfl, rfl, rfl, rfl, _⟩ := hlist
        simp [List.isPrefixOf?] at hopen

/-- A key without blocks has no dot, or a last word that is no slot. -/
private theorem Key.text_block_ne {ledger : Ledger} {slot : Slot} {key : Key}
    (hkey : ∀ ledger' slot', key ≠ .block ledger' slot') :
    (Key.block ledger slot).text ≠ key.text := by
  have hnodot {word : String} (hword : '.' ∉ word.toList) :
      (Key.block ledger slot).text ≠ word := by
    rintro rfl
    rw [Key.toList_text_block] at hword
    exact hword (List.mem_append_right _ List.mem_cons_self)
  have hlast (start last : String) {word : String} (hdot : '.' ∉ last.toList)
      (hsplit : word.toList = start.toList ++ '.' :: last.toList)
      (hslot : slot.text ≠ last) : (Key.block ledger slot).text ≠ word := by
    rintro rfl
    rw [Key.toList_text_block] at hsplit
    have hsame := (lastDot_injective slot.dot_notMem hdot hsplit).2
    exact hslot (String.toList_injective hsame)
  have hslot {last : String} {c : Char} {cs : List Char} (hopen : last.toList = c :: cs)
      (hc : c.isDigit = false)
      (hwords : last ∉ ["latest", "parent", "oldest", "earliest", "checkpoint"]) :
      slot.text ≠ last := by
    intro h
    cases slot with
    | height n => exact toString_ne_word n hopen hc h
    | _ => exact hwords (by rw [← h]; decide)
  cases key with
  | block ledger' slot' => exact absurd rfl (hkey ledger' slot')
  | synclock => exact hnodot (by decide)
  | rovers => exact hnodot (by decide)
  | appversion => exact hnodot (by decide)
  | quorum => exact hlast "bc.dht" "quorum" (by decide) rfl (hslot rfl rfl (by decide))
  | depth => exact hlast "bc" "depth" (by decide) rfl (hslot rfl rfl (by decide))
  | valid hash => exact Key.text_block_ne_valid ledger slot hash

/-- Distinct keys are distinct strings in the database. -/
theorem Key.text_injective {a b : Key} (h : a.text = b.text) : a = b := by
  by_cases ha : ∃ ledger slot, a = .block ledger slot
  · obtain ⟨ledger, slot, rfl⟩ := ha
    by_cases hb : ∃ ledger slot, b = .block ledger slot
    · obtain ⟨ledger', slot', rfl⟩ := hb
      exact Key.text_block_injective h
    · exact absurd h (Key.text_block_ne fun l s hs => hb ⟨l, s, hs⟩)
  · by_cases hb : ∃ ledger slot, b = .block ledger slot
    · obtain ⟨ledger', slot', rfl⟩ := hb
      exact absurd h.symm (Key.text_block_ne fun l s hs => ha ⟨l, s, hs⟩)
    · have hlist := congrArg String.toList h
      cases a <;> cases b <;> simp [Key.text] at hlist ha hb ⊢
      exact String.toList_injective hlist

/-- The key of a template such as `${label}.block.${height}`, where the label is
whatever a header or a rovered block says it is. -/
def blockKey (label : String) (slot : Slot) : Key :=
  if hbc : label = "bc" then .block .bc slot
  else
    match hchain : Chain.all.find? fun chain => label == chain.name with
    | some chain => .block (.child chain) slot
    | none =>
        match hvalid : "valid_".toList.isPrefixOf? label.toList with
        | some rest => .valid (String.ofList rest ++ ".block." ++ slot.text)
        | none =>
            .block (.other ⟨label, hbc, by simpa using hchain, hvalid⟩) slot

/-- What a prefix leaves over. -/
private theorem eq_append_of_isPrefixOf? {x y rest : List Char}
    (h : x.isPrefixOf? y = some rest) : y = x ++ rest := by
  induction x generalizing y with
  | nil =>
      simp only [List.isPrefixOf?, Option.some.injEq] at h
      exact h
  | cons c x ih =>
      cases y with
      | nil => cases h
      | cons d y =>
          simp only [List.isPrefixOf?] at h
          split at h
          · next hcd => rw [beq_iff_eq.1 hcd, ih h, List.cons_append]
          · cases h

@[simp] theorem blockKey_text (label : String) (slot : Slot) :
    (blockKey label slot).text = label ++ ".block." ++ slot.text := by
  unfold blockKey
  split
  · next hbc => rw [hbc]; rfl
  · split
    · next chain hchain =>
        have hname : label = chain.name := by simpa using List.find?_some hchain
        rw [hname]
        rfl
    · split
      · next rest hvalid =>
          apply String.toList_injective
          simp only [Key.text, String.toList_append, String.toList_ofList,
            eq_append_of_isPrefixOf? hvalid, List.append_assoc]
      · rfl

/-- The five chains have their own ledgers. -/
@[simp] theorem blockKey_name (chain : Chain) (slot : Slot) :
    blockKey chain.name slot = .block (.child chain) slot :=
  Key.text_injective (blockKey_text chain.name slot)

/-- Under one label different slots are different keys. -/
theorem blockKey_inj {label : String} {slot slot' : Slot} :
    blockKey label slot = blockKey label slot' ↔ slot = slot' := by
  refine ⟨fun h => ?_, fun h => by rw [h]⟩
  have htext := congrArg (fun key => key.text.toList) h
  simp only [blockKey_text, String.toList_append] at htext
  exact Slot.text_injective (String.toList_injective (List.append_cancel_left htext))

/-! ## Values, reads and writes -/

/-- What the codec stores: the protobuf messages and the native values. -/
inductive Value where
  | bcBlock (block : BcBlock)
  | block (block : Block)
  | header (header : BlockchainHeader)
  | string (text : String)
  | number (n : Int)
  | names (list : List String)
  | appVersion (version commit : String) (dbVersion : Nat)
  deriving DecidableEq, Repr

/-- `value.getHeight()`. -/
def Value.getHeight : Value → Except JsError Nat
  | .bcBlock b => .ok b.height
  | .block b => .ok b.height
  | .header h => .ok h.height
  | _ => .error .typeError

/-- `value.getBlockchain()`. -/
def Value.getBlockchain : Value → Except JsError String
  | .block b => .ok b.blockchain
  | .header h => .ok h.blockchain
  | _ => .error .typeError

/-- The database. -/
abbrev Store := Key → Option Value

namespace Store

/-- The store of a new data folder. -/
def empty : Store := fun _ => none

def set (store : Store) (key : Key) (value : Value) : Store :=
  Function.update store key (some value)

@[simp] theorem set_self (store : Store) (key : Key) (value : Value) :
    store.set key value key = some value := Function.update_self ..

@[simp] theorem set_ne (store : Store) {key other : Key} (h : other ≠ key)
    (value : Value) : store.set key value other = store other :=
  Function.update_of_ne h ..

def erase (store : Store) (key : Key) : Store := Function.update store key none

@[simp] theorem erase_self (store : Store) (key : Key) : store.erase key key = none :=
  Function.update_self ..

@[simp] theorem erase_ne (store : Store) {key other : Key} (h : other ≠ key) :
    store.erase key other = store other := Function.update_of_ne h ..

end Store

/-- A promise over the store. -/
abbrev StoreM (α : Type) := Async Store JsError α

/-- `persistence.put(key, value)`. -/
def put (key : Key) (value : Value) : Task Store Unit :=
  Task.modify fun store => store.set key value

/-- What `persistence.get(key)` resolves with or rejects with, in one state. -/
def getIn (store : Store) (key : Key) : Except JsError Value :=
  match store key with
  | some value => .ok value
  | none => .error (.error s!"NotFound:  - {key.text}")

/-- `persistence.get(key)`. -/
def get (key : Key) : StoreM Value := ExceptT.mk (Task.read fun store => getIn store key)

/-- The accessors of a Block Collider block on a value of the store. -/
def Value.asBcBlock : Value → Except JsError BcBlock
  | .bcBlock b => .ok b
  | _ => .error .typeError

/-- `persistence.get(key)` where the code goes on to use a Block Collider
block. -/
def getBlockIn (store : Store) (key : Key) : Except JsError BcBlock :=
  getIn store key >>= Value.asBcBlock

def getBlock (key : Key) : StoreM BcBlock :=
  ExceptT.mk (Task.read fun store => getBlockIn store key)

/-- `persistence.put(key, block)` in an async function. -/
def putBlock (key : Key) (block : BcBlock) : StoreM Unit :=
  Async.ofTask (put key (.bcBlock block))

@[simp] theorem exec_get (key : Key) (store : Store) :
    Async.exec (get key) store = (getIn store key, store) := rfl

@[simp] theorem exec_getBlock (key : Key) (store : Store) :
    Async.exec (getBlock key) store = (getBlockIn store key, store) := rfl

@[simp] theorem exec_putBlock (key : Key) (block : BcBlock) (store : Store) :
    Async.exec (putBlock key block) store =
      (.ok (), store.set key (.bcBlock block)) := rfl

/-- In an async function a read of a block is one action. -/
theorem run_getBlock_bind {α : Type} (key : Key) (f : BcBlock → StoreM α) :
    ExceptT.run (getBlock key >>= f) =
      Task.read (fun store => getBlockIn store key) >>= fun read =>
        match read with
        | .ok block => ExceptT.run (f block)
        | .error e => .done (.error e) := by
  rw [ExceptT.run_bind]
  congr 1
  funext read
  cases read <;> rfl

/-- And so is a write. -/
theorem run_putBlock_bind {α : Type} (key : Key) (block : BcBlock) (f : Unit → StoreM α) :
    ExceptT.run (putBlock key block >>= f) =
      Task.act (fun store => store.set key (.bcBlock block)) fun _ =>
        ExceptT.run (f ()) := rfl

theorem getBlockIn_of_some {store : Store} {key : Key} {block : BcBlock}
    (h : store key = some (.bcBlock block)) : getBlockIn store key = .ok block := by
  rw [getBlockIn, getIn, h]
  rfl

theorem getIn_ok {store : Store} {key : Key} {value : Value} :
    getIn store key = .ok value ↔ store key = some value := by
  unfold getIn
  cases store key <;> simp

/-- A block was read exactly where the store holds one. -/
theorem getBlockIn_ok {store : Store} {key : Key} {block : BcBlock} :
    getBlockIn store key = .ok block ↔ store key = some (.bcBlock block) := by
  constructor
  · intro h
    unfold getBlockIn getIn at h
    cases hkey : store key with
    | none => rw [hkey] at h; cases h
    | some value =>
        rw [hkey] at h
        cases value with
        | bcBlock b => cases h; rfl
        | _ => cases h
  · exact getBlockIn_of_some

/-- `persistence.getBulk(keys)`: what can be read of the keys. -/
def getBulk (order : List Nat) (keys : List Key) : Task Store (List Value) :=
  Task.all order (keys.map fun key => Task.read fun store => getIn store key) >>=
    fun results => pure (results.filterMap Except.toOption)

/-- Run alone, in whatever order its reads complete, it finds what is there. -/
theorem getBulk_run (order : List Nat) (keys : List Key) (store : Store) :
    (getBulk order keys).run store = (keys.filterMap store, store) := by
  have hreads : ∀ t ∈ keys.map fun key => Task.read fun store => getIn store key,
      Task.Leaves store t := by
    intro t ht
    obtain ⟨key, _, rfl⟩ := List.mem_map.1 ht
    exact ⟨rfl, trivial⟩
  have hfound (key : Key) : (getIn store key).toOption = store key := by
    unfold getIn
    cases store key <;> rfl
  rw [getBulk, Task.run_bind, Task.all_run_of_leaves order hreads]
  simp only [List.map_map, Function.comp_def, Task.run_read, Task.pure_eq, Task.run_done,
    List.filterMap_map, hfound]

/-! ## Reads in a proof

How the reasoning rules for tasks go past a read of a block. -/

section Rules

variable {α β : Type} {key : Key} {f : BcBlock → StoreM α}

theorem safe_getBlock_bind {R : Store → Store → Prop} {Q : Except JsError α → Store → Prop}
    (hrefl : ∀ s, R s s) {s : Store}
    (hread : ∀ s' block, R s s' → s' key = some (.bcBlock block) →
      Task.Safe R Q (ExceptT.run (f block)) s')
    (herror : ∀ s' e, R s s' → Task.Safe R Q (.done (.error e)) s') :
    Task.Safe R Q (ExceptT.run (getBlock key >>= f)) s := by
  rw [run_getBlock_bind]
  apply Task.Safe.read_bind hrefl
  intro s' hs
  cases hblock : getBlockIn s' key with
  | error e => exact herror s' e hs
  | ok block => exact hread s' block hs (getBlockIn_ok.1 hblock)

theorem readsUntil_getBlock_bind {W : Task Store β → Prop} {s₀ : Store} {block : BcBlock}
    {k : Except JsError α → Task Store β} (hkey : s₀ key = some (.bcBlock block))
    (h : Task.ReadsUntil W s₀ (ExceptT.run (f block) >>= k)) :
    Task.ReadsUntil W s₀ (ExceptT.run (getBlock key >>= f) >>= k) := by
  rw [run_getBlock_bind, Task.bind_assoc]
  apply Task.ReadsUntil.read_bind
  rw [getBlockIn_of_some hkey]
  exact h

theorem sectioned_getBlock_bind {I : Store → Prop} {Inside : Task Store β → Prop}
    {k : Except JsError α → Task Store β}
    (hread : ∀ block, Task.Sectioned I Inside (ExceptT.run (f block) >>= k) none)
    (herror : ∀ e, Task.Sectioned I Inside (k (.error e)) none) :
    Task.Sectioned I Inside (ExceptT.run (getBlock key >>= f) >>= k) none := by
  rw [run_getBlock_bind, Task.bind_assoc]
  apply Task.Sectioned.read_bind
  intro s
  cases getBlockIn s key with
  | error e => exact herror e
  | ok block => exact hread block

end Rules

/-! ## Child headers -/

/-- In which order promises started together get to act: the reads of a
`getBulk`, the headers of a `putChildHeaders`, and for each header, by its place
among those of its chain, the two writes that make it the latest. -/
structure Completion where
  bulk : List Nat := []
  headers : List Nat := []
  writes : Chain → Nat → List Nat := fun _ _ => []

/-- Write one header and, unless the latest one of its chain is at least as high,
make it the latest, the two writes in the given order.  A failing read counts as no
header. -/
def putChildHeader (order : List Nat) (chain : Chain) (b : BlockchainHeader) :
    Task Store Unit :=
  let both : Task Store Unit :=
    Task.all order
      [put (.block (.child chain) .latest) (.header b),
        put (.block (.child chain) (.height b.height)) (.header b)] >>= fun _ => pure ()
  Task.read (fun store => getIn store (.block (.child chain) .latest)) >>= fun latest =>
    match latest >>= Value.getHeight with
    | .ok height =>
        if height < b.height then both
        else put (.block (.child chain) (.height b.height)) (.header b)
    | .error _ => both

/-- `putChildHeaders`, with all its options set.  `sortChildHeaders` hands the heights to
`new BN`; they are taken to be `Safe`, where `sortBN` is this sort. -/
def putChildHeaders (completion : Completion) (block : BcBlock) : StoreM Unit := do
  let headers ← Async.ofExcept block.getBlockchainHeaders
  let sorted (chain : Chain) := sortAscending (·.height) (headers.get chain)
  let _ ← Async.ofTask (Task.all completion.headers
    ([Chain.btc, .eth, .wav, .lsk, .neo].flatMap fun chain =>
      (sorted chain).zipIdx.map fun entry =>
        putChildHeader (completion.writes chain entry.2) chain entry.1))

/-- Steps that write child-chain keys only. -/
def ChildFrame (s s' : Store) : Prop :=
  ∀ key, (∀ chain slot, key ≠ .block (.child chain) slot) → s' key = s key

theorem ChildFrame.refl (s : Store) : ChildFrame s s := fun _ _ => rfl

theorem ChildFrame.trans {s₁ s₂ s₃ : Store} (h : ChildFrame s₁ s₂)
    (h' : ChildFrame s₂ s₃) : ChildFrame s₁ s₃ := by
  intro key hkey
  rw [h' key hkey, h key hkey]

/-- Whatever a header's two possible writes respect, all of it does. -/
theorem putChildHeader_always {F : Store → Store → Prop} (hrefl : ∀ s, F s s)
    (order : List Nat) (chain : Chain) (b : BlockchainHeader)
    (hput : ∀ s, ∀ slot ∈ [Slot.latest, .height b.height],
      F s (s.set (.block (.child chain) slot) (.header b))) :
    Task.Always F (putChildHeader order chain b) := by
  have hslot (slot : Slot) (hmem : slot ∈ [Slot.latest, .height b.height]) :
      Task.Always F (put (.block (.child chain) slot) (.header b)) :=
    fun s => ⟨hput s slot hmem, trivial⟩
  have hboth : ∀ t ∈ [put (.block (.child chain) .latest) (.header b),
      put (.block (.child chain) (.height b.height)) (.header b)],
      Task.Always F t := by
    simp only [List.mem_cons, List.not_mem_nil, or_false, forall_eq_or_imp, forall_eq]
    exact ⟨hslot _ (by simp), hslot _ (by simp)⟩
  apply Task.Always.bind (Task.Always.read hrefl _)
  intro latest
  split
  · split
    · exact (Task.Always.all _ hboth).bind fun _ => trivial
    · exact hslot _ (by simp)
  · exact (Task.Always.all _ hboth).bind fun _ => trivial

theorem getBulk_childFrame (order : List Nat) (keys : List Key) :
    Task.Always ChildFrame (getBulk order keys) := by
  refine Task.Always.bind (Task.Always.all order ?_) fun _ => trivial
  intro t ht
  obtain ⟨key, _, rfl⟩ := List.mem_map.1 ht
  exact Task.Always.read ChildFrame.refl _

/-- Whatever the order of its promises, `putChildHeaders` touches nothing but
the child-chain keys. -/
theorem putChildHeaders_childFrame (completion : Completion) (block : BcBlock) :
    Async.Always ChildFrame (putChildHeaders completion block) := by
  apply Async.Always.bind (Async.Always.ofExcept _)
  intro headers
  refine Async.Always.bind (Async.Always.ofTask (Task.Always.all _ ?_)) fun _ => trivial
  intro t ht
  obtain ⟨chain, _, hmem⟩ := List.mem_flatMap.1 ht
  obtain ⟨b, _, rfl⟩ := List.mem_map.1 hmem
  apply putChildHeader_always ChildFrame.refl
  intro s slot _ key hkey
  exact Store.set_ne s (hkey chain slot) _

/-- Run alone, it leaves every other key as it was. -/
theorem putChildHeaders_exec (completion : Completion) (block : BcBlock)
    (store : Store) :
    ChildFrame store (Async.exec (putChildHeaders completion block) store).2 :=
  (putChildHeaders_childFrame completion block).exec ChildFrame.refl
    (fun _ _ _ => ChildFrame.trans) store

end BcNode.Persistence
