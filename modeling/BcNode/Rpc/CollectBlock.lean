import BcNode.Persistence.Store
import BcNode.Verified.Pool

/-!
# Blocks from the rovers

`collectBlock` of the rover service.  A rovered block goes into the store twice,
as the latest block of its chain and under its height, in two writes with an await
between them.

Calls are not kept apart.  Two of them that bring different blocks of one height
can each win one of the two keys (`calls_crossing`).  Nothing else can go wrong:
a call that reads a block, or no latest value at all, makes both its writes, and
the key of a height only ever receives blocks of that height.
-/

namespace BcNode.Rpc

open BcNode.Verified BcNode.Js BcNode.Protos BcNode.Persistence

/-! ## The call -/

/-- `blockchainHeadersAreChain([block], [oldLatest])`.  The hash links it compares
only reach the log, so it asks for a block in the store; a native value is either
falsy or without the accessors. -/
def latestAndNewFormAChain : Value → Except JsError Bool
  | .bcBlock _ => .ok true
  | .block _ => .ok true
  | .header _ => .ok true
  | .string text => if text = "" then .ok false else .error .typeError
  | .number n => if n = 0 then .ok false else .error .typeError
  | .names _ => .error .typeError
  | .appVersion _ _ _ => .error .typeError

/-- `persistence.put(key, block)` of a rovered block. -/
def putRovered (key : Key) (block : Block) : StoreM Unit :=
  Async.ofTask (put key (.block block))

/-- `collectBlock`.  It resolves where the callback is answered and the event
`collectBlock` is emitted. -/
def collectBlock (block : Block) : StoreM Unit := do
  let latestKey := blockKey block.blockchain .latest
  let heightKey := blockKey block.blockchain (.height block.height)
  let read ← Async.ofTask (Task.read fun store => getIn store latestKey)
  match read with
  | .ok oldLatest => do
      let chain ← Async.ofExcept (latestAndNewFormAChain oldLatest)
      putRovered heightKey block
      if chain then putRovered latestKey block
  | .error _ => do
      putRovered latestKey block
      putRovered heightKey block

/-- Calls in flight. -/
def calls (blocks : List Block) (store : Store) : Pool Store (Except JsError Unit) :=
  ⟨store, blocks.map fun block => ExceptT.run (collectBlock block)⟩

/-! ## What the keys of a chain hold -/

/-- The latest block is the one stored under its height. -/
def Consistent (label : String) (s : Store) : Prop :=
  ∀ value height, s (blockKey label .latest) = some value →
    value.getHeight = .ok height → s (blockKey label (.height height)) = some value

/-- Under the latest block's height is that block, or one of the given blocks that
has the same height. -/
def ConsistentUpTo (label : String) (blocks : List Block) (s : Store) : Prop :=
  ∀ value height, s (blockKey label .latest) = some value → value.getHeight = .ok height →
    s (blockKey label (.height height)) = some value ∨
      ∃ b ∈ blocks, b.height = height ∧
        s (blockKey label (.height height)) = some (.block b)

/-- The latest key is free or holds a block. -/
def Readable (label : String) (s : Store) : Prop :=
  ∀ value, s (blockKey label .latest) = some value → ∃ height, value.getHeight = .ok height

/-- Two writes of one block, one after the other. -/
def putTwice (label : String) (first second : Slot) (block : Block) :
    Task Store (Except JsError Unit) :=
  put (blockKey label first) (.block block) >>= fun _ =>
    put (blockKey label second) (.block block) >>= fun _ => .done (.ok ())

/-- What a call does after its read. -/
def afterRead (block : Block) (s : Store) : Task Store (Except JsError Unit) :=
  match getIn s (blockKey block.blockchain .latest) with
  | .ok oldLatest =>
      match latestAndNewFormAChain oldLatest with
      | .ok true => putTwice block.blockchain (.height block.height) .latest block
      | .ok false =>
          put (blockKey block.blockchain (.height block.height)) (.block block) >>= fun _ =>
            .done (.ok ())
      | .error e => .done (.error e)
  | .error _ => putTwice block.blockchain .latest (.height block.height) block

theorem collectBlock_eq (block : Block) :
    ExceptT.run (collectBlock block) = Task.act id (afterRead block) := by
  show Task.act id _ = _
  congr 1
  funext s
  rw [afterRead]
  show ExceptT.run (match getIn s (blockKey block.blockchain .latest) with
    | .ok oldLatest => _
    | .error _ => _) = _
  cases getIn s (blockKey block.blockchain .latest) with
  | error e => rfl
  | ok oldLatest =>
      show ExceptT.run (Async.ofExcept (latestAndNewFormAChain oldLatest) >>= _) = _
      rw [Async.run_ofExcept_bind]
      dsimp only
      cases latestAndNewFormAChain oldLatest with
      | error e => rfl
      | ok chain => cases chain <;> rfl

/-- The two keys of a block, in the order in which they are written. -/
def Both (height : Nat) (first second : Slot) : Prop :=
  (first = .height height ∧ second = .latest) ∨ (first = .latest ∧ second = .height height)

/-- In a readable store every call makes both its writes, and calls for one height
make them in the same order. -/
theorem afterRead_of_readable {label : String} {s : Store} (h : Readable label s)
    (height : Nat) :
    ∃ first second, Both height first second ∧
      ∀ b : Block, b.blockchain = label → b.height = height →
        afterRead b s = putTwice label first second b := by
  cases hlatest : s (blockKey label .latest) with
  | none =>
      refine ⟨.latest, .height height, Or.inr ⟨rfl, rfl⟩, ?_⟩
      rintro b rfl rfl
      rw [afterRead, getIn, hlatest]
  | some value =>
      refine ⟨.height height, .latest, Or.inl ⟨rfl, rfl⟩, ?_⟩
      rintro b rfl rfl
      obtain ⟨height, hheight⟩ := h value hlatest
      rw [afterRead, getIn, hlatest]
      cases value with
      | bcBlock _ => rfl
      | block _ => rfl
      | header _ => rfl
      | _ => cases hheight

/-! ## Any interleaving -/

section Calls

variable (label : String) (start : Store) (blocks : List Block)

/-- One of the blocks is the latest one. -/
def Landed (s : Store) : Prop :=
  ∃ b ∈ blocks, s (blockKey label .latest) = some (.block b)

/-- One of the blocks is stored under its height. -/
def Filed (height : Nat) (s : Store) : Prop :=
  ∃ b ∈ blocks, b.height = height ∧
    s (blockKey label (.height height)) = some (.block b)

/-- The latest block is the one from the start or one of the blocks. -/
def LandedOrSame (s : Store) : Prop :=
  s (blockKey label .latest) = start (blockKey label .latest) ∨ Landed label blocks s

/-- What every write of a call does. -/
structure CallRely (s s' : Store) : Prop where
  latest : LandedOrSame label start blocks s → LandedOrSame label start blocks s'
  landed : Landed label blocks s → Landed label blocks s'
  filed : ∀ height, Filed label blocks height s → Filed label blocks height s'

variable {label start blocks}

theorem CallRely.refl (s : Store) : CallRely label start blocks s s :=
  ⟨id, id, fun _ => id⟩

theorem CallRely.trans (s₁ s₂ s₃ : Store) (h : CallRely label start blocks s₁ s₂)
    (h' : CallRely label start blocks s₂ s₃) : CallRely label start blocks s₁ s₃ :=
  ⟨h'.latest ∘ h.latest, h'.landed ∘ h.landed,
    fun height => h'.filed height ∘ h.filed height⟩

theorem blockKey_latest_ne_height (label : String) (height : Nat) :
    blockKey label .latest ≠ blockKey label (.height height) := by
  rw [Ne, blockKey_inj]
  simp

theorem CallRely.put_latest {b : Block} (hb : b ∈ blocks) (s : Store) :
    CallRely label start blocks s (s.set (blockKey label .latest) (.block b)) ∧
      Landed label blocks (s.set (blockKey label .latest) (.block b)) := by
  have hlanded : Landed label blocks (s.set (blockKey label .latest) (.block b)) :=
    ⟨b, hb, Store.set_self ..⟩
  refine ⟨⟨fun _ => Or.inr hlanded, fun _ => hlanded, ?_⟩, hlanded⟩
  rintro height ⟨c, hc, hheight, hkey⟩
  refine ⟨c, hc, hheight, ?_⟩
  rw [Store.set_ne _ (blockKey_latest_ne_height label height).symm, hkey]

theorem CallRely.put_height {b : Block} (hb : b ∈ blocks) (s : Store) :
    CallRely label start blocks s
        (s.set (blockKey label (.height b.height)) (.block b)) ∧
      Filed label blocks b.height
        (s.set (blockKey label (.height b.height)) (.block b)) := by
  have hfiled : Filed label blocks b.height
      (s.set (blockKey label (.height b.height)) (.block b)) :=
    ⟨b, hb, rfl, Store.set_self ..⟩
  have hlatest : s.set (blockKey label (.height b.height)) (.block b)
      (blockKey label .latest) = s (blockKey label .latest) :=
    Store.set_ne _ (blockKey_latest_ne_height label b.height) _
  refine ⟨⟨?_, ?_, ?_⟩, hfiled⟩
  · simp only [LandedOrSame, Landed, hlatest, imp_self]
  · simp only [Landed, hlatest, imp_self]
  · intro height hold
    by_cases hheight : height = b.height
    · rw [hheight]
      exact hfiled
    · obtain ⟨c, hc, hcheight, hkey⟩ := hold
      refine ⟨c, hc, hcheight, ?_⟩
      rw [Store.set_ne _ (by simpa [blockKey_inj] using hheight), hkey]

theorem LandedOrSame.readable (hreadable : Readable label start) {s : Store}
    (h : LandedOrSame label start blocks s) : Readable label s := by
  intro value hvalue
  rcases h with hsame | ⟨b, _, hlatest⟩
  · exact hreadable value (hsame ▸ hvalue)
  · rw [hlatest] at hvalue
    cases hvalue
    exact ⟨b.height, rfl⟩

/-- A call has made both its writes. -/
def Collected (label : String) (blocks : List Block) (b : Block) (s : Store) : Prop :=
  Landed label blocks s ∧ Filed label blocks b.height s

theorem Collected.rely {b : Block} (s s' : Store) (h : CallRely label start blocks s s')
    (hs : Collected label blocks b s) : Collected label blocks b s' :=
  ⟨h.landed hs.1, h.filed b.height hs.2⟩

theorem putTwice_safe {b : Block} (hb : b ∈ blocks) {first second : Slot}
    (hboth : Both b.height first second) (s : Store) :
    Task.Safe (CallRely label start blocks)
      (fun _ s' => Collected label blocks b s') (putTwice label first second b) s := by
  have hlatest (s s' : Store) (h : CallRely label start blocks s s') := h.landed
  have hheight (s s' : Store) (h : CallRely label start blocks s s') := h.filed b.height
  have hputLatest (s : Store) :
      Task.Safe (CallRely label start blocks) (fun _ => Landed label blocks)
        (put (blockKey label .latest) (.block b)) s :=
    Task.Safe.modify hlatest fun s' _ => CallRely.put_latest hb s'
  have hputHeight (s : Store) :
      Task.Safe (CallRely label start blocks) (fun _ => Filed label blocks b.height)
        (put (blockKey label (.height b.height)) (.block b)) s :=
    Task.Safe.modify hheight fun s' _ => CallRely.put_height hb s'
  rcases hboth with ⟨rfl, rfl⟩ | ⟨rfl, rfl⟩
  · apply Task.Safe.bind CallRely.refl (hputHeight s)
    intro _ s₁ hfiled
    apply Task.Safe.bind CallRely.refl ((hputLatest s₁).frame hheight hfiled)
    exact fun _ s₂ hs₂ s₃ hs₃ => Collected.rely s₂ s₃ hs₃ hs₂
  · apply Task.Safe.bind CallRely.refl (hputLatest s)
    intro _ s₁ hlanded
    apply Task.Safe.bind CallRely.refl ((hputHeight s₁).frame hlatest hlanded)
    exact fun _ s₂ hs₂ s₃ hs₃ => Collected.rely s₂ s₃ hs₃ ⟨hs₂.2, hs₂.1⟩

theorem collectBlock_safe (hreadable : Readable label start) {b : Block} (hb : b ∈ blocks)
    (hlabel : b.blockchain = label) {s : Store} (hs : LandedOrSame label start blocks s) :
    Task.Safe (CallRely label start blocks)
      (fun _ s' => Collected label blocks b s') (ExceptT.run (collectBlock b)) s := by
  rw [collectBlock_eq]
  intro s' hrely
  refine ⟨CallRely.refl _, ?_⟩
  obtain ⟨first, second, hboth, hafter⟩ :=
    afterRead_of_readable ((hrely.latest hs).readable hreadable) b.height
  rw [hafter b hlabel rfl]
  exact putTwice_safe hb hboth s'

variable (hlabels : ∀ b ∈ blocks, b.blockchain = label)

include hlabels

theorem calls_safe (hreadable : Readable label start) {b : Block} (hb : b ∈ blocks) :
    Task.Safe (CallRely label start blocks) (fun _ s' => Collected label blocks b s')
      (ExceptT.run (collectBlock b)) start :=
  collectBlock_safe hreadable hb (hlabels b hb) (Or.inl rfl)

theorem calls_landedOrSame (hreadable : Readable label start) (schedule : List Nat) :
    LandedOrSame label start blocks ((calls blocks start).exec schedule).state :=
  (Pool.exec_map CallRely.refl CallRely.trans
    (fun _ => calls_safe hlabels hreadable) schedule).1.latest (Or.inl rfl)

/-- When all calls have finished, all of them have made their writes. -/
theorem calls_collected (hreadable : Readable label start) {schedule : List Nat}
    (hfinished : ((calls blocks start).exec schedule).Finished) {b : Block}
    (hb : b ∈ blocks) :
    Collected label blocks b ((calls blocks start).exec schedule).state :=
  (Pool.exec_map CallRely.refl CallRely.trans
    (fun _ => calls_safe hlabels hreadable) schedule).2 hfinished b hb

end Calls

/-! ## Two calls that cross -/

/-- Two calls read the same store, and one makes both its writes between those of
the other. -/
theorem calls_crossing {rest p : Pool Store (Except JsError Unit)} {i j : Nat}
    (hij : i ≠ j) {label : String} {first second : Slot} {b c : Block} {s : Store}
    (hb : afterRead b s = putTwice label first second b)
    (hc : afterRead c s = putTwice label first second c)
    (h : Pool.Pair rest i j s (.act id (afterRead b)) (.act id (afterRead c)) p) :
    Pool.Pair rest i j
      ((((s.set (blockKey label first) (.block b)).set
        (blockKey label first) (.block c)).set
        (blockKey label second) (.block c)).set (blockKey label second) (.block b))
      (.done (.ok ())) (.done (.ok ())) (p.exec [i, j, i, j, j, i]) := by
  have hreads := (h.step_first hij).step_second hij
  simp only [id, hb, hc] at hreads
  have hfirsts := (hreads.step_first hij).step_second hij
  exact (hfirsts.step_second hij).step_first hij

/-- After that one call has the latest key and the other the height. -/
theorem crossed_not_consistent {label : String} {first second : Slot} {b c : Block}
    (hboth : Both b.height first second) (hheight : b.height = c.height) (hne : b ≠ c)
    (s : Store) :
    ¬ Consistent label ((((s.set (blockKey label first) (.block b)).set
      (blockKey label first) (.block c)).set
      (blockKey label second) (.block c)).set (blockKey label second) (.block b)) := by
  have hkeys := blockKey_latest_ne_height label b.height
  intro hconsistent
  rcases hboth with ⟨rfl, rfl⟩ | ⟨rfl, rfl⟩
  · have hfiled := hconsistent (.block b) b.height (Store.set_self ..) rfl
    rw [Store.set_ne _ hkeys.symm, Store.set_ne _ hkeys.symm, Store.set_self] at hfiled
    exact hne (Value.block.inj (Option.some.inj hfiled)).symm
  · have hfiled := hconsistent (.block c) c.height
      (by rw [Store.set_ne _ hkeys, Store.set_ne _ hkeys, Store.set_self]) rfl
    rw [← hheight, Store.set_self] at hfiled
    exact hne (Value.block.inj (Option.some.inj hfiled))

theorem calls_separated {label : String} {start : Store} {blocks : List Block}
    (hlabels : ∀ b ∈ blocks, b.blockchain = label) (hreadable : Readable label start)
    {b c : Block} (hb : b ∈ blocks) (hc : c ∈ blocks) (hheight : b.height = c.height)
    (hne : b ≠ c) :
    ∃ schedule, ((calls blocks start).exec schedule).Finished ∧
      ¬ Consistent label ((calls blocks start).exec schedule).state := by
  obtain ⟨i, hi⟩ := List.mem_iff_getElem?.1 hb
  obtain ⟨j, hj⟩ := List.mem_iff_getElem?.1 hc
  have hij : i ≠ j := by
    rintro rfl
    rw [hi] at hj
    exact hne (Option.some.inj hj)
  have htask {k : Nat} {d : Block} (hk : blocks[k]? = some d) :
      (calls blocks start).tasks[k]? = some (.act id (afterRead d)) := by
    rw [calls, List.getElem?_map, hk, Option.map_some, collectBlock_eq]
  -- everybody else first
  obtain ⟨others, hkeep, hdone⟩ := Pool.exec_finish_except [i, j] (calls blocks start)
  have hlatest := calls_landedOrSame hlabels hreadable others
  obtain ⟨first, second, hboth, hafter⟩ :=
    afterRead_of_readable (hlatest.readable hreadable) b.height
  have hcrossed := calls_crossing hij (hafter b (hlabels b hb) rfl)
    (hafter c (hlabels c hc) hheight.symm)
    ⟨rfl, (hkeep i (by simp)).trans (htask hi), (hkeep j (by simp)).trans (htask hj),
      fun _ _ _ => rfl⟩
  refine ⟨others ++ [i, j, i, j, j, i], ?_, ?_⟩
  · rw [Pool.exec_append]
    exact hcrossed.finished hdone
  · rw [Pool.exec_append, hcrossed.state]
    exact crossed_not_consistent hboth hheight hne _

/-! ## A latest value that is no block -/

theorem latestAndNewFormAChain_of_no_height {value : Value}
    (h : ∀ height, value.getHeight ≠ .ok height) :
    latestAndNewFormAChain value ≠ .ok true := by
  cases value with
  | bcBlock b => exact absurd rfl (h b.height)
  | block b => exact absurd rfl (h b.height)
  | header b => exact absurd rfl (h b.height)
  | string text => rw [latestAndNewFormAChain]; split <;> simp
  | number n => rw [latestAndNewFormAChain]; split <;> simp
  | names list => simp [latestAndNewFormAChain]
  | appVersion version commit dbVersion => simp [latestAndNewFormAChain]

/-- No call replaces it. -/
theorem collectBlock_safe_of_no_height {label : String} {value : Value}
    (hvalue : ∀ height, value.getHeight ≠ .ok height) {b : Block}
    (hlabel : b.blockchain = label) {s : Store}
    (hs : s (blockKey label .latest) = some value) :
    Task.Safe (fun s s' => s (blockKey label .latest) = some value →
        s' (blockKey label .latest) = some value)
      (fun _ _ => True) (ExceptT.run (collectBlock b)) s := by
  rw [collectBlock_eq]
  intro s' hrely
  refine ⟨id, ?_⟩
  rw [afterRead, getIn, hlabel, id, hrely hs]
  have hchain := latestAndNewFormAChain_of_no_height hvalue
  dsimp only
  cases hread : latestAndNewFormAChain value with
  | error e => exact fun _ _ => trivial
  | ok chain =>
      cases chain with
      | true => exact absurd hread hchain
      | false =>
          intro s₁ _
          refine ⟨fun hs₁ => ?_, fun _ _ => trivial⟩
          exact (Store.set_ne s₁ (blockKey_latest_ne_height label b.height) _).trans hs₁

theorem calls_latest_of_no_height {label : String} {start : Store} {blocks : List Block}
    (hlabels : ∀ b ∈ blocks, b.blockchain = label) {value : Value}
    (hlatest : start (blockKey label .latest) = some value)
    (hvalue : ∀ height, value.getHeight ≠ .ok height) (schedule : List Nat) :
    ((calls blocks start).exec schedule).state (blockKey label .latest) = some value := by
  have hsafe (b : Block) (hb : b ∈ blocks) :=
    collectBlock_safe_of_no_height hvalue (hlabels b hb) hlatest
  have hexec := Pool.exec_map (by exact fun _ => id) (by exact fun _ _ _ h h' => h' ∘ h)
    hsafe schedule
  exact hexec.1 hlatest

/-! ## All calls -/

/-- No two different blocks have one height. -/
def NoRivals (blocks : List Block) : Prop :=
  ∀ b ∈ blocks, ∀ c ∈ blocks, b.height = c.height → b = c

theorem calls_nil_exec (start : Store) (schedule : List Nat) :
    ((calls [] start).exec schedule).state = start := by
  have hsafe : ∀ b ∈ ([] : List Block), Task.Safe (fun s s' => s' = s)
      (fun _ _ => True) (ExceptT.run (collectBlock b)) start := fun b hb => by cases hb
  have hexec := Pool.exec_map (by exact fun _ => rfl)
    (by exact fun _ _ _ h h' => h'.trans h) hsafe schedule
  exact hexec.1

/-- The latest block, when all calls have finished, is one of theirs. -/
theorem calls_latest {label : String} {start : Store} {blocks : List Block}
    (hlabels : ∀ b ∈ blocks, b.blockchain = label) {schedule : List Nat}
    (hfinished : ((calls blocks start).exec schedule).Finished) {value : Value}
    {height : Nat}
    (hlatest : ((calls blocks start).exec schedule).state (blockKey label .latest) =
      some value) (hheight : value.getHeight = .ok height) :
    blocks = [] ∨ Readable label start ∧
      ∃ b ∈ blocks, value = .block b ∧ b.height = height ∧
        Filed label blocks height ((calls blocks start).exec schedule).state := by
  by_cases hreadable : Readable label start
  · by_cases hnil : blocks = []
    · exact Or.inl hnil
    · obtain ⟨a, ha⟩ := List.exists_mem_of_ne_nil blocks hnil
      obtain ⟨b, hb, hlanded⟩ := (calls_collected hlabels hreadable hfinished ha).1
      rw [hlanded] at hlatest
      cases hlatest
      cases hheight
      exact Or.inr ⟨hreadable, b, hb, rfl, rfl,
        (calls_collected hlabels hreadable hfinished hb).2⟩
  · obtain ⟨value', hvalue', hno⟩ : ∃ value', start (blockKey label .latest) = some value' ∧
        ∀ height, value'.getHeight ≠ .ok height := by simpa [Readable] using hreadable
    rw [calls_latest_of_no_height hlabels hvalue' hno schedule] at hlatest
    cases hlatest
    exact absurd hheight (hno height)

/-- **Calls that interleave.**  When all have finished, the latest block or another of
the calls' blocks with the same height is stored under its height.  It is the latest
block itself in every interleaving exactly if no two calls bring different blocks of
one height, unless the latest key holds something that is no block to begin with. -/
theorem calls_consistent_iff {label : String} (start : Store) {blocks : List Block}
    (hlabels : ∀ b ∈ blocks, b.blockchain = label)
    (hstart : blocks = [] → Consistent label start) :
    (∀ schedule, ((calls blocks start).exec schedule).Finished →
      ConsistentUpTo label blocks ((calls blocks start).exec schedule).state) ∧
    ((∀ schedule, ((calls blocks start).exec schedule).Finished →
        Consistent label ((calls blocks start).exec schedule).state) ↔
      (Readable label start → NoRivals blocks)) := by
  refine ⟨?_, ?_, ?_⟩
  · intro schedule hfinished value height hlatest hheight
    rcases calls_latest hlabels hfinished hlatest hheight with rfl | ⟨_, _, _, _, _, hfiled⟩
    · rw [calls_nil_exec] at hlatest ⊢
      exact Or.inl (hstart rfl value height hlatest hheight)
    · exact Or.inr hfiled
  · intro hconsistent hreadable b hb c hc hheight
    by_contra hne
    obtain ⟨schedule, hfinished, hnot⟩ :=
      calls_separated hlabels hreadable hb hc hheight hne
    exact hnot (hconsistent schedule hfinished)
  · intro hrivals schedule hfinished value height hlatest hheight
    rcases calls_latest hlabels hfinished hlatest hheight with
      rfl | ⟨hreadable, b, hb, rfl, hbheight, c, hc, hcheight, hfiled⟩
    · rw [calls_nil_exec] at hlatest ⊢
      exact hstart rfl value height hlatest hheight
    · rw [hfiled, hrivals hreadable c hc b hb (hcheight.trans hbheight.symm)]

/-- A rovered block of height 7. -/
def roveredBlock (hash : String) : Block where
  blockchain := "btc"
  hash := hash
  previousHash := "6"
  timestamp := 0
  height := 7
  merkleRoot := ""

theorem calls_consistent_iff_sample :
    Consistent "btc" ((calls [roveredBlock "7a", roveredBlock "7a"] Store.empty).exec
      [0, 1, 0, 1, 1, 0]).state ∧
    ConsistentUpTo "btc" [roveredBlock "7a", roveredBlock "7b"]
      ((calls [roveredBlock "7a", roveredBlock "7b"] Store.empty).exec
        [0, 1, 0, 1, 1, 0]).state := by
  have hsame := @calls_consistent_iff "btc" Store.empty
    [roveredBlock "7a", roveredBlock "7a"] (by decide) (by simp)
  have hrivals := @calls_consistent_iff "btc" Store.empty
    [roveredBlock "7a", roveredBlock "7b"] (by decide) (by simp)
  refine ⟨hsame.2.2 ?_ _ (by decide +kernel), hrivals.1 _ (by decide +kernel)⟩
  intro _
  simp [NoRivals]

/-- Two different blocks of one height, called for at the same time. -/
theorem rivals_crossing :
    ((calls [roveredBlock "7a", roveredBlock "7b"] Store.empty).exec
      [0, 1, 0, 1, 1, 0]).Finished ∧
    ((calls [roveredBlock "7a", roveredBlock "7b"] Store.empty).exec
      [0, 1, 0, 1, 1, 0]).state (blockKey "btc" .latest) =
        some (.block (roveredBlock "7b")) ∧
    ((calls [roveredBlock "7a", roveredBlock "7b"] Store.empty).exec
      [0, 1, 0, 1, 1, 0]).state (blockKey "btc" (.height 7)) =
        some (.block (roveredBlock "7a")) ∧
    ¬ Consistent "btc" ((calls [roveredBlock "7a", roveredBlock "7b"] Store.empty).exec
      [0, 1, 0, 1, 1, 0]).state := by
  have hlatest : ((calls [roveredBlock "7a", roveredBlock "7b"] Store.empty).exec
      [0, 1, 0, 1, 1, 0]).state (blockKey "btc" .latest) =
        some (.block (roveredBlock "7b")) := by decide +kernel
  have hfiled : ((calls [roveredBlock "7a", roveredBlock "7b"] Store.empty).exec
      [0, 1, 0, 1, 1, 0]).state (blockKey "btc" (.height 7)) =
        some (.block (roveredBlock "7a")) := by decide +kernel
  refine ⟨by decide +kernel, hlatest, hfiled, ?_⟩
  intro hconsistent
  rw [hconsistent _ 7 hlatest rfl] at hfiled
  exact absurd hfiled (by decide)

end BcNode.Rpc
