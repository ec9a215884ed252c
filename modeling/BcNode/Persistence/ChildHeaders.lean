import BcNode.Persistence.Store
import BcNode.Verified.Pool

/-!
# The child headers of a block

`putChildHeaders` starts one promise for every header of a block, all at once.
Each reads the latest header of its chain, and makes its own header the latest one
if that is higher, so that the highest one should stay.

A header that has read the store does not look again before it writes.  While at
most one header of a chain is above the latest block, nothing can come between
(`HeaderRely` is what the promises rely on).  As soon as there are two heights to
choose from, the lower header may read first and write last, and the chain's
latest block ends below the highest one.
-/

namespace BcNode.Persistence

open BcNode.Verified BcNode.Js BcNode.Protos

/-! ## What the highest header is -/

/-- The height of a chain's latest block, as far as the store has one. -/
def latestHeight (store : Store) (chain : Chain) : Option Nat :=
  (getIn store (.block (.child chain) .latest) >>= Value.getHeight).toOption

/-- A header above the latest block. -/
def Above (previous : Option Nat) (b : BlockchainHeader) : Prop :=
  ∀ height ∈ previous, height < b.height

instance (previous : Option Nat) (b : BlockchainHeader) : Decidable (Above previous b) :=
  inferInstanceAs (Decidable (∀ height ∈ previous, height < b.height))

/-- The headers of a block are stored and the highest one is the latest. -/
structure KeepsHighest (headers : BlockchainHeaders) (before after : Store) : Prop where
  stored : ∀ chain, ∀ b ∈ headers.get chain,
    after (.block (.child chain) (.height b.height)) = some (.header b)
  latest : ∀ chain, latestHeight after chain =
    ((latestHeight before chain).toList ++ (headers.get chain).map (·.height)).max?

/-- The headers of one chain do not get into each other's way: no two different ones
share a key, and those above the latest block all have one height. -/
structure Untangled (previous : Option Nat) (list : List BlockchainHeader) : Prop where
  distinct : ∀ a ∈ list, ∀ b ∈ list, a.height = b.height → a = b
  single : ∀ a ∈ list, ∀ b ∈ list, Above previous a → Above previous b →
    a.height = b.height

theorem latestHeight_eq {s s' : Store} {chain : Chain}
    (h : s' (.block (.child chain) .latest) = s (.block (.child chain) .latest)) :
    latestHeight s' chain = latestHeight s chain := by
  rw [latestHeight, latestHeight, getIn, getIn, h]

theorem latestHeight_of_header {s : Store} {chain : Chain} {b : BlockchainHeader}
    (h : s (.block (.child chain) .latest) = some (.header b)) :
    latestHeight s chain = some b.height := by
  rw [latestHeight, getIn, h]
  rfl

theorem Above.of_le {previous : Option Nat} {a b : BlockchainHeader}
    (h : Above previous a) (hle : a.height ≤ b.height) : Above previous b :=
  fun height hmem => Nat.lt_of_lt_of_le (h height hmem) hle

/-! ## One header -/

/-- The two writes that make a header the latest one. -/
def putAsLatest (order : List Nat) (chain : Chain) (b : BlockchainHeader) :
    Task Store Unit :=
  Task.all order ([Slot.latest, .height b.height].map fun slot =>
    put (.block (.child chain) slot) (.header b)) >>= fun _ => pure ()

/-- One header reads the latest height, and decides on what it has read. -/
theorem putChildHeader_eq (order : List Nat) (chain : Chain) (b : BlockchainHeader) :
    putChildHeader order chain b = Task.act id fun store =>
      if Above (latestHeight store chain) b then putAsLatest order chain b
      else put (.block (.child chain) (.height b.height)) (.header b) := by
  simp only [putChildHeader, Task.read, Task.bind_act, Task.bind_done]
  congr 1
  funext store
  rw [latestHeight]
  cases getIn store (.block (.child chain) .latest) >>= Value.getHeight with
  | ok height => simp [Above, Except.toOption, putAsLatest]
  | error e => simp [Above, Except.toOption, putAsLatest]

/-! ## What the promises rely on -/

section Chain

variable (chain : Chain) (start : Store) (list : List BlockchainHeader)

/-- A header is stored at its height. -/
def Stored (b : BlockchainHeader) (s : Store) : Prop :=
  s (.block (.child chain) (.height b.height)) = some (.header b)

/-- The latest block is a header that is above the one from the start. -/
def Raised (s : Store) : Prop :=
  ∃ a ∈ list, Above (latestHeight start chain) a ∧
    s (.block (.child chain) .latest) = some (.header a)

/-- The latest block is the one from the start or above it. -/
def RaisedOrSame (s : Store) : Prop :=
  s (.block (.child chain) .latest) = start (.block (.child chain) .latest) ∨
    Raised chain start list s

/-- What every write of a header does to the keys of one chain. -/
structure HeaderRely (s s' : Store) : Prop where
  latest : RaisedOrSame chain start list s → RaisedOrSame chain start list s'
  raised : Raised chain start list s → Raised chain start list s'
  stored : ∀ b ∈ list, Stored chain b s → Stored chain b s'

variable {chain start list}

theorem HeaderRely.refl (s : Store) : HeaderRely chain start list s s :=
  ⟨id, id, fun _ _ => id⟩

theorem HeaderRely.trans (s₁ s₂ s₃ : Store) (h : HeaderRely chain start list s₁ s₂)
    (h' : HeaderRely chain start list s₂ s₃) : HeaderRely chain start list s₁ s₃ :=
  ⟨h'.latest ∘ h.latest, h'.raised ∘ h.raised,
    fun b hb => h'.stored b hb ∘ h.stored b hb⟩

/-- The other chains' keys do not matter. -/
theorem HeaderRely.of_frame (s s' : Store)
    (h : ∀ slot, s' (.block (.child chain) slot) = s (.block (.child chain) slot)) :
    HeaderRely chain start list s s' := by
  constructor
  · simp only [RaisedOrSame, Raised, h, imp_self]
  · simp only [Raised, h, imp_self]
  · simp only [Stored, h, imp_self, implies_true]

theorem HeaderRely.put_latest {b : BlockchainHeader} (hb : b ∈ list)
    (habove : Above (latestHeight start chain) b) (s : Store) :
    HeaderRely chain start list s (s.set (.block (.child chain) .latest) (.header b)) ∧
      Raised chain start list (s.set (.block (.child chain) .latest) (.header b)) := by
  have hraised : Raised chain start list
      (s.set (.block (.child chain) .latest) (.header b)) :=
    ⟨b, hb, habove, Store.set_self ..⟩
  refine ⟨⟨fun _ => Or.inr hraised, fun _ => hraised, ?_⟩, hraised⟩
  intro a _ ha
  rw [Stored, Store.set_ne _ (by simp)]
  exact ha

theorem HeaderRely.put_height
    (hdistinct : ∀ a ∈ list, ∀ b ∈ list, a.height = b.height → a = b)
    {b : BlockchainHeader} (hb : b ∈ list) (s : Store) :
    HeaderRely chain start list s
        (s.set (.block (.child chain) (.height b.height)) (.header b)) ∧
      Stored chain b (s.set (.block (.child chain) (.height b.height)) (.header b)) := by
  have hlatest : s.set (.block (.child chain) (.height b.height)) (.header b)
      (.block (.child chain) .latest) = s (.block (.child chain) .latest) :=
    Store.set_ne _ (by simp) _
  refine ⟨⟨?_, ?_, ?_⟩, Store.set_self ..⟩
  · simp only [RaisedOrSame, Raised, hlatest, imp_self]
  · simp only [Raised, hlatest, imp_self]
  · intro a ha hstored
    by_cases hheight : a.height = b.height
    · rw [hdistinct a ha b hb hheight]
      exact Store.set_self ..
    · rw [Stored, Store.set_ne _ (by simpa using hheight)]
      exact hstored

/-- What one header has done when its promise resolves. -/
def Settled (chain : Chain) (start : Store) (list : List BlockchainHeader)
    (b : BlockchainHeader) (s : Store) : Prop :=
  Stored chain b s ∧ (Above (latestHeight start chain) b → Raised chain start list s)

theorem Settled.rely {b : BlockchainHeader} (hb : b ∈ list) (s s' : Store)
    (h : HeaderRely chain start list s s') (hs : Settled chain start list b s) :
    Settled chain start list b s' :=
  ⟨h.stored b hb hs.1, fun habove => h.raised (hs.2 habove)⟩

theorem putAsLatest_safe (order : List Nat)
    (hdistinct : ∀ a ∈ list, ∀ b ∈ list, a.height = b.height → a = b)
    {b : BlockchainHeader} (hb : b ∈ list) (habove : Above (latestHeight start chain) b)
    (s : Store) :
    Task.Safe (HeaderRely chain start list) (fun _ s' => Settled chain start list b s')
      (putAsLatest order chain b) s := by
  -- what each of the two writes promises
  let Q (slot : Slot) (s : Store) : Prop :=
    if slot = .latest then Raised chain start list s else Stored chain b s
  have hQ (slot : Slot) (s s' : Store) (h : HeaderRely chain start list s s') :
      Q slot s → Q slot s' := by
    by_cases hslot : slot = .latest
    · simpa only [Q, if_pos hslot] using h.raised
    · simpa only [Q, if_neg hslot] using h.stored b hb
  have hwrites : ∀ slot ∈ [Slot.latest, .height b.height],
      Task.Safe (HeaderRely chain start list) (fun _ s' => Q slot s')
        (put (.block (.child chain) slot) (.header b)) s := by
    simp only [List.mem_cons, List.not_mem_nil, or_false, forall_eq_or_imp, forall_eq]
    constructor
    · exact Task.Safe.modify (hQ .latest) fun s' _ =>
        HeaderRely.put_latest hb habove s'
    · exact Task.Safe.modify (hQ (.height b.height)) fun s' _ =>
        HeaderRely.put_height hdistinct hb s'
  have hall := Task.Safe.all_map HeaderRely.refl HeaderRely.trans hQ order hwrites
  apply Task.Safe.bind HeaderRely.refl hall
  intro _ s₁ hboth s₂ hs₂
  have hraised : Raised chain start list s₁ := hboth .latest (by simp)
  have hstored : Stored chain b s₁ := hboth (.height b.height) (by simp)
  exact Settled.rely hb s₁ s₂ hs₂ ⟨hstored, fun _ => hraised⟩

/-- Whatever the others do meanwhile, a header settles. -/
theorem putChildHeader_safe (order : List Nat)
    (hdistinct : ∀ a ∈ list, ∀ b ∈ list, a.height = b.height → a = b)
    {b : BlockchainHeader} (hb : b ∈ list) {s : Store}
    (hs : RaisedOrSame chain start list s) :
    Task.Safe (HeaderRely chain start list) (fun _ s' => Settled chain start list b s')
      (putChildHeader order chain b) s := by
  rw [putChildHeader_eq]
  intro s' hrely
  refine ⟨HeaderRely.refl _, ?_⟩
  simp only [id]
  split
  · next hread =>
      -- a header that was raised meanwhile is only higher
      have habove : Above (latestHeight start chain) b := by
        rcases hrely.latest hs with hsame | ⟨a, _, ha, hlatest⟩
        · rwa [latestHeight_eq hsame] at hread
        · rw [latestHeight_of_header hlatest] at hread
          exact ha.of_le (Nat.le_of_lt (hread _ rfl))
      exact putAsLatest_safe order hdistinct hb habove s'
  · next hread =>
      have hraised (habove : Above (latestHeight start chain) b) :
          Raised chain start list s' := by
        rcases hrely.latest hs with hsame | hraised
        · rw [latestHeight_eq hsame] at hread
          exact absurd habove hread
        · exact hraised
      apply Task.Safe.modify (fun s s' => Settled.rely hb s s')
      intro s₁ hs₁
      obtain ⟨hput, hstored⟩ :=
        @HeaderRely.put_height chain start list hdistinct b hb s₁
      exact ⟨hput, hstored, fun habove => hput.raised (hs₁.raised (hraised habove))⟩

/-- Once the headers have settled, the latest one is the highest. -/
theorem latestHeight_of_settled (huntangled : Untangled (latestHeight start chain) list)
    {s : Store} (hlatest : RaisedOrSame chain start list s)
    (hsettled : ∀ b ∈ list, Settled chain start list b s) :
    latestHeight s chain =
      ((latestHeight start chain).toList ++ list.map (·.height)).max? := by
  symm
  by_cases habove : ∃ a ∈ list, Above (latestHeight start chain) a
  · obtain ⟨a, ha, hhigh⟩ := habove
    obtain ⟨c, hc, hchigh, hclatest⟩ := (hsettled a ha).2 hhigh
    rw [latestHeight_of_header hclatest, List.max?_eq_some_iff]
    refine ⟨List.mem_append_right _ (List.mem_map_of_mem hc), ?_⟩
    intro height hmem
    rcases List.mem_append.1 hmem with hprev | hhead
    · exact Nat.le_of_lt (hchigh height (Option.mem_toList.1 hprev))
    · obtain ⟨b, hb, rfl⟩ := List.mem_map.1 hhead
      by_cases hle : b.height ≤ c.height
      · exact hle
      · have hbhigh := hchigh.of_le (Nat.le_of_not_le hle)
        exact (huntangled.single b hb c hc hbhigh hchigh).le
  · have hsame : latestHeight s chain = latestHeight start chain := by
      rcases hlatest with hsame | ⟨a, ha, hhigh, _⟩
      · exact latestHeight_eq hsame
      · exact absurd ⟨a, ha, hhigh⟩ habove
    rw [hsame]
    have hlow (b : BlockchainHeader) (hb : b ∈ list) :
        ¬ Above (latestHeight start chain) b := fun hhigh => habove ⟨b, hb, hhigh⟩
    cases hprev : latestHeight start chain with
    | none =>
        rw [hprev] at hlow
        have hnil : list = [] := by
          cases list with
          | nil => rfl
          | cons b rest => exact absurd (by simp [Above]) (hlow b List.mem_cons_self)
        rw [hnil]
        rfl
    | some height =>
        rw [hprev] at hlow
        rw [List.max?_eq_some_iff]
        refine ⟨by simp, ?_⟩
        intro height' hmem
        rcases List.mem_append.1 hmem with hself | hhead
        · exact (Option.some.inj (Option.mem_toList.1 hself)).ge
        · obtain ⟨b, hb, rfl⟩ := List.mem_map.1 hhead
          have hlowb := hlow b hb
          simpa [Above] using hlowb

end Chain

/-! ## All headers -/

/-- The headers in the order in which their promises are started, each with its
place among those of its chain. -/
def headerEntries (headers : BlockchainHeaders) :
    List (Chain × BlockchainHeader × Nat) :=
  [Chain.btc, .eth, .wav, .lsk, .neo].flatMap fun chain =>
    (sortAscending (·.height) (headers.get chain)).zipIdx.map fun entry => (chain, entry)

theorem mem_of_headerEntries {headers : BlockchainHeaders} {chain : Chain}
    {b : BlockchainHeader} {n : Nat} (h : (chain, b, n) ∈ headerEntries headers) :
    b ∈ headers.get chain := by
  obtain ⟨c, _, hc⟩ := List.mem_flatMap.1 h
  obtain ⟨entry, hentry, heq⟩ := List.mem_map.1 hc
  cases heq
  rw [List.mk_mem_zipIdx_iff_getElem?] at hentry
  exact (sortAscending_perm _ _).mem_iff.1 (List.mem_of_getElem? hentry)

theorem exists_headerEntries {headers : BlockchainHeaders} {chain : Chain}
    {b : BlockchainHeader} (h : b ∈ headers.get chain) :
    ∃ n, (chain, b, n) ∈ headerEntries headers := by
  have hchain : chain ∈ [Chain.btc, .eth, .wav, .lsk, .neo] := by cases chain <;> decide
  have hsorted : b ∈ sortAscending (·.height) (headers.get chain) :=
    (sortAscending_perm _ _).mem_iff.2 h
  obtain ⟨n, hn⟩ := List.mem_iff_getElem?.1 hsorted
  refine ⟨n, List.mem_flatMap.2 ⟨chain, hchain, List.mem_map.2 ⟨(b, n), ?_, rfl⟩⟩⟩
  exact List.mk_mem_zipIdx_iff_getElem?.2 hn

/-- The promise of an entry. -/
def headerTask (completion : Completion) (entry : Chain × BlockchainHeader × Nat) :
    Task Store Unit :=
  putChildHeader (completion.writes entry.1 entry.2.2) entry.1 entry.2.1

theorem putChildHeaders_run {block : BcBlock} {headers : BlockchainHeaders}
    (hheaders : block.getBlockchainHeaders = .ok headers) (completion : Completion)
    (store : Store) :
    (Async.exec (putChildHeaders completion block) store).2 =
      ((Task.all completion.headers
        ((headerEntries headers).map (headerTask completion))).run store).2 := by
  have htasks : (headerEntries headers).map (headerTask completion) =
      [Chain.btc, .eth, .wav, .lsk, .neo].flatMap fun chain =>
        (sortAscending (·.height) (headers.get chain)).zipIdx.map fun entry =>
          putChildHeader (completion.writes chain entry.2) chain entry.1 := by
    simp only [headerEntries, List.map_flatMap, List.map_map]
    rfl
  rw [htasks]
  simp only [putChildHeaders, hheaders, Async.ofExcept_ok_bind, Async.exec_bind,
    Async.exec_ofTask, Async.exec_pure]

/-- One header's promise, seen from a chain: its own header settles, and another
chain's stays out of its keys. -/
theorem headerTask_safe (completion : Completion) {headers : BlockchainHeaders}
    {chain : Chain} {store : Store}
    (hdistinct : ∀ a ∈ headers.get chain, ∀ b ∈ headers.get chain,
      a.height = b.height → a = b)
    {entry : Chain × BlockchainHeader × Nat} (hentry : entry ∈ headerEntries headers) :
    Task.Safe (HeaderRely chain store (headers.get chain))
      (fun _ s' => entry.1 = chain →
        Settled chain store (headers.get chain) entry.2.1 s')
      (headerTask completion entry) store := by
  obtain ⟨chain', b, n⟩ := entry
  rw [headerTask]
  by_cases hsame : chain' = chain
  · subst hsame
    refine (putChildHeader_safe _ hdistinct (mem_of_headerEntries hentry)
      (Or.inl rfl)).mono ?_
    exact fun _ _ hsettled _ => hsettled
  · have halways (order : List Nat) : Task.Always
        (fun s s' => ∀ slot, s' (.block (.child chain) slot) = s (.block (.child chain) slot))
        (putChildHeader order chain' b) :=
      putChildHeader_always (fun _ _ => rfl) order chain' b
        fun s slot _ slot' => Store.set_ne s (by simp [Ne.symm hsame]) _
    have hsafe (order : List Nat) : Task.Safe
        (HeaderRely chain store (headers.get chain)) (fun _ _ => True)
        (putChildHeader order chain' b) store :=
      Task.Safe.of_always HeaderRely.of_frame (fun _ _ _ => id) (halways order) trivial
    exact (hsafe _).mono fun _ _ _ heq => absurd heq hsame

theorem headerTasks_settled (completion : Completion) {headers : BlockchainHeaders}
    {chain : Chain}
    (hdistinct : ∀ a ∈ headers.get chain, ∀ b ∈ headers.get chain,
      a.height = b.height → a = b) (store : Store) (order : List Nat) :
    RaisedOrSame chain store (headers.get chain)
        ((Task.all order ((headerEntries headers).map (headerTask completion))).run
          store).2 ∧
      ∀ b ∈ headers.get chain, Settled chain store (headers.get chain) b
        ((Task.all order ((headerEntries headers).map (headerTask completion))).run
          store).2 := by
  have hkept (entry : Chain × BlockchainHeader × Nat) (s s' : Store)
      (hrely : HeaderRely chain store (headers.get chain) s s')
      (h : entry ∈ headerEntries headers → entry.1 = chain →
        Settled chain store (headers.get chain) entry.2.1 s)
      (hentry : entry ∈ headerEntries headers) (hsame : entry.1 = chain) :
      Settled chain store (headers.get chain) entry.2.1 s' := by
    refine Settled.rely ?_ s s' hrely (h hentry hsame)
    rw [← hsame]
    exact mem_of_headerEntries hentry
  have hall := Task.Safe.all_map HeaderRely.refl HeaderRely.trans hkept order
    fun entry hentry => (headerTask_safe completion hdistinct hentry).mono
      fun _ _ hsettled _ => hsettled
  obtain ⟨hsettled, hlatest⟩ :=
    (hall.frame (fun _ _ h => h.latest) (Or.inl rfl)).run HeaderRely.refl
  refine ⟨hlatest, ?_⟩
  intro b hb
  obtain ⟨n, hentry⟩ := exists_headerEntries hb
  exact hsettled (chain, b, n) hentry hentry rfl

/-- If the headers are untangled, the highest stays, whatever the order. -/
theorem putChildHeaders_keepsHighest {block : BcBlock} {headers : BlockchainHeaders}
    (hheaders : block.getBlockchainHeaders = .ok headers) {store : Store}
    (huntangled : ∀ chain, Untangled (latestHeight store chain) (headers.get chain))
    (completion : Completion) :
    KeepsHighest headers store
      (Async.exec (putChildHeaders completion block) store).2 := by
  rw [putChildHeaders_run hheaders]
  have hchain (chain : Chain) := headerTasks_settled completion
    (huntangled chain).distinct store completion.headers
  constructor
  · intro chain b hb
    exact ((hchain chain).2 b hb).1
  · intro chain
    exact latestHeight_of_settled (huntangled chain) (hchain chain).1 (hchain chain).2

/-! ## The last writer -/

theorem putAsLatest_run (chain : Chain) (b : BlockchainHeader) (s : Store) :
    ((putAsLatest [] chain b).run s).2 (.block (.child chain) .latest) =
      some (.header b) := by
  show ((s.set _ _).set _ _) _ = _
  rw [Store.set_ne _ (by simp), Store.set_self]

/-- Any header above the latest block can end as the latest one: it reads the store
first, waits until all the others have finished, and writes. -/
theorem putChildHeaders_last_writer {block : BcBlock} {headers : BlockchainHeaders}
    (hheaders : block.getBlockchainHeaders = .ok headers) (store : Store) {chain : Chain}
    {a : BlockchainHeader} (ha : a ∈ headers.get chain)
    (habove : Above (latestHeight store chain) a) :
    ∃ completion, latestHeight
      (Async.exec (putChildHeaders completion block) store).2 chain = some a.height := by
  obtain ⟨n, hentry⟩ := exists_headerEntries ha
  obtain ⟨i, hget⟩ := List.mem_iff_getElem?.1 hentry
  have hi : ((headerEntries headers).map (headerTask {}))[i]? =
      some (putChildHeader [] chain a) := by
    rw [List.getElem?_map, hget]
    rfl
  rw [putChildHeader_eq] at hi
  let start : Pool Store Unit := ⟨store, (headerEntries headers).map (headerTask {})⟩
  have hread : start.step i =
      ⟨store, ((headerEntries headers).map (headerTask {})).set i
        (putAsLatest [] chain a)⟩ := by
    rw [@Pool.step_act _ _ start i _ _ hi, if_pos habove]
    rfl
  have hwaits : (start.step i).tasks[i]? = some (putAsLatest [] chain a) := by
    rw [hread]
    exact (Task.getElem?_set_iff hi).2 (Or.inl ⟨rfl, rfl⟩)
  obtain ⟨others, hkeep, hdone⟩ := Pool.exec_finish_except [i] (start.step i)
  have hstill : ((start.step i).exec others).tasks[i]? = some (putAsLatest [] chain a) := by
    rw [hkeep i List.mem_cons_self, hwaits]
  obtain ⟨last, hlast⟩ := Pool.exec_finish hstill
  have hexec : start.exec (i :: (others ++ last)) =
      ((start.step i).exec others).exec last := Pool.exec_append (start.step i) others last
  have hfinished : (start.exec (i :: (others ++ last))).Finished := by
    intro t ht
    obtain ⟨j, hj⟩ := List.mem_iff_getElem?.1 ht
    rw [hexec, hlast] at hj
    rcases (Task.getElem?_set_iff hstill).1 hj with ⟨_, rfl⟩ | ⟨hne, hold⟩
    · exact ⟨_, rfl⟩
    · exact hdone j (by simpa using hne) t hold
  refine ⟨{ headers := i :: (others ++ last) }, ?_⟩
  apply latestHeight_of_header
  rw [putChildHeaders_run hheaders]
  show ((Task.all (i :: (others ++ last))
    ((headerEntries headers).map (headerTask {}))).run store).2 _ = _
  rw [Pool.all_run_of_finished hfinished, hexec, hlast]
  exact putAsLatest_run chain a _

/-- A header of the sample blocks below. -/
def btcHeader (height : Nat) : BlockchainHeader where
  blockchain := "btc"
  hash := s!"b{height}"
  previousHash := s!"b{height - 1}"
  timestamp := 0
  height := height
  merkleRoot := ""
  blockchainConfirmationsInParentCount := 0

/-- A block with the given headers of one chain. -/
def btcBlock (list : List BlockchainHeader) : BcBlock where
  height := 2
  blockchainHeaders := some { btcList := list }

/-- The latest block of the chain is at height 9. -/
def btcStore : Store :=
  Store.empty.set (.block (.child .btc) .latest) (.header (btcHeader 9))

/-- The promise of the lower header reads first and writes last. -/
def lowerLast : Completion where
  headers := [0, 1, 1, 1, 0, 0]

end BcNode.Persistence
