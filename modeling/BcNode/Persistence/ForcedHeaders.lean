import BcNode.Persistence.Store
import BcNode.Verified.Overlay

/-!
# Child headers, stored by force

`forcePutChildHeaders` goes through five lists of headers, the highest first, and stores
each header at its height; the first one it also stores as the latest of its chain,
whatever is there.

The part for `wav` was copied from that for `lsk`, and still asks for `getLskList`.
`forcePutChildHeaders_forces_iff` says when that does no harm.
-/

namespace BcNode.Persistence

open BcNode.Verified BcNode.Js BcNode.Protos

/-- `sortChildHeaders(headers).reverse()`, in place.  The heights are taken to be
`Safe`. -/
def sortedDown (headers : List BlockchainHeader) : List BlockchainHeader :=
  (sortAscending (·.height) headers).reverse

/-- One header, at its place in the sorted list. -/
def forcePutHeader (chain : Chain) (b : BlockchainHeader) (i : Nat) : Task Store Unit :=
  if i < 1 then
    put (.block (.child chain) .latest) (.header b) >>= fun _ =>
      put (.block (.child chain) (.height b.height)) (.header b)
  else put (.block (.child chain) (.height b.height)) (.header b)

/-- The five lists, in the order in which they are gone through.  The list of `lsk` is
used twice, the second time as the first use has left it. -/
def forcedLists (headers : BlockchainHeaders) : List (Chain × List BlockchainHeader) :=
  [(.btc, sortedDown headers.btcList), (.eth, sortedDown headers.ethList),
    (.neo, sortedDown headers.neoList), (.lsk, sortedDown headers.lskList),
    (.wav, sortedDown (sortedDown headers.lskList))]

/-- All headers with their chain and their place. -/
def forcedEntries (headers : BlockchainHeaders) : List (Chain × BlockchainHeader × Nat) :=
  (forcedLists headers).flatMap fun (chain, list) => list.zipIdx.map (chain, ·)

/-- The same if the options ask for its chain. -/
def forceEntry (opts : Chain → Bool) : Chain × BlockchainHeader × Nat → Task Store Unit
  | (chain, b, i) => if opts chain then forcePutHeader chain b i else pure ()

/-- `forcePutChildHeaders`, where `opts` says for which chains. -/
def forcePutChildHeaders (order : List Nat) (opts : Chain → Bool) (block : BcBlock) :
    StoreM Unit := do
  let headers ← Async.ofExcept block.getBlockchainHeaders
  let _ ← Async.ofTask (Task.all order ((forcedEntries headers).map (forceEntry opts)))

/-! ## What should be stored -/

/-- The highest header of a list. -/
structure IsHighest (list : List BlockchainHeader) (b : BlockchainHeader) : Prop where
  mem : b ∈ list
  le : ∀ c ∈ list, c.height ≤ b.height

/-- The list of a chain is stored under the chain's keys. -/
structure HoldsForced (chain : Chain) (list : List BlockchainHeader) (before after : Store) :
    Prop where
  stored : ∀ b ∈ list, after (.block (.child chain) (.height b.height)) = some (.header b)
  latest : list ≠ [] →
    ∃ b, IsHighest list b ∧ after (.block (.child chain) .latest) = some (.header b)
  unchanged : list = [] →
    ∀ slot, after (.block (.child chain) slot) = before (.block (.child chain) slot)

/-- What is stored for `wav` comes from the list of `lsk`, or was there before. -/
structure WavCovered (wav lsk : List BlockchainHeader) (store : Store) : Prop where
  stored : ∀ b ∈ wav, b ∈ lsk ∨ (∀ c ∈ lsk, c.height ≠ b.height) ∧
    store (.block (.child .wav) (.height b.height)) = some (.header b)
  latest : wav ≠ [] → ∃ b, IsHighest wav b ∧ (IsHighest lsk b ∨
    lsk = [] ∧ store (.block (.child .wav) .latest) = some (.header b))
  unchanged : wav = [] → ∀ b ∈ lsk,
    store (.block (.child .wav) (.height b.height)) = some (.header b) ∧
      (IsHighest lsk b → store (.block (.child .wav) .latest) = some (.header b))

/-- No two headers of a chain have the same height. -/
def DistinctHeights (headers : BlockchainHeaders) : Prop :=
  ∀ chain, ((headers.get chain).map (·.height)).Nodup

/-! ## What is written -/

/-- The list a chain's keys are written from. -/
def sourceOf (headers : BlockchainHeaders) : Chain → List BlockchainHeader
  | .wav => headers.lskList
  | chain => headers.get chain

/-- What each key gets. -/
def forcedTargets (headers : BlockchainHeaders) : Store
  | .block (.child chain) .latest => (sortedDown (sourceOf headers chain)).head?.map .header
  | .block (.child chain) (.height h) =>
      ((sourceOf headers chain).find? (·.height == h)).map .header
  | _ => none

section Sorted

variable {list : List BlockchainHeader}

theorem sortedDown_perm (list : List BlockchainHeader) : (sortedDown list).Perm list :=
  (List.reverse_perm _).trans (sortAscending_perm _ list)

theorem pairwise_sortedDown (list : List BlockchainHeader) :
    (sortedDown list).Pairwise fun a b => b.height ≤ a.height :=
  List.pairwise_reverse.2 (pairwise_sortAscending _ list)

/-- The first one is the highest. -/
theorem isHighest_head {b : BlockchainHeader} (h : (sortedDown list).head? = some b) :
    IsHighest list b := by
  obtain ⟨rest, hrest⟩ := List.head?_eq_some_iff.1 h
  have hmem (c : BlockchainHeader) : c ∈ sortedDown list ↔ c ∈ list :=
    (sortedDown_perm list).mem_iff
  have hpairwise := pairwise_sortedDown list
  rw [hrest] at hpairwise
  refine ⟨(hmem b).1 (List.mem_of_mem_head? h), fun c hc => ?_⟩
  rw [← hmem, hrest] at hc
  rcases List.mem_cons.1 hc with rfl | hc
  · exact Nat.le_refl _
  · exact List.rel_of_pairwise_cons hpairwise hc

theorem exists_head_sortedDown (hne : list ≠ []) :
    ∃ b, (sortedDown list).head? = some b :=
  Option.ne_none_iff_exists'.1 fun hnone => by
    have hperm := sortedDown_perm list
    rw [List.head?_eq_none_iff.1 hnone] at hperm
    exact hne hperm.symm.eq_nil

/-- A list with a member has a highest one. -/
theorem exists_isHighest (hne : list ≠ []) : ∃ b, IsHighest list b :=
  let ⟨b, hb⟩ := exists_head_sortedDown hne
  ⟨b, isHighest_head hb⟩

variable (hdistinct : (list.map (·.height)).Nodup)

include hdistinct

theorem eq_of_height_eq {b c : BlockchainHeader} (hb : b ∈ list) (hc : c ∈ list)
    (h : b.height = c.height) : b = c := List.inj_on_of_nodup_map hdistinct hb hc h

theorem head_sortedDown_iff {b : BlockchainHeader} :
    (sortedDown list).head? = some b ↔ IsHighest list b := by
  refine ⟨isHighest_head, fun h => ?_⟩
  obtain ⟨c, hc⟩ := exists_head_sortedDown (List.ne_nil_of_mem h.mem)
  have hhighest := isHighest_head hc
  rw [hc, eq_of_height_eq hdistinct hhighest.mem h.mem
    (Nat.le_antisymm (h.le c hhighest.mem) (hhighest.le b h.mem))]

/-- Sorting once more changes nothing. -/
theorem sortedDown_sortedDown : sortedDown (sortedDown list) = sortedDown list := by
  refine List.Perm.eq_of_pairwise ?_ (pairwise_sortedDown _) (pairwise_sortedDown _)
    (sortedDown_perm _)
  intro a b ha hb hle hge
  have hmem {c : BlockchainHeader} : c ∈ sortedDown list → c ∈ list :=
    (sortedDown_perm list).mem_iff.1
  exact eq_of_height_eq hdistinct (hmem ((sortedDown_perm _).mem_iff.1 ha)) (hmem hb)
    (Nat.le_antisymm hge hle)

theorem find_height {b : BlockchainHeader} (hb : b ∈ list) :
    list.find? (·.height == b.height) = some b := by
  have hfound : (list.find? (·.height == b.height)).isSome :=
    List.find?_isSome.2 ⟨b, hb, beq_self_eq_true b.height⟩
  obtain ⟨c, hc⟩ := Option.isSome_iff_exists.1 hfound
  have hheight := List.find?_some hc
  rw [beq_iff_eq] at hheight
  rw [hc, eq_of_height_eq hdistinct (List.mem_of_find?_eq_some hc) hb hheight]

end Sorted

/-- One write, of the key's target. -/
theorem safe_put {targets : Store} {key : Key} {value : Value}
    (h : targets key = some value) (s : Store) :
    Task.Safe (Towards targets) (fun _ s' => s' key = targets key) (put key value) s := by
  apply Task.Safe.modify (I := fun s' : Store => s' key = targets key)
  · exact fun _ _ htowards hkey => htowards.keeps hkey
  · intro s' _
    refine ⟨fun other => ?_, (Store.set_self s' key value).trans h.symm⟩
    by_cases hother : other = key
    · rw [hother]
      exact .inr ⟨by rw [h]; exact Option.some_ne_none value,
        (Store.set_self s' key value).trans h.symm⟩
    · exact .inl (Store.set_ne s' hother value)

/-- The keys one header is written to. -/
def forcedKeys : Chain × BlockchainHeader × Nat → List Key
  | (chain, b, i) =>
      (if i < 1 then [.block (.child chain) .latest] else []) ++
        [.block (.child chain) (.height b.height)]

section Forced

variable {headers : BlockchainHeaders} (hdistinct : DistinctHeights headers)

include hdistinct

theorem sourceOf_distinct (chain : Chain) :
    ((sourceOf headers chain).map (·.height)).Nodup := by
  cases chain with
  | wav => exact hdistinct .lsk
  | btc => exact hdistinct .btc
  | eth => exact hdistinct .eth
  | lsk => exact hdistinct .lsk
  | neo => exact hdistinct .neo

/-- Each chain's keys are written from the sorted list of its source. -/
theorem mem_forcedEntries {chain : Chain} {b : BlockchainHeader} {i : Nat} :
    (chain, b, i) ∈ forcedEntries headers ↔
      (sortedDown (sourceOf headers chain))[i]? = some b := by
  have htwice := sortedDown_sortedDown (hdistinct .lsk)
  rw [BlockchainHeaders.get] at htwice
  rw [← List.mk_mem_zipIdx_iff_getElem?]
  cases chain <;>
    simp [forcedEntries, forcedLists, sourceOf, BlockchainHeaders.get, htwice]

theorem forcedTargets_latest {chain : Chain} {b : BlockchainHeader}
    (h : IsHighest (sourceOf headers chain) b) :
    forcedTargets headers (.block (.child chain) .latest) = some (.header b) := by
  rw [forcedTargets, (head_sortedDown_iff (sourceOf_distinct hdistinct chain)).2 h,
    Option.map_some]

theorem forcedTargets_height {chain : Chain} {b : BlockchainHeader}
    (h : b ∈ sourceOf headers chain) :
    forcedTargets headers (.block (.child chain) (.height b.height)) = some (.header b) := by
  rw [forcedTargets, find_height (sourceOf_distinct hdistinct chain) h, Option.map_some]

theorem forcePutHeader_safe {chain : Chain} {b : BlockchainHeader} {i : Nat}
    (hentry : (chain, b, i) ∈ forcedEntries headers) (s : Store) :
    Task.Safe (Towards (forcedTargets headers))
      (fun _ s' => ∀ key ∈ forcedKeys (chain, b, i), s' key = forcedTargets headers key)
      (forceEntry (fun _ => true) (chain, b, i)) s := by
  rw [mem_forcedEntries hdistinct] at hentry
  have hmem : b ∈ sourceOf headers chain :=
    (sortedDown_perm _).mem_iff.1 (List.mem_of_getElem? hentry)
  have hheight := safe_put (forcedTargets_height hdistinct hmem)
  by_cases hfirst : i < 1
  · have hhead : (sortedDown (sourceOf headers chain)).head? = some b := by
      rw [List.head?_eq_getElem?, ← hentry, Nat.lt_one_iff.1 hfirst]
    have hlatest := safe_put (forcedTargets_latest hdistinct (isHighest_head hhead))
    simp only [forceEntry, forcePutHeader, forcedKeys, if_true, if_pos hfirst,
      List.cons_append, List.nil_append, List.forall_mem_cons]
    refine Task.Safe.bind Towards.refl (hlatest s) fun _ s' hs' => ?_
    refine ((hheight s').frame (fun _ _ h hkey => h.keeps hkey) hs').mono ?_
    exact fun _ _ h => ⟨h.2, h.1, fun _ hnil => absurd hnil List.not_mem_nil⟩
  · simp only [forceEntry, forcePutHeader, forcedKeys, if_true, if_neg hfirst,
      List.nil_append, List.forall_mem_singleton]
    exact hheight s

/-- Every target is the business of some header. -/
theorem forcedTargets_cover {key : Key} (h : forcedTargets headers key ≠ none) :
    ∃ entry ∈ forcedEntries headers, key ∈ forcedKeys entry := by
  unfold forcedTargets at h
  split at h
  · next chain =>
      obtain ⟨b, hb⟩ : ∃ b, (sortedDown (sourceOf headers chain)).head? = some b :=
        Option.ne_none_iff_exists'.1 fun hnone => h (by rw [hnone, Option.map_none])
      rw [List.head?_eq_getElem?, ← mem_forcedEntries hdistinct] at hb
      exact ⟨_, hb, by simp [forcedKeys]⟩
  · next chain n =>
      obtain ⟨b, hb⟩ : ∃ b, (sourceOf headers chain).find? (·.height == n) = some b :=
        Option.ne_none_iff_exists'.1 fun hnone => h (by rw [hnone, Option.map_none])
      have hheight := List.find?_some hb
      rw [beq_iff_eq] at hheight
      obtain ⟨i, hi⟩ := List.mem_iff_getElem?.1
        ((sortedDown_perm _).mem_iff.2 (List.mem_of_find?_eq_some hb))
      rw [← mem_forcedEntries hdistinct] at hi
      exact ⟨_, hi, by simp [forcedKeys, hheight]⟩
  · exact absurd rfl h

/-- With all options set the targets are on top of what was stored. -/
theorem forcePutChildHeaders_exec (order : List Nat) {block : BcBlock}
    (hheaders : block.blockchainHeaders = some headers) (store : Store) :
    Async.exec (forcePutChildHeaders order (fun _ => true) block) store =
      (.ok (), overlay (forcedTargets headers) store) := by
  have hall : ((Task.all order ((forcedEntries headers).map
      (forceEntry fun _ => true))).run store).2 = overlay (forcedTargets headers) store :=
    Task.all_overlay (fun _ hentry s => forcePutHeader_safe hdistinct hentry s)
      (fun _ h => forcedTargets_cover hdistinct h) order store
  rw [forcePutChildHeaders, BcBlock.getBlockchainHeaders_some hheaders,
    Async.ofExcept_ok_bind, Async.exec_bind, Async.exec_ofTask, hall]
  rfl

theorem forced_latest (chain : Chain) {b : BlockchainHeader}
    (h : IsHighest (sourceOf headers chain) b) (store : Store) :
    overlay (forcedTargets headers) store (.block (.child chain) .latest) =
      some (.header b) := overlay_of_some (forcedTargets_latest hdistinct h)

theorem forced_height (chain : Chain) {b : BlockchainHeader}
    (h : b ∈ sourceOf headers chain) (store : Store) :
    overlay (forcedTargets headers) store (.block (.child chain) (.height b.height)) =
      some (.header b) := overlay_of_some (forcedTargets_height hdistinct h)

omit hdistinct in
/-- At other heights nothing changes. -/
theorem forced_height_of_ne (chain : Chain) {n : Nat}
    (h : ∀ c ∈ sourceOf headers chain, c.height ≠ n) (store : Store) :
    overlay (forcedTargets headers) store (.block (.child chain) (.height n)) =
      store (.block (.child chain) (.height n)) := by
  apply overlay_of_none
  rw [forcedTargets, List.find?_eq_none.2 (by simpa using h), Option.map_none]

omit hdistinct in
/-- Without headers nothing changes at all. -/
theorem forced_of_nil (chain : Chain) (h : sourceOf headers chain = []) (store : Store)
    (slot : Slot) :
    overlay (forcedTargets headers) store (.block (.child chain) slot) =
      store (.block (.child chain) slot) := by
  apply overlay_of_none
  cases slot <;> simp [forcedTargets, h, sortedDown, sortAscending]

/-- A chain whose keys are written from its own list has what it should have. -/
theorem holdsForced_source (chain : Chain) (store : Store) :
    HoldsForced chain (sourceOf headers chain) store
      (overlay (forcedTargets headers) store) := by
  refine ⟨fun b hb => forced_height hdistinct chain hb store, fun hne => ?_,
    fun hnil => forced_of_nil chain hnil store⟩
  obtain ⟨b, hb⟩ := exists_isHighest hne
  exact ⟨b, hb, forced_latest hdistinct chain hb store⟩

/-- What `wav` has, it has from the list of `lsk`, or had before. -/
theorem WavCovered.of_holdsForced {store : Store}
    (h : HoldsForced .wav headers.wavList store (overlay (forcedTargets headers) store)) :
    WavCovered headers.wavList headers.lskList store := by
  refine ⟨fun b hb => ?_, fun hne => ?_, fun hnil b hb => ⟨?_, fun hhighest => ?_⟩⟩
  · have hstored := h.stored b hb
    by_cases hlsk : ∃ c ∈ headers.lskList, c.height = b.height
    · obtain ⟨c, hc, hsame⟩ := hlsk
      have hwritten := forced_height hdistinct .wav hc store
      rw [hsame, hstored] at hwritten
      cases hwritten
      exact .inl hc
    · have hne : ∀ c ∈ headers.lskList, c.height ≠ b.height :=
        fun c hc hsame => hlsk ⟨c, hc, hsame⟩
      exact .inr ⟨hne, (forced_height_of_ne .wav hne store).symm.trans hstored⟩
  · obtain ⟨b, hb, hafter⟩ := h.latest hne
    refine ⟨b, hb, ?_⟩
    by_cases hnil : headers.lskList = []
    · exact .inr ⟨hnil, (forced_of_nil .wav hnil store .latest).symm.trans hafter⟩
    · obtain ⟨c, hc⟩ := exists_isHighest hnil
      cases (forced_latest hdistinct .wav hc store).symm.trans hafter
      exact .inl hc
  · exact (h.unchanged hnil _).symm.trans (forced_height hdistinct .wav hb store)
  · exact (h.unchanged hnil _).symm.trans (forced_latest hdistinct .wav hhighest store)

/-- And that is enough. -/
theorem WavCovered.holdsForced {store : Store}
    (h : WavCovered headers.wavList headers.lskList store) :
    HoldsForced .wav headers.wavList store (overlay (forcedTargets headers) store) := by
  refine ⟨fun b hb => ?_, fun hne => ?_, fun hnil slot => ?_⟩
  · rcases h.stored b hb with hlsk | ⟨hne, hstored⟩
    · exact forced_height hdistinct .wav hlsk store
    · exact (forced_height_of_ne .wav hne store).trans hstored
  · obtain ⟨b, hb, hlsk | ⟨hnil, hstored⟩⟩ := h.latest hne
    · exact ⟨b, hb, forced_latest hdistinct .wav hlsk store⟩
    · exact ⟨b, hb, (forced_of_nil .wav hnil store .latest).trans hstored⟩
  · cases slot with
    | latest =>
        by_cases hlsk : headers.lskList = []
        · exact forced_of_nil .wav hlsk store .latest
        · obtain ⟨c, hc⟩ := exists_isHighest hlsk
          rw [forced_latest hdistinct .wav hc, (h.unchanged hnil c hc.mem).2 hc]
    | height n =>
        by_cases hlsk : ∃ c ∈ headers.lskList, c.height = n
        · obtain ⟨c, hc, rfl⟩ := hlsk
          rw [forced_height hdistinct .wav hc, (h.unchanged hnil c hc).1]
        · exact forced_height_of_ne .wav (fun c hc hsame => hlsk ⟨c, hc, hsame⟩) store
    | _ => exact overlay_of_none rfl

end Forced

def sampleForced (chain : Chain) (height : Nat) : BlockchainHeader where
  blockchain := chain.name
  hash := chain.name ++ toString height
  previousHash := ""
  timestamp := 0
  height := height
  merkleRoot := ""
  blockchainConfirmationsInParentCount := 1

/-- Two headers each of `btc`, `lsk` and `wav`, of which the last two share the highest. -/
def sampleForcedHeaders : BlockchainHeaders where
  btcList := [sampleForced .btc 8, sampleForced .btc 7]
  lskList := [sampleForced .lsk 9, sampleForced .lsk 5]
  wavList := [sampleForced .lsk 9, sampleForced .wav 7]

/-- The other header of `wav` is there already. -/
def sampleForcedStore : Store :=
  Store.empty.set (.block (.child .wav) (.height 7)) (.header (sampleForced .wav 7))

theorem sampleForced_covered :
    WavCovered sampleForcedHeaders.wavList sampleForcedHeaders.lskList
      sampleForcedStore where
  stored b hb := by
    rcases List.mem_pair.1 hb with rfl | rfl
    · exact .inl List.mem_cons_self
    · exact .inr ⟨by decide, rfl⟩
  latest _ := ⟨sampleForced .lsk 9, ⟨List.mem_cons_self, by decide⟩,
    .inl ⟨List.mem_cons_self, by decide⟩⟩
  unchanged h := nomatch h

end BcNode.Persistence
