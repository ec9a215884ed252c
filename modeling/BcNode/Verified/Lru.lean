import BcNode.Verified.Run
import Mathlib.Data.Finset.Card

/-!
# Least recently used

A cache that holds the keys it has been used for last, the latest of them first.
`use` is a `set`, or a `get` that finds its key; a `has` does not change the cache.  The
caches of a library are an `LruCache`, of which no more is taken for granted than what is
documented of such caches.

What a cache can be relied on for: a key that has been used stays for as long as fewer
other keys than the cache has room for are used after it.  `Remembers` says so of the
cache and the log of its uses.  Where a key is taken up only when the cache does not
know it, the keys taken up are `Spaced`, and as long as there are no more keys than the
cache has room for none of them is taken up twice (`Spaced.nodup`).
-/

namespace BcNode.Verified

/-- A library of caches, as far as their keys go. -/
structure LruCache where
  /-- The keys of a cache for `max` of them, after it has been used for `key`. -/
  use {κ : Type} [DecidableEq κ] (max : Nat) (cache : List κ) (key : κ) : List κ
  /-- The key becomes the latest, and the others keep their order. -/
  use_prefix {κ : Type} [DecidableEq κ] (max : Nat) (cache : List κ) (key : κ) :
    use max cache key <+: key :: cache.erase key
  /-- Only what there is no room for is dropped.  A `max` of zero would be no limit. -/
  length_use {κ : Type} [DecidableEq κ] (max : Nat) (cache : List κ) (key : κ) :
    0 < max → (use max cache key).length = min max (key :: cache.erase key).length

namespace Lru

variable {κ : Type} [DecidableEq κ] {max : Nat} {cache log : List κ} {key : κ}
variable (lru : LruCache)

/-- So the oldest keys go. -/
theorem use_eq (h : 0 < max) (cache : List κ) (key : κ) :
    lru.use max cache key = (key :: cache.erase key).take max := by
  rw [List.prefix_iff_eq_take.1 (lru.use_prefix max cache key), lru.length_use _ _ _ h,
    ← List.take_eq_take_min]

/-- A library that does just this. -/
def taking : LruCache where
  use max cache key := (key :: cache.erase key).take max
  use_prefix max _ _ := List.take_prefix max _
  length_use _ _ _ _ := List.length_take

omit lru in
theorem nodup_cons_erase (key : κ) (h : cache.Nodup) : (key :: cache.erase key).Nodup :=
  List.nodup_cons.2 ⟨h.not_mem_erase, h.erase key⟩

theorem nodup_use (max : Nat) (key : κ) (h : cache.Nodup) :
    (lru.use max cache key).Nodup :=
  (nodup_cons_erase key h).sublist (lru.use_prefix max cache key).sublist

theorem mem_use_self (h : 0 < max) : key ∈ lru.use max cache key := by
  obtain ⟨max, rfl⟩ := Nat.exists_eq_succ_of_ne_zero (Nat.ne_of_gt h)
  rw [use_eq lru h]
  exact List.mem_cons_self

/-- Different keys are no more than the set they are from. -/
theorem length_le_card {keys : List κ} {all : Finset κ} (h : keys.Nodup)
    (hsub : ∀ k ∈ keys, k ∈ all) : keys.length ≤ all.card := by
  rw [← List.toFinset_card_of_nodup h]
  exact Finset.card_le_card fun k hk => hsub k (List.mem_toFinset.1 hk)

/-- With room for all keys nothing gets lost. -/
theorem mem_use_iff {all : Finset κ} (h : cache.Nodup) (hcache : ∀ k ∈ cache, k ∈ all)
    (hkey : key ∈ all) (hroom : all.card ≤ max) {other : κ} :
    other ∈ lru.use max cache key ↔ other = key ∨ other ∈ cache := by
  have hsub : ∀ k ∈ key :: cache.erase key, k ∈ all := by
    intro k hk
    rcases List.mem_cons.1 hk with rfl | hold
    · exact hkey
    · exact hcache k (List.mem_of_mem_erase hold)
  have hlength : (key :: cache.erase key).length ≤ max :=
    (length_le_card (nodup_cons_erase key h) hsub).trans hroom
  have hpos : 0 < max := lt_of_lt_of_le (Finset.card_pos.2 ⟨key, hkey⟩) hroom
  rw [use_eq lru hpos, List.take_of_length_le hlength, List.mem_cons]
  by_cases hother : other = key
  · simp [hother]
  · rw [List.mem_erase_of_ne hother]

/-! ## How long a key stays -/

/-- The cache holds the key, and in front of it only some others. -/
def Behind (cache : List κ) (key : κ) (others : Finset κ) : Prop :=
  ∃ front back, cache = front ++ key :: back ∧ ∀ other ∈ front, other ∈ others

omit [DecidableEq κ] in
theorem Behind.mem {others : Finset κ} (h : Behind cache key others) : key ∈ cache := by
  obtain ⟨front, back, rfl, -⟩ := h
  exact List.mem_append_right _ List.mem_cons_self

theorem behind_use_self (h : 0 < max) (others : Finset κ) :
    Behind (lru.use max cache key) key others := by
  obtain ⟨max, rfl⟩ := Nat.exists_eq_succ_of_ne_zero (Nat.ne_of_gt h)
  rw [use_eq lru h]
  exact ⟨[], (cache.erase key).take max, rfl, nofun⟩

/-- A use for another key moves that key to the front. -/
theorem Behind.use {others : Finset κ} (h : Behind cache key others)
    (hnodup : cache.Nodup) {other : κ} (hother : other ≠ key)
    (hroom : (insert other others).card < max) :
    Behind (lru.use max cache other) key (insert other others) := by
  obtain ⟨front, back, rfl, hfront⟩ := h
  -- wherever the other key was, what is in front of `key` is the same
  obtain ⟨back', herase⟩ : ∃ back', (front ++ key :: back).erase other =
      front.erase other ++ key :: back' := by
    rw [List.erase_append]
    split
    · exact ⟨back, rfl⟩
    · next hnot =>
        rw [List.erase_of_not_mem hnot]
        exact ⟨back.erase other, by simp [Ne.symm hother]⟩
  have hsubset : ∀ k ∈ other :: front.erase other, k ∈ insert other others := by
    intro k hk
    rcases List.mem_cons.1 hk with rfl | hold
    · exact Finset.mem_insert_self _ _
    · exact Finset.mem_insert_of_mem (hfront k (List.mem_of_mem_erase hold))
  have hdistinct := nodup_cons_erase other
    (hnodup.sublist (List.sublist_append_left front (key :: back)))
  have hlength : (other :: front.erase other).length < max :=
    lt_of_le_of_lt (length_le_card hdistinct hsubset) hroom
  refine ⟨other :: front.erase other, back'.take (max - (front.erase other).length - 2),
    ?_, hsubset⟩
  rw [use_eq lru (Nat.zero_lt_of_lt hroom), herase, ← List.cons_append, List.take_append,
    List.take_of_length_le (Nat.le_of_lt hlength)]
  congr 1
  rw [List.length_cons] at hlength ⊢
  rw [show max - ((front.erase other).length + 1) =
    max - (front.erase other).length - 2 + 1 by omega, List.take_succ_cons]

omit [DecidableEq κ] in
theorem Behind.mono {others others' : Finset κ} (h : Behind cache key others)
    (hsub : others ⊆ others') : Behind cache key others' := by
  obtain ⟨front, back, rfl, hfront⟩ := h
  exact ⟨front, back, rfl, fun other hother => hsub (hfront other hother)⟩

/-- **A key stays for as long as there is room for all others that come up.**  Here the
steps of a run use the cache for keys that it does not have, and only for those that
their events offer. -/
theorem Behind.foldl {σ ε : Type} {step : σ → ε → σ} {held : σ → List κ}
    {offer : ε → Option κ}
    (hstep : ∀ s event, held (step s event) = held s ∨
      ∃ other, offer event = some other ∧ other ∉ held s ∧
        held (step s event) = lru.use max (held s) other)
    {s : σ} (hnodup : (held s).Nodup) (hs : Behind (held s) key ∅) (events : List ε)
    (hroom : ((events.filterMap offer).toFinset.erase key).card < max) :
    Behind (held (events.foldl step s)) key
      ((events.filterMap offer).toFinset.erase key) := by
  suffices hrun : (held (events.foldl step s)).Nodup ∧
      (((events.filterMap offer).toFinset.erase key).card < max →
        Behind (held (events.foldl step s)) key
          ((events.filterMap offer).toFinset.erase key)) from hrun.2 hroom
  refine foldl_history (I := fun past s => (held s).Nodup ∧
    (((past.filterMap offer).toFinset.erase key).card < max →
      Behind (held s) key ((past.filterMap offer).toFinset.erase key)))
    ?_ ⟨hnodup, fun _ => hs.mono (Finset.empty_subset _)⟩ events
  rintro past s event ⟨hnodup, hbehind⟩
  rw [List.filterMap_append, List.toFinset_append]
  have hsub : (past.filterMap offer).toFinset.erase key ⊆
      ((past.filterMap offer).toFinset ∪ ([event].filterMap offer).toFinset).erase key :=
    Finset.erase_subset_erase key Finset.subset_union_left
  have hold (hroom : (((past.filterMap offer).toFinset ∪
      ([event].filterMap offer).toFinset).erase key).card < max) :=
    hbehind (lt_of_le_of_lt (Finset.card_le_card hsub) hroom)
  rcases hstep s event with hsame | ⟨other, hoffer, hnew, huse⟩
  · rw [hsame]
    exact ⟨hnodup, fun hroom => (hold hroom).mono hsub⟩
  · rw [huse]
    refine ⟨nodup_use lru max other hnodup, fun hroom => ?_⟩
    -- the key itself is still there, so it is another that comes in
    have hne : other ≠ key := fun h => hnew (h ▸ (hold hroom).mem)
    have hothers : ((past.filterMap offer).toFinset ∪
        ([event].filterMap offer).toFinset).erase key =
        insert other ((past.filterMap offer).toFinset.erase key) := by
      rw [show [event].filterMap offer = [other] by simp [hoffer], List.toFinset_cons,
        List.toFinset_nil, Finset.union_insert, Finset.union_empty,
        Finset.erase_insert_of_ne hne]
    rw [hothers] at hroom ⊢
    exact (hold (hothers ▸ hroom)).use lru hnodup hne hroom

/-- Of the uses that the log names, the latest first, the cache has forgotten none since
which it had room for all others. -/
structure Remembers (max : Nat) (cache log : List κ) : Prop where
  nodup : cache.Nodup
  behind : ∀ front key back, log = front ++ key :: back → key ∉ front →
    front.toFinset.card < max → Behind cache key front.toFinset

theorem Remembers.nil (max : Nat) : Remembers max ([] : List κ) [] :=
  ⟨List.nodup_nil, fun front key back h => by cases front <;> cases h⟩

/-- **A use is remembered.** -/
theorem Remembers.use (h : Remembers max cache log) (key : κ) :
    Remembers max (lru.use max cache key) (key :: log) := by
  refine ⟨nodup_use lru max key h.nodup, ?_⟩
  intro front other back hlog hother hroom
  rcases List.cons_eq_append_iff.1 hlog with ⟨rfl, hhead⟩ | ⟨front', rfl, hlog'⟩
  · cases hhead
    exact behind_use_self lru hroom _
  · rw [List.toFinset_cons] at hroom ⊢
    rw [List.mem_cons, not_or] at hother
    have hless := lt_of_le_of_lt (Finset.card_le_card
      (Finset.subset_insert key front'.toFinset)) hroom
    exact (h.behind front' other back hlog' hother.2 hless).use lru h.nodup
      (Ne.symm hother.1) hroom

/-- A key that was used and is not there any more has been pushed out by as many others
as there is room for. -/
theorem Remembers.card_le (h : Remembers max cache log) {front back : List κ}
    (hlog : log = front ++ key :: back) (hkey : key ∉ cache) :
    max ≤ (front.toFinset.erase key).card := by
  obtain ⟨since, before, hsplit, hnot⟩ :=
    List.eq_append_cons_of_mem (show key ∈ front ++ [key] by simp)
  have hlog' : log = since ++ key :: (before ++ back) := by
    rw [hlog, List.append_cons, hsplit, List.append_assoc, List.cons_append]
  have hmax : max ≤ since.toFinset.card := by
    by_contra hroom
    exact hkey (h.behind since key _ hlog' hnot (Nat.lt_of_not_le hroom)).mem
  refine le_trans hmax (Finset.card_le_card fun other hother => ?_)
  have hne : other ≠ key := fun h => hnot (h ▸ List.mem_toFinset.1 hother)
  have hin : other ∈ front ++ [key] := by
    rw [hsplit]
    exact List.mem_append_left _ (List.mem_toFinset.1 hother)
  refine Finset.mem_erase.2 ⟨hne, List.mem_toFinset.2 ?_⟩
  exact (List.mem_append.1 hin).resolve_right fun h => hne (List.mem_singleton.1 h)

/-! ## Keys that are taken up -/

/-- Between two equal keys there are at least `n` others. -/
def Spaced (n : Nat) (keys : List κ) : Prop :=
  ∀ before key mid after, keys = before ++ key :: (mid ++ key :: after) →
    n ≤ (mid.toFinset.erase key).card

theorem Spaced.nil (n : Nat) : Spaced n ([] : List κ) :=
  fun before key mid after h => by cases before <;> cases h

theorem Spaced.reverse {n : Nat} {keys : List κ} (h : Spaced n keys) :
    Spaced n keys.reverse := by
  intro before key mid after hkeys
  have hreverse := h after.reverse key mid.reverse before.reverse (by
    rw [← List.reverse_reverse keys, hkeys]
    simp)
  rwa [List.toFinset_reverse] at hreverse

/-- A key that the cache does not know is far from where it was taken up last. -/
theorem Spaced.cons {keys : List κ} (h : Spaced max keys)
    (hremembers : Remembers max cache keys) (hkey : key ∉ cache) :
    Spaced max (key :: keys) := by
  intro before other mid after hkeys
  rcases List.cons_eq_append_iff.1 hkeys with ⟨rfl, hhead⟩ | ⟨before', rfl, hkeys'⟩
  · cases hhead
    exact hremembers.card_le rfl hkey
  · exact h before' other mid after hkeys'

/-- Where there is room for all keys, none is taken up twice. -/
theorem Spaced.nodup {n : Nat} {keys : List κ} (h : Spaced n keys)
    (hcard : keys.toFinset.card ≤ n) : keys.Nodup := by
  rw [List.nodup_iff_sublist]
  intro key hpair
  have hmem : key ∈ keys := hpair.subset List.mem_cons_self
  obtain ⟨first, rest, hkeys, hfirst, hrest⟩ := List.cons_sublist_iff.1 hpair
  obtain ⟨before, mid, rfl⟩ := List.append_of_mem hfirst
  obtain ⟨mid', after, rfl⟩ := List.append_of_mem (List.singleton_sublist.1 hrest)
  have hspaced := h before key (mid ++ mid') after (by rw [hkeys]; simp)
  have hsub : ((mid ++ mid').toFinset.erase key) ⊆ keys.toFinset.erase key := by
    refine Finset.erase_subset_erase key fun other hother => ?_
    rw [List.mem_toFinset, List.mem_append] at hother
    rw [hkeys, List.mem_toFinset]
    simp only [List.mem_append, List.mem_cons]
    tauto
  have hlt := Finset.card_erase_lt_of_mem (List.mem_toFinset.2 hmem)
  have hle := Finset.card_le_card hsub
  omega

end Lru

end BcNode.Verified
