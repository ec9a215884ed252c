import BcNode.Persistence.Database

/-!
# The integrity check

At its start the node looks for the first height at which no block is stored, and deletes
the blocks above.  `integrityCheck` finds the height with `stepFrom`, and `flushFrom` goes
through the whole database for keys to delete.

A key counts if `bc.block` is somewhere in it and a high enough number comes after its
last dot.  That holds of the blocks above, but of pending blocks as well, and of whatever
else has such a key: `integrityCheck_keepsPrefix_iff`.
-/

namespace BcNode.Engine

open BcNode.Verified BcNode.Js BcNode.Protos BcNode.Persistence

/-- `persistence.set`.  The method is called `put`. -/
def callSet : Except JsError Unit := .error .typeError

/-- The `catch` of `integrityCheck`. -/
def recoverChain (keys : List String) (db : Database) : Promise Nat × Database :=
  match callSet with
  | .error _ => (.resolved 1, db)
  | .ok () =>
      match flushFrom "bc.block" 1 0 keys db with
      | (.pending, db) => (.pending, db)
      | (_, db) => (.resolved 1, db)

/-- `integrityCheck`, with an iterator that gives `keys` and at most `fuel` steps. -/
def integrityCheck (fuel : Nat) (keys : List String) (db : Database) :
    Promise Nat × Database :=
  match db "bc.block.1" with
  | none => recoverChain keys db
  | some _ =>
      match stepFrom db "bc.block" fuel 1 with
      | .pending => (.pending, db)
      | .rejected _ => recoverChain keys db
      | .resolved limit =>
          match flushFrom "bc.block" limit 0 keys db with
          | (.pending, db) => (.pending, db)
          | (.rejected _, db) => recoverChain keys db
          | (.resolved _, db) => (.resolved limit, db)

/-! ## The prefix -/

/-- `bc.block.<m>`. -/
def bcBlockKey (m : Nat) : String := (Key.block .bc (.height m)).text

/-- The blocks from one to `n` are stored. -/
def StoredUpTo (db : Database) (n : Nat) : Prop :=
  ∀ i, 1 ≤ i → i ≤ n → db (bcBlockKey i) ≠ none

/-- The largest such `n`. -/
structure IsLimit (db : Database) (limit : Nat) : Prop where
  stored : StoredUpTo db limit
  largest : ∀ n, StoredUpTo db n → n ≤ limit

/-- The blocks above the limit go, everything else stays. -/
structure KeepsPrefix (db : Database) (limit : Nat) (result : Promise Nat × Database) :
    Prop where
  resolves : result.1 = .resolved limit
  deleted : ∀ m, limit < m → result.2 (bcBlockKey m) = none
  kept : ∀ key, (∀ m, limit < m → key ≠ bcBlockKey m) → result.2 key = db key

/-- `bc.block` is in the key, and a number above the limit behind its last dot. -/
def LooksAbove (limit : Nat) (key : String) : Prop :=
  includes key "bc.block" = true ∧ (number (lastPart key.toList)).gt limit = true

instance (limit : Nat) (key : String) : Decidable (LooksAbove limit key) :=
  inferInstanceAs (Decidable (_ ∧ _))

theorem flushes_iff {limit : Nat} {key : String} :
    flushes "bc.block" limit 0 key = true ↔ LooksAbove limit key := by
  simp [flushes, LooksAbove]

theorem bcBlockKey_eq (m : Nat) : bcBlockKey m = "bc.block" ++ "." ++ toString m := rfl

theorem bcBlockKey_inj {m n : Nat} : bcBlockKey m = bcBlockKey n ↔ m = n := by
  refine ⟨fun h => ?_, fun h => by rw [h]⟩
  have hkey := Key.text_injective h
  simpa using hkey

/-- The last part of a block's key is its slot. -/
theorem lastPart_text {ledger : Ledger} (hname : '.' ∉ ledger.name.toList) (slot : Slot) :
    lastPart (Key.block ledger slot).text.toList = slot.text.toList := by
  have hlist : (Key.block ledger slot).text.toList =
      ['.'].intercalate [ledger.name.toList, "block".toList, slot.text.toList] := by
    rw [Key.text, String.toList_append, String.toList_append]
    simp [List.intercalate_cons_cons]
  rw [lastPart, hlist, Split.splitOn_intercalate (List.cons_ne_nil _ _)]
  · rfl
  · simp only [List.forall_mem_cons]
    exact ⟨hname, by decide, slot.dot_notMem, by simp⟩

/-- A block's own key looks as high as it is. -/
theorem looksAbove_bcBlockKey {limit m : Nat} :
    LooksAbove limit (bcBlockKey m) ↔ limit < m := by
  have hincludes : includes (bcBlockKey m) "bc.block" = true :=
    includes_iff.2 ⟨"", "." ++ toString m, by
      rw [bcBlockKey_eq, String.append_assoc, String.append_assoc]; rfl⟩
  rw [LooksAbove, bcBlockKey, lastPart_text (by decide), Slot.text, gt_number_toString]
  exact and_iff_right hincludes

/-- A key made of a name, `block` and a slot has `bc.block` in it only if the name ends in
`bc`: its two dots stand around the one `block`. -/
theorem suffix_of_block {name slot before after : List Char} (hname : '.' ∉ name)
    (hslot : '.' ∉ slot)
    (h : name ++ '.' :: ("block".toList ++ '.' :: slot) =
      (before ++ "bc".toList) ++ '.' :: ("block".toList ++ after)) :
    "bc".toList <:+ name := by
  rcases Split.eq_or_exists_of_append_cons hname h with hbefore | ⟨between, hbefore, hrest⟩
  · exact ⟨before, hbefore⟩
  · -- the dot is the second one, so `block` would have to stand behind it once more
    rcases Split.eq_or_exists_of_append_cons (by decide) hrest with rfl | ⟨_, _, hslotDot⟩
    · have hlast := congrArg List.getLast? hbefore
      simp at hlast
    · refine absurd ?_ hslot
      rw [hslotDot]
      exact List.mem_append_right _ List.mem_cons_self

/-- A key of the node's own ledgers, or one of the single keys. -/
def IsOwn : Key → Prop
  | .block .bc _ | .block (.child _) _ => True
  | .block (.other _) _ | .valid _ => False
  | _ => True

/-- Of these only the blocks above the limit look like it. -/
theorem eq_bcBlockKey_of_looksAbove {key : Key} (hown : IsOwn key) {limit : Nat}
    (h : LooksAbove limit key.text) : ∃ m, limit < m ∧ key.text = bcBlockKey m := by
  obtain ⟨hincludes, habove⟩ := h
  cases key with
  | block ledger slot =>
      cases ledger with
      | bc =>
          rw [lastPart_text (by decide)] at habove
          cases slot with
          | height m => exact ⟨m, (gt_number_toString m limit).1 habove, rfl⟩
          | _ => exact absurd habove Bool.false_ne_true
      | child chain =>
          obtain ⟨before, after, htext⟩ := includes_iff.1 hincludes
          have hname : '.' ∉ chain.name.toList := by cases chain <;> decide
          have hlist :
              chain.name.toList ++ '.' :: ("block".toList ++ '.' :: slot.text.toList) =
              (before.toList ++ "bc".toList) ++
                '.' :: ("block".toList ++ after.toList) := by
            simpa [Key.text, Ledger.name] using congrArg String.toList htext
          have hsuffix := suffix_of_block hname slot.dot_notMem hlist
          cases chain <;> exact absurd hsuffix (by decide)
      | other label => exact absurd hown id
  | valid hash => exact absurd hown id
  | _ => exact absurd hincludes (by decide)

/-- Right above the limit nothing is stored. -/
theorem IsLimit.next_eq_none {db : Database} {limit : Nat} (h : IsLimit db limit) :
    db (bcBlockKey (limit + 1)) = none := by
  by_contra hnext
  have hle := h.largest (limit + 1) fun i hlow hhigh => by
    rcases Nat.lt_or_eq_of_le hhigh with hlt | rfl
    · exact h.stored i hlow (Nat.le_of_lt_succ hlt)
    · exact hnext
  omega

/-- In a database there is a limit. -/
theorem exists_isLimit {db : Database} {keys : List String} (hkeys : Yields db keys) :
    ∃ limit, IsLimit db limit := by
  have hbound (n : Nat) (hn : StoredUpTo db n) : n ≤ keys.length := by
    have hsubset : (List.range n).map (fun i => bcBlockKey (i + 1)) ⊆ keys := by
      intro key hkey
      obtain ⟨i, hi, rfl⟩ := List.mem_map.1 hkey
      exact (hkeys.mem _).2 (hn (i + 1) (by omega) (List.mem_range.1 hi))
    have hnodup : ((List.range n).map fun i => bcBlockKey (i + 1)).Nodup :=
      List.nodup_range.map fun i j hij => by
        have := bcBlockKey_inj.1 hij
        omega
    simpa using hnodup.length_le_of_subset hsubset
  classical
  have hzero : StoredUpTo db 0 := fun i hlow hhigh => by omega
  exact ⟨Nat.findGreatest (StoredUpTo db) keys.length,
    Nat.findGreatest_spec (Nat.zero_le _) hzero,
    fun n hn => Nat.le_findGreatest (hbound n hn) hn⟩

/-- The check deletes what looks above the limit, and resolves it. -/
theorem integrityCheck_exec {db : Database} {keys : List String} (hkeys : Yields db keys)
    (hfirst : db "bc.block.1" ≠ none) {limit : Nat} (hlimit : IsLimit db limit) {fuel : Nat}
    (hfuel : limit < fuel) :
    integrityCheck fuel keys db = (.resolved limit, fun key =>
      if LooksAbove limit key then none else db key) := by
  obtain ⟨first, hfirst⟩ := Option.ne_none_iff_exists'.1 hfirst
  have hstep : stepFrom db "bc.block" fuel 1 = .resolved limit :=
    stepFrom_resolves hlimit.next_eq_none hlimit.stored (by omega) (by omega)
  simp only [integrityCheck, hfirst, hstep, flushFrom_of_yields hkeys, flushes_iff]

theorem keepsPrefix_of_looksAbove {db : Database} {limit : Nat}
    (h : ∀ key, db key ≠ none → LooksAbove limit key → ∃ m, limit < m ∧ key = bcBlockKey m) :
    KeepsPrefix db limit
      (.resolved limit, fun key => if LooksAbove limit key then none else db key) := by
  refine ⟨rfl, fun m hm => if_pos (looksAbove_bcBlockKey.2 hm), fun key hkey => ?_⟩
  by_cases hstored : db key = none
  · simp only [hstored, ite_self]
  · refine if_neg fun hlooks => ?_
    obtain ⟨m, hm, rfl⟩ := h key hstored hlooks
    exact hkey m hm rfl

/-- With nothing but the node's own keys in the database, none of them pending, the check
does what it should. -/
theorem integrityCheck_keepsPrefix_of_own {db : Database} {keys : List String}
    (hkeys : Yields db keys) (hfirst : db "bc.block.1" ≠ none) {limit : Nat}
    (hlimit : IsLimit db limit) {fuel : Nat} (hfuel : limit < fuel)
    (hown : ∀ text, db text ≠ none → ∃ key, IsOwn key ∧ key.text = text) :
    KeepsPrefix db limit (integrityCheck fuel keys db) := by
  rw [integrityCheck_exec hkeys hfirst hlimit hfuel]
  apply keepsPrefix_of_looksAbove
  intro text hstored hlooks
  obtain ⟨key, hkey, rfl⟩ := hown text hstored
  exact eq_bcBlockKey_of_looksAbove hkey hlooks

/-- **The check deletes what only looks like a block above.**  In a database with
`bc.block.1`, and given time, the check keeps exactly the contiguous prefix if and only
if no other key than those of blocks above the limit has `bc.block` in it and a number
above the limit behind its last dot. -/
theorem integrityCheck_keepsPrefix_iff {db : Database} {keys : List String}
    (hkeys : Yields db keys) (hfirst : db "bc.block.1" ≠ none) {limit : Nat}
    (hlimit : IsLimit db limit) {fuel : Nat} (hfuel : limit < fuel) :
    KeepsPrefix db limit (integrityCheck fuel keys db) ↔
      ∀ key, db key ≠ none → LooksAbove limit key → ∃ m, limit < m ∧ key = bcBlockKey m := by
  rw [integrityCheck_exec hkeys hfirst hlimit hfuel]
  constructor
  · intro h key hstored hlooks
    by_contra hother
    have hkept : (if LooksAbove limit key then none else db key) = db key :=
      h.kept key fun m hm hkey => hother ⟨m, hm, hkey⟩
    rw [if_pos hlooks] at hkept
    exact hstored hkept.symm
  · exact keepsPrefix_of_looksAbove

/-- A block, the named latest one, and nothing above. -/
def sampleSound : Database :=
  Database.set (Database.set (fun _ => none) "bc.block.1" (.bcBlock { height := 1 }))
    "bc.block.latest" (.bcBlock { height := 1 })

/-- A block, and a pending one above. -/
def sampleWithPending : Database :=
  Database.set (Database.set (fun _ => none) "bc.block.1" (.bcBlock { height := 1 }))
    "pending.bc.block.2" (.bcBlock { height := 2 })

/-- What is stored in a database of two entries. -/
theorem mem_two {first second : String} {a b : Value} (key : String) :
    key ∈ [first, second] ↔
      Database.set (Database.set (fun _ => none) first a) second b key ≠ none := by
  simp only [List.mem_cons, List.not_mem_nil, or_false, Database.set, Function.update_apply]
  split_ifs <;> simp [*]

/-- The limit of a database of two entries, the first one `bc.block.1`. -/
theorem isLimit_two {second : String} {a b : Value} (hsecond : second ≠ "bc.block.2") :
    IsLimit (Database.set (Database.set (fun _ => none) "bc.block.1" a) second b) 1 := by
  constructor
  · intro i hlow hhigh
    obtain rfl : i = 1 := by omega
    exact (mem_two _).1 (List.mem_cons.2 (.inl (by decide)))
  · intro n hn
    by_contra hlt
    have hstored := (mem_two _).2 (hn 2 (by decide) (by omega))
    rcases List.mem_cons.1 hstored with h | h
    · exact absurd h (by decide)
    · exact hsecond (List.mem_singleton.1 h).symm

theorem integrityCheck_keepsPrefix_iff_sample :
    KeepsPrefix sampleSound 1
      (integrityCheck 2 ["bc.block.1", "bc.block.latest"] sampleSound) := by
  refine (integrityCheck_keepsPrefix_iff ⟨mem_two, by decide⟩ (by decide)
    (isLimit_two (by decide)) (by decide)).2 fun key hstored hlooks => ?_
  rcases List.mem_pair.1 ((mem_two key).2 hstored) with rfl | rfl
  · exact absurd hlooks (by decide)
  · exact absurd hlooks (by decide)

/-- The pending block is deleted. -/
theorem pending_flushed :
    ¬ ∀ (db : Database) (keys : List String) (limit fuel : Nat), Yields db keys →
      db "bc.block.1" ≠ none → IsLimit db limit → limit < fuel →
      KeepsPrefix db limit (integrityCheck fuel keys db) := by
  intro hall
  have hyields : Yields sampleWithPending ["bc.block.1", "pending.bc.block.2"] :=
    ⟨mem_two, by decide⟩
  have hlimit : IsLimit sampleWithPending 1 := isLimit_two (by decide)
  have hkeeps := hall _ _ 1 2 hyields (by decide) hlimit (by decide)
  rw [integrityCheck_exec hyields (by decide) hlimit (by decide)] at hkeeps
  have hkept := hkeeps.kept "pending.bc.block.2" fun m _ hkey => by
    have hlist := congrArg String.toList hkey
    rw [bcBlockKey_eq, String.append_assoc, String.toList_append] at hlist
    cases hlist
  exact absurd hkept (by decide)

end BcNode.Engine
