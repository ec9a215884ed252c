import BcNode.Engine.Commit
import BcNode.Verified.Pool

/-!
# Two commits at once

Nothing keeps two runs of `updateLatestAndStore` apart: each reads the store,
decides, and writes key by key.  Here both run messages whose blocks extend the
latest block, from a store in which either would be committed.

Whoever writes first writes the parent, and then goes through with its commit.
From then on every write of either run keeps the parent at a block with the
latest block's hash, and puts one of the two blocks wherever it puts a block.
That is the invariant `Heads`; `Rely` is what a step may do to it.  What it does
not give is that the latest block and the block filed under its height are the
same one of the two, and a short schedule separates them: between those two
writes a run is in a section (`filing`) that the other one must stay out of.
-/

namespace BcNode.Engine

open BcNode.Verified BcNode.Js BcNode.Protos BcNode.Mining BcNode.Bc BcNode.Persistence

/-! ## The invariant of the race -/

section Race

variable (previousLatest parent synclock : BcBlock) (Next : BcBlock → Prop)

/-- Some run has begun to write: the parent is the block both extend. -/
def Started (s : Store) : Prop :=
  ∃ p, s (.block .bc .parent) = some (.bcBlock p) ∧ p.hash = previousLatest.hash

/-- One of the blocks is the latest one. -/
def Landed (s : Store) : Prop :=
  ∃ b, Next b ∧ s (.block .bc .latest) = some (.bcBlock b)

/-- One of the blocks is filed under their height. -/
def Filed (s : Store) : Prop :=
  ∃ b, Next b ∧
    s (.block .bc (.height (previousLatest.height + 1))) = some (.bcBlock b)

/-- The store throughout the race: as it was before the first write, or with the
parent in place. -/
structure Heads (s : Store) : Prop where
  synclock : s .synclock = some (.bcBlock synclock)
  latest : s (.block .bc .latest) = some (.bcBlock previousLatest) ∨ Landed Next s
  parent : (s (.block .bc .latest) = some (.bcBlock previousLatest) ∧
    s (.block .bc .parent) = some (.bcBlock parent)) ∨ Started previousLatest s

/-- What every step of the race does. -/
def Rely (s s' : Store) : Prop :=
  Heads previousLatest parent synclock Next s →
    Heads previousLatest parent synclock Next s' ∧
      (Started previousLatest s → Started previousLatest s') ∧
      (Landed Next s → Landed Next s') ∧
      (Filed previousLatest Next s → Filed previousLatest Next s')

/-- A commit has gone through. -/
structure Through (s : Store) : Prop where
  heads : Heads previousLatest parent synclock Next s
  started : Started previousLatest s
  landed : Landed Next s
  filed : Filed previousLatest Next s

end Race

section Steps

variable {previousLatest parent synclock : BcBlock} {Next : BcBlock → Prop}

theorem Rely.refl (s : Store) : Rely previousLatest parent synclock Next s s :=
  fun hs => ⟨hs, id, id, id⟩

theorem Rely.trans (s₁ s₂ s₃ : Store) (h : Rely previousLatest parent synclock Next s₁ s₂)
    (h' : Rely previousLatest parent synclock Next s₂ s₃) :
    Rely previousLatest parent synclock Next s₁ s₃ := by
  intro hs
  obtain ⟨hs₂, hstarted, hlanded, hfiled⟩ := h hs
  obtain ⟨hs₃, hstarted', hlanded', hfiled'⟩ := h' hs₂
  exact ⟨hs₃, hstarted' ∘ hstarted, hlanded' ∘ hlanded, hfiled' ∘ hfiled⟩

/-- A commit that went through stays through. -/
theorem Through.rely (s s' : Store) (h : Rely previousLatest parent synclock Next s s')
    (hs : Through previousLatest parent synclock Next s) :
    Through previousLatest parent synclock Next s' := by
  obtain ⟨hheads, hstarted, hlanded, hfiled⟩ := h hs.heads
  exact ⟨hheads, hstarted hs.started, hlanded hs.landed, hfiled hs.filed⟩

/-- Child headers are none of the race's business. -/
theorem Rely.of_childFrame (s s' : Store) (h : ChildFrame s s') :
    Rely previousLatest parent synclock Next s s' := by
  have hslot (slot : Slot) : s' (.block .bc slot) = s (.block .bc slot) :=
    h _ fun chain slot' => by simp
  have hsync : s' .synclock = s .synclock := h _ fun chain slot' => by simp
  intro hs
  refine ⟨⟨?_, ?_, ?_⟩, ?_, ?_, ?_⟩
  · rw [hsync, hs.synclock]
  · simpa only [Landed, hslot] using hs.latest
  · simpa only [Started, hslot] using hs.parent
  · simp only [Started, hslot, imp_self]
  · simp only [Landed, hslot, imp_self]
  · simp only [Filed, hslot, imp_self]

/-- Writing a block with the latest one's hash as the parent. -/
theorem Rely.put_parent {p : BcBlock} (hp : p.hash = previousLatest.hash) (s : Store) :
    Rely previousLatest parent synclock Next s (s.set (.block .bc .parent) (.bcBlock p)) ∧
      Started previousLatest (s.set (.block .bc .parent) (.bcBlock p)) := by
  have hstarted : Started previousLatest (s.set (.block .bc .parent) (.bcBlock p)) :=
    ⟨p, Store.set_self .., hp⟩
  refine ⟨?_, hstarted⟩
  intro hs
  refine ⟨⟨?_, ?_, Or.inr hstarted⟩, fun _ => hstarted, ?_, ?_⟩
  · simp [hs.synclock]
  · simpa [Landed] using hs.latest
  · simp [Landed]
  · simp [Filed]

/-- Writing one of the blocks as the latest, once the parent is in place. -/
theorem Rely.put_latest {b : BcBlock} (hb : Next b) {s : Store}
    (hs : Started previousLatest s) :
    Rely previousLatest parent synclock Next s (s.set (.block .bc .latest) (.bcBlock b)) ∧
      Landed Next (s.set (.block .bc .latest) (.bcBlock b)) := by
  have hlanded : Landed Next (s.set (.block .bc .latest) (.bcBlock b)) :=
    ⟨b, hb, Store.set_self ..⟩
  have hstarted : Started previousLatest (s.set (.block .bc .latest) (.bcBlock b)) := by
    simpa [Started] using hs
  refine ⟨?_, hlanded⟩
  intro hheads
  refine ⟨⟨?_, Or.inr hlanded, Or.inr hstarted⟩, fun _ => hstarted, fun _ => hlanded, ?_⟩
  · simp [hheads.synclock]
  · simp [Filed]

/-- Filing one of the blocks under its height. -/
theorem Rely.put_height {b : BcBlock} (hb : Next b) (hextends : Extends previousLatest b)
    (s : Store) :
    Rely previousLatest parent synclock Next s
        (s.set (.block .bc (.height b.height)) (.bcBlock b)) ∧
      Filed previousLatest Next (s.set (.block .bc (.height b.height)) (.bcBlock b)) := by
  have hfiled : Filed previousLatest Next
      (s.set (.block .bc (.height b.height)) (.bcBlock b)) := by
    refine ⟨b, hb, ?_⟩
    rw [hextends.height]
    exact Store.set_self ..
  refine ⟨?_, hfiled⟩
  intro hheads
  refine ⟨⟨?_, ?_, ?_⟩, ?_, ?_, fun _ => hfiled⟩
  · simp [hheads.synclock]
  · simpa [Landed] using hheads.latest
  · simpa [Started] using hheads.parent
  · simp [Started]
  · simp [Landed]

end Steps

/-! ## Every run keeps the invariant -/

section Runs

variable {previousLatest parent synclock : BcBlock} {Next : BcBlock → Prop}
  {env : Env} {block : BcBlock}

/-- Once the parent is in place, the last writes of a commit go through. -/
theorem storeLatest_safe (hnext : Next block) (hextends : Extends previousLatest block)
    {s : Store} (hheads : Heads previousLatest parent synclock Next s)
    (hstarted : Started previousLatest s) :
    Task.Safe (Rely previousLatest parent synclock Next)
      (fun _ s' => Through previousLatest parent synclock Next s')
      (ExceptT.run (storeLatest env block)) s := by
  unfold storeLatest
  rw [run_putBlock_bind]
  intro s₁ h₁
  obtain ⟨hheads₁, hstarted₁, _, _⟩ := h₁ hheads
  obtain ⟨hput, hlanded⟩ :=
    @Rely.put_latest previousLatest parent synclock Next block hnext s₁
      (hstarted₁ hstarted)
  refine ⟨hput, ?_⟩
  obtain ⟨hheads₂, hstarted₂, _, _⟩ := hput hheads₁
  rw [run_putBlock_bind]
  intro s₃ h₃
  obtain ⟨hheads₃, hstarted₃, hlanded₃, _⟩ := h₃ hheads₂
  obtain ⟨hfile, hfiled⟩ :=
    @Rely.put_height previousLatest parent synclock Next block hnext hextends s₃
  refine ⟨hfile, ?_⟩
  obtain ⟨hheads₄, hstarted₄, hlanded₄, _⟩ := hfile hheads₃
  have hthrough : Through previousLatest parent synclock Next
      (s₃.set (.block .bc (.height block.height)) (.bcBlock block)) :=
    ⟨hheads₄, hstarted₄ (hstarted₃ (hstarted₂ (hstarted₁ hstarted))),
      hlanded₄ (hlanded₃ hlanded), hfiled⟩
  exact Task.Safe.of_always Rely.of_childFrame Through.rely
    (putChildHeaders_childFrame env.completion block) hthrough

/-- What a run has read, two steps of the others later: the initial pair, or a
parent that some run has put in place. -/
theorem race_reads {s₁ s₂ s₃ : Store} {l p : BcBlock}
    (hheads : Heads previousLatest parent synclock Next s₁)
    (h₁₂ : Rely previousLatest parent synclock Next s₁ s₂)
    (h₂₃ : Rely previousLatest parent synclock Next s₂ s₃)
    (hl : s₁ (.block .bc .latest) = some (.bcBlock l))
    (hp : s₂ (.block .bc .parent) = some (.bcBlock p)) :
    (l = previousLatest ∧ p = parent) ∨
      (p.hash = previousLatest.hash ∧ Started previousLatest s₃ ∧
        (l = previousLatest ∨ Next l)) := by
  obtain ⟨hheads₂, hstarted₂, _, _⟩ := h₁₂ hheads
  obtain ⟨_, hstarted₃, _, _⟩ := h₂₃ hheads₂
  have hplaced (h : Started previousLatest s₂) :
      p.hash = previousLatest.hash ∧ Started previousLatest s₃ := by
    refine ⟨?_, hstarted₃ h⟩
    obtain ⟨q, hq, hhash⟩ := h
    rw [hp] at hq
    cases hq
    exact hhash
  have hlatest : l = previousLatest ∨ Next l := by
    rcases hheads.latest with h | ⟨b, hb, h⟩
    · rw [hl] at h
      cases h
      exact Or.inl rfl
    · rw [hl] at h
      cases h
      exact Or.inr hb
  rcases hheads.parent with ⟨hinitial, _⟩ | hstarted
  · rw [hl] at hinitial
    cases hinitial
    rcases hheads₂.parent with ⟨_, hparent⟩ | hstarted
    · rw [hp] at hparent
      cases hparent
      exact Or.inl ⟨rfl, rfl⟩
    · have hp₂ := hplaced hstarted
      exact Or.inr ⟨hp₂.1, hp₂.2, hlatest⟩
  · have hp₂ := hplaced (hstarted₂ hstarted)
    exact Or.inr ⟨hp₂.1, hp₂.2, hlatest⟩

/-- A branch is safe if a new parent has the latest block's hash and the first
branch is only taken once the parent is in place. -/
theorem perform_safe (hnext : Next block) (hextends : Extends previousLatest block)
    {s : Store} {l : BcBlock} {choice : CommitCase}
    (hheads : Heads previousLatest parent synclock Next s)
    (hreplace : choice = .replaceLatest → Started previousLatest s)
    (hparent : choice = .child ∨ choice = .aboveGenesis → l.hash = previousLatest.hash)
    (hforced : choice ≠ .forced) :
    Task.Safe (Rely previousLatest parent synclock Next) (fun _ _ => True)
      (ExceptT.run (perform env { data := block } l choice)) s := by
  have hmoves (hl : l.hash = previousLatest.hash) :
      Task.Safe (Rely previousLatest parent synclock Next) (fun _ _ => True)
        (ExceptT.run (do
          putBlock (.block .bc .parent) l
          storeLatest env block)) s := by
    rw [run_putBlock_bind]
    intro s₁ h₁
    obtain ⟨hheads₁, _, _, _⟩ := h₁ hheads
    obtain ⟨hput, hstarted⟩ :=
      @Rely.put_parent previousLatest parent synclock Next l hl s₁
    exact ⟨hput, (storeLatest_safe hnext hextends (hput hheads₁).1 hstarted).mono
      fun _ _ _ => trivial⟩
  cases choice with
  | replaceLatest =>
      exact (storeLatest_safe hnext hextends hheads (hreplace rfl)).mono
        fun _ _ _ => trivial
  | child => exact hmoves (hparent (Or.inl rfl))
  | aboveGenesis => exact hmoves (hparent (Or.inr rfl))
  | newBranch => exact fun _ _ => trivial
  | forced => exact absurd rfl hforced
  | sibling => exact fun _ _ => trivial
  | none => exact fun _ _ => trivial

/-- A run's decision, taken on whatever it has read, is safe to carry out. -/
theorem commit_safe (hparent : parent.hash = previousLatest.previousHash)
    (hheight : 1 ≤ previousLatest.height)
    (hall : ∀ b, Next b → Extends previousLatest b) (hnext : Next block)
    {s : Store} (hheads : Heads previousLatest parent synclock Next s) :
    Task.Safe (Rely previousLatest parent synclock Next) (fun _ _ => True)
      (ExceptT.run (commit env { data := block })) s := by
  unfold commit
  refine safe_getBlock_bind Rely.refl (fun s₁ l h₁ hl => ?_) fun _ _ _ _ _ => trivial
  obtain ⟨hheads₁, _⟩ := h₁ hheads
  refine safe_getBlock_bind Rely.refl (fun s₂ p h₂ hp => ?_) fun _ _ _ _ _ => trivial
  refine safe_getBlock_bind Rely.refl (fun s₃ c h₃ _ => ?_) fun _ _ _ _ _ => trivial
  rw [Async.run_ofExcept_bind]
  cases hchoice : commitCase env.pkg { data := block } l p c with
  | error e => exact fun _ _ => trivial
  | ok choice =>
      have hchosen := commitCase_chosen hchoice
      have hextends := hall block hnext
      have hreads := race_reads hheads₁ h₂ h₃ hl hp
      refine perform_safe hnext hextends (h₃ (h₂ hheads₁).1).1 ?_ ?_ hchosen.forced
      · intro hreplace
        rcases hreads with ⟨rfl, rfl⟩ | ⟨_, hstarted, _⟩
        · exact absurd hparent (hchosen.replaceLatest hreplace)
        · exact hstarted
      · rintro (hchild | habove)
        · rw [hchosen.child hchild, hextends.previousHash]
        · have hlow := hchosen.aboveGenesis habove
          rcases hreads with ⟨rfl, _⟩ | ⟨_, _, rfl | hnew⟩
          · rfl
          · rfl
          · have hhigh := (hall l hnew).height
            omega

/-- So is the whole function. -/
theorem updateLatestAndStore_safe (hparent : parent.hash = previousLatest.previousHash)
    (hheight : 1 ≤ previousLatest.height)
    (hall : ∀ b, Next b → Extends previousLatest b) (hnext : Next block)
    {s : Store} (hheads : Heads previousLatest parent synclock Next s) :
    Task.Safe (Rely previousLatest parent synclock Next) (fun _ _ => True)
      (ExceptT.run (updateLatestAndStore env { data := block })) s := by
  rw [updateLatestAndStore_run]
  apply Task.Safe.bind Rely.refl (commit_safe hparent hheight hall hnext hheads)
  intro result s' _
  exact Task.Safe.of_always Rely.of_childFrame (fun _ _ _ => id)
    (tail_childFrame env block result) trivial

/-- From the store it starts in, a run that would commit reads, then writes the
parent, and from then on goes through. -/
theorem updateLatestAndStore_writes {store : Store}
    (hlatest : store (.block .bc .latest) = some (.bcBlock previousLatest))
    (hparent : store (.block .bc .parent) = some (.bcBlock parent))
    (hsynclock : store .synclock = some (.bcBlock synclock))
    (hnext : Next block) (hextends : Extends previousLatest block)
    (hcommits : commitCase env.pkg { data := block } previousLatest parent synclock =
        .ok .child ∨
      commitCase env.pkg { data := block } previousLatest parent synclock =
        .ok .aboveGenesis) :
    Task.ReadsUntil
      (Pool.Writes (Rely previousLatest parent synclock Next)
        (fun _ s => Through previousLatest parent synclock Next s) store)
      store (ExceptT.run (updateLatestAndStore env { data := block })) := by
  have hheads : Heads previousLatest parent synclock Next store :=
    ⟨hsynclock, Or.inl hlatest, Or.inl ⟨hlatest, hparent⟩⟩
  obtain ⟨hput, hstarted⟩ :=
    @Rely.put_parent previousLatest parent synclock Next previousLatest rfl store
  have hsafe : Task.Safe (Rely previousLatest parent synclock Next)
      (fun _ s => Through previousLatest parent synclock Next s)
      (ExceptT.run (storeLatest env block) >>= tail env block)
      (store.set (.block .bc .parent) (.bcBlock previousLatest)) := by
    refine Task.Safe.bind Rely.refl
      (storeLatest_safe hnext hextends (hput hheads).1 hstarted) ?_
    intro result s' hthrough
    exact Task.Safe.of_always Rely.of_childFrame Through.rely
      (tail_childFrame env block result) hthrough
  rw [updateLatestAndStore_run, commit]
  apply readsUntil_getBlock_bind hlatest
  apply readsUntil_getBlock_bind hparent
  apply readsUntil_getBlock_bind hsynclock
  rw [Async.run_ofExcept_bind]
  rcases hcommits with hchild | habove
  · rw [hchild]
    exact Or.inl ⟨_, _, rfl, hsafe⟩
  · rw [habove]
    exact Or.inl ⟨_, _, rfl, hsafe⟩

end Runs

/-! ## The end of the race -/

/-- The latest block is the one filed under its height. -/
def LatestFiled (s : Store) : Prop :=
  ∃ b, s (.block .bc .latest) = some (.bcBlock b) ∧
    s (.block .bc (.height b.height)) = some (.bcBlock b)

/-- What is left of a run that has written the latest block and not yet filed it. -/
def filing (env : Env) (block : BcBlock) : Task Store (Except JsError BcBlock) :=
  ExceptT.run (do
    putBlock (.block .bc (.height block.height)) block
    putChildHeaders env.completion block) >>= tail env block

section Sections

variable {Inside : Task Store (Except JsError BcBlock) → Prop} {env : Env} {block : BcBlock}

theorem LatestFiled.childFrame (s s' : Store) (h : ChildFrame s s') (hs : LatestFiled s) :
    LatestFiled s' := by
  obtain ⟨b, hlatest, hfiled⟩ := hs
  refine ⟨b, ?_, ?_⟩
  · rw [h _ fun chain slot => by simp]
    exact hlatest
  · rw [h _ fun chain slot => by simp]
    exact hfiled

/-- The last writes of a commit break `LatestFiled` between two of them. -/
theorem storeLatest_sectioned (hinside : Inside (filing env block)) :
    Task.Sectioned LatestFiled Inside
      (ExceptT.run (storeLatest env block) >>= tail env block) none := by
  have hrest : Task.Sectioned LatestFiled Inside
      (ExceptT.run (putChildHeaders env.completion block) >>= tail env block) none :=
    Task.Sectioned.of_always LatestFiled.childFrame
      (Task.Always.bind (putChildHeaders_childFrame env.completion block)
        (tail_childFrame env block))
  unfold storeLatest
  rw [run_putBlock_bind]
  intro s _
  refine Or.inr ⟨hinside, ?_, hrest⟩
  refine ⟨block, ?_, ?_⟩
  · simp
  · simp

theorem perform_sectioned (hinside : Inside (filing env block)) {l : BcBlock}
    {choice : CommitCase} (hforced : choice ≠ .forced) :
    Task.Sectioned LatestFiled Inside
      (ExceptT.run (perform env { data := block } l choice) >>= tail env block) none := by
  have hmoves : Task.Sectioned LatestFiled Inside
      (ExceptT.run (do
        putBlock (.block .bc .parent) l
        storeLatest env block) >>= tail env block) none := by
    rw [run_putBlock_bind]
    intro s hs
    obtain ⟨b, hlatest, hfiled⟩ := hs
    refine Or.inl ⟨⟨b, ?_, ?_⟩, storeLatest_sectioned hinside⟩
    · simp [hlatest]
    · simp [hfiled]
  cases choice with
  | replaceLatest => exact storeLatest_sectioned hinside
  | child => exact hmoves
  | aboveGenesis => exact hmoves
  | newBranch => trivial
  | forced => exact absurd rfl hforced
  | sibling => trivial
  | none =>
      exact Task.Sectioned.of_always LatestFiled.childFrame
        (tail_childFrame env block (.ok ()))

/-- Apart from that gap every step of a run keeps the latest block filed. -/
theorem updateLatestAndStore_sectioned (hinside : Inside (filing env block)) :
    Task.Sectioned LatestFiled Inside
      (ExceptT.run (updateLatestAndStore env { data := block })) none := by
  rw [updateLatestAndStore_run, commit]
  refine sectioned_getBlock_bind (fun l => ?_) fun _ => trivial
  refine sectioned_getBlock_bind (fun p => ?_) fun _ => trivial
  refine sectioned_getBlock_bind (fun c => ?_) fun _ => trivial
  rw [Async.run_ofExcept_bind]
  cases hchoice : commitCase env.pkg { data := block } l p c with
  | error e => trivial
  | ok choice => exact perform_sectioned hinside (commitCase_chosen hchoice).forced

end Sections

/-- Two runs of `updateLatestAndStore` over one store. -/
def race (env env' : Env) (block block' : BcBlock) (store : Store) :
    Pool Store (Except JsError BcBlock) where
  state := store
  tasks := [ExceptT.run (updateLatestAndStore env { data := block }),
    ExceptT.run (updateLatestAndStore env' { data := block' })]

/-- From this store the block would be committed as a child of the latest one. -/
def Commits (pkg : Packages) (block previousLatest parent synclock : BcBlock) : Prop :=
  commitCase pkg { data := block } previousLatest parent synclock = .ok .child ∨
    commitCase pkg { data := block } previousLatest parent synclock = .ok .aboveGenesis

/-- However the two runs interleave, some commit has gone through in the end. -/
theorem race_through (env env' : Env) {store : Store}
    {previousLatest parent synclock block block' : BcBlock}
    (hlatest : store (.block .bc .latest) = some (.bcBlock previousLatest))
    (hparent : store (.block .bc .parent) = some (.bcBlock parent))
    (hsynclock : store .synclock = some (.bcBlock synclock))
    (hchild : Extends parent previousLatest)
    (hextends : Extends previousLatest block) (hextends' : Extends previousLatest block')
    (hcommits : Commits env.pkg block previousLatest parent synclock)
    (hcommits' : Commits env'.pkg block' previousLatest parent synclock)
    (schedule : List Nat)
    (hfinished : ((race env env' block block' store).exec schedule).Finished) :
    Through previousLatest parent synclock (fun b => b = block ∨ b = block')
      ((race env env' block block' store).exec schedule).state := by
  let Next : BcBlock → Prop := fun b => b = block ∨ b = block'
  have hall : ∀ b, Next b → Extends previousLatest b := by
    rintro b (rfl | rfl)
    · exact hextends
    · exact hextends'
  have hheads : Heads previousLatest parent synclock Next store :=
    ⟨hsynclock, Or.inl hlatest, Or.inl ⟨hlatest, hparent⟩⟩
  have hheight : 1 ≤ previousLatest.height := by
    rw [hchild.height]
    omega
  have hhash := hchild.previousHash.symm
  have hsafe : Pool.AllSafe (Rely previousLatest parent synclock Next)
      (fun _ _ _ => True) (race env env' block block' store) := by
    intro i t hi
    rcases List.mem_pair.1 (List.mem_of_getElem? hi) with rfl | rfl
    · exact updateLatestAndStore_safe hhash hheight hall (Or.inl rfl) hheads
    · exact updateLatestAndStore_safe hhash hheight hall (Or.inr rfl) hheads
  have hwrites : ∀ t ∈ (race env env' block block' store).tasks,
      Task.ReadsUntil
        (Pool.Writes (Rely previousLatest parent synclock Next)
          (fun _ s => Through previousLatest parent synclock Next s) store) store t := by
    intro t ht
    rcases List.mem_pair.1 ht with rfl | rfl
    · exact updateLatestAndStore_writes hlatest hparent hsynclock (Or.inl rfl) hextends
        hcommits
    · exact updateLatestAndStore_writes hlatest hparent hsynclock (Or.inr rfl) hextends'
        hcommits'
  obtain ⟨_, hthrough⟩ := Pool.exec_first_writer Rely.refl Rely.trans
    (List.cons_ne_nil _ _) hsafe hwrites schedule hfinished
  exact hthrough

/-- Neither run acts while the other has written the latest block and not yet filed
it. -/
def Undisturbed (env env' : Env) (block block' : BcBlock)
    (pool : Pool Store (Except JsError BcBlock)) (i : Nat) : Prop :=
  pool.Undisturbed (fun t => t = filing env block ∨ t = filing env' block') i

theorem race_latestFiled (env env' : Env) (block block' : BcBlock) {store : Store}
    (h : LatestFiled store) {schedule : List Nat}
    (halong : Along Pool.step (Undisturbed env env' block block')
      (race env env' block block' store) schedule)
    (hfinished : ((race env env' block block' store).exec schedule).Finished) :
    LatestFiled ((race env env' block block' store).exec schedule).state := by
  refine Pool.exec_sectioned h ?_ halong hfinished
  intro t ht
  rcases List.mem_pair.1 ht with rfl | rfl
  · exact updateLatestAndStore_sectioned (Or.inl rfl)
  · exact updateLatestAndStore_sectioned (Or.inr rfl)

/-- **Two commits at once.**  However the two runs interleave, in the end one of
the two blocks is the latest, the parent is its parent, and one of the two is
filed under its height.  It is the latest one if no run acts between the other's
write of the latest block and its filing of it. -/
theorem race_finished (env env' : Env) {store : Store}
    {previousLatest parent synclock block block' : BcBlock}
    (hlatest : store (.block .bc .latest) = some (.bcBlock previousLatest))
    (hfiled : store (.block .bc (.height previousLatest.height)) =
      some (.bcBlock previousLatest))
    (hparent : store (.block .bc .parent) = some (.bcBlock parent))
    (hsynclock : store .synclock = some (.bcBlock synclock))
    (hchild : Extends parent previousLatest)
    (hextends : Extends previousLatest block) (hextends' : Extends previousLatest block')
    (hcommits : Commits env.pkg block previousLatest parent synclock)
    (hcommits' : Commits env'.pkg block' previousLatest parent synclock)
    (schedule : List Nat)
    (hfinished : ((race env env' block block' store).exec schedule).Finished) :
    (∃ latest parent filed,
      ((race env env' block block' store).exec schedule).state (.block .bc .latest) =
        some (.bcBlock latest) ∧
      (latest = block ∨ latest = block') ∧
      ((race env env' block block' store).exec schedule).state (.block .bc .parent) =
        some (.bcBlock parent) ∧
      parent.hash = latest.previousHash ∧
      ((race env env' block block' store).exec schedule).state
        (.block .bc (.height latest.height)) = some (.bcBlock filed) ∧
      (filed = block ∨ filed = block')) ∧
    (Along Pool.step (Undisturbed env env' block block')
        (race env env' block block' store) schedule →
      LatestFiled ((race env env' block block' store).exec schedule).state) := by
  have hthrough := race_through env env' hlatest hparent hsynclock hchild hextends
    hextends' hcommits hcommits' schedule hfinished
  obtain ⟨latest, hnext, hlatest'⟩ := hthrough.landed
  obtain ⟨p, hp, hphash⟩ := hthrough.started
  obtain ⟨filed, hnext', hfiled'⟩ := hthrough.filed
  have hextended : Extends previousLatest latest := by
    rcases hnext with rfl | rfl
    · exact hextends
    · exact hextends'
  refine ⟨⟨latest, p, filed, hlatest', hnext, hp, ?_, ?_, hnext'⟩, ?_⟩
  · rw [hphash, hextended.previousHash]
  · rw [hextended.height]
    exact hfiled'
  · intro halong
    exact race_latestFiled env env' block block' ⟨previousLatest, hlatest, hfiled⟩
      halong hfinished

/-- The sample's store with the latest block filed under its height. -/
def sampleRaceStore : Store :=
  (sampleStore sampleParent).set (.block .bc (.height 5)) (.bcBlock samplePrevious)

/-- Both runs read, the first writes parent and latest, the second writes all its
three, and the first comes back to file its block. -/
def crossing : List Nat :=
  [0, 0, 0, 1, 1, 1, 0, 0, 1, 1, 1, 0] ++ List.replicate 15 0 ++ List.replicate 15 1

theorem sampleRaceStore_latest : sampleRaceStore (.block .bc .latest) =
    some (.bcBlock samplePrevious) := by
  rw [sampleRaceStore, Store.set_ne _ (by decide), sampleStore_latest]

theorem sampleRaceStore_parent : sampleRaceStore (.block .bc .parent) =
    some (.bcBlock sampleParent) := by
  rw [sampleRaceStore, Store.set_ne _ (by decide), sampleStore_parent]

theorem sampleRaceStore_synclock : sampleRaceStore .synclock =
    some (.bcBlock getGenesisBlock) := by
  rw [sampleRaceStore, Store.set_ne _ (by decide), sampleStore_synclock]

/-- Both runs read before either writes, and each writes without a break. -/
def takingTurns : List Nat :=
  [0, 1, 0, 1, 0, 1] ++ List.replicate 18 0 ++ List.replicate 18 1

/-- The next action of the task files a block at height 6. -/
def filesNext : Task Store (Except JsError BcBlock) → Bool
  | .done _ => false
  | .act update _ => (update Store.empty (.block .bc (.height 6))).isSome

theorem takingTurns_undisturbed :
    Along Pool.step (Undisturbed sampleEnv sampleEnv sampleNextBlock sampleRival)
      (race sampleEnv sampleEnv sampleNextBlock sampleRival sampleRaceStore)
      takingTurns := by
  have hchecked : Along Pool.step
      (fun pool i => ∀ entry ∈ pool.tasks.zipIdx, filesNext entry.1 = true → i = entry.2)
      (race sampleEnv sampleEnv sampleNextBlock sampleRival sampleRaceStore)
      takingTurns := by decide +kernel
  apply hchecked.mono
  intro pool i hfiles j t hj hfiling
  apply hfiles (t, j) (List.mk_mem_zipIdx_iff_getElem?.2 hj)
  rcases hfiling with rfl | rfl
  · show filesNext (filing sampleEnv sampleNextBlock) = true
    decide +kernel
  · show filesNext (filing sampleEnv sampleRival) = true
    decide +kernel

theorem race_finished_sample :
    (∃ latest parent filed,
      ((race sampleEnv sampleEnv sampleNextBlock sampleRival sampleRaceStore).exec
        crossing).state (.block .bc .latest) = some (.bcBlock latest) ∧
      (latest = sampleNextBlock ∨ latest = sampleRival) ∧
      ((race sampleEnv sampleEnv sampleNextBlock sampleRival sampleRaceStore).exec
        crossing).state (.block .bc .parent) = some (.bcBlock parent) ∧
      parent.hash = latest.previousHash ∧
      ((race sampleEnv sampleEnv sampleNextBlock sampleRival sampleRaceStore).exec
        crossing).state (.block .bc (.height latest.height)) = some (.bcBlock filed) ∧
      (filed = sampleNextBlock ∨ filed = sampleRival)) ∧
    LatestFiled ((race sampleEnv sampleEnv sampleNextBlock sampleRival
      sampleRaceStore).exec takingTurns).state := by
  have hfinished := @race_finished sampleEnv sampleEnv sampleRaceStore samplePrevious
    sampleParent getGenesisBlock sampleNextBlock sampleRival sampleRaceStore_latest
    (Store.set_self ..) sampleRaceStore_parent sampleRaceStore_synclock ⟨rfl, rfl⟩
    ⟨rfl, rfl⟩ ⟨rfl, rfl⟩ (Or.inl (by decide +kernel)) (Or.inl (by decide +kernel))
  exact ⟨(hfinished crossing (by decide +kernel)).1,
    (hfinished takingTurns (by decide +kernel)).2 takingTurns_undisturbed⟩

/-- After the crossing the latest block is the second run's, and the first run's
is filed under its height. -/
theorem crossing_separates_heads :
    Extends sampleParent samplePrevious ∧ Extends samplePrevious sampleNextBlock ∧
    Extends samplePrevious sampleRival ∧
    Commits samplePackages sampleNextBlock samplePrevious sampleParent getGenesisBlock ∧
    Commits samplePackages sampleRival samplePrevious sampleParent getGenesisBlock ∧
    sampleRaceStore (.block .bc .latest) = some (.bcBlock samplePrevious) ∧
    sampleRaceStore (.block .bc (.height 5)) = some (.bcBlock samplePrevious) ∧
    sampleRaceStore (.block .bc .parent) = some (.bcBlock sampleParent) ∧
    ((race sampleEnv sampleEnv sampleNextBlock sampleRival sampleRaceStore).exec
      crossing).Finished ∧
    ((race sampleEnv sampleEnv sampleNextBlock sampleRival sampleRaceStore).exec
      crossing).state (.block .bc .latest) = some (.bcBlock sampleRival) ∧
    ((race sampleEnv sampleEnv sampleNextBlock sampleRival sampleRaceStore).exec
      crossing).state (.block .bc (.height sampleRival.height)) =
        some (.bcBlock sampleNextBlock) ∧
    sampleNextBlock ≠ sampleRival := by
  refine ⟨⟨rfl, rfl⟩, ⟨rfl, rfl⟩, ⟨rfl, rfl⟩, Or.inl ?_, Or.inl ?_,
    sampleRaceStore_latest, Store.set_self .., sampleRaceStore_parent, ?_, ?_, ?_, ?_⟩
  · decide +kernel
  · decide +kernel
  · decide +kernel
  · decide +kernel
  · decide +kernel
  · decide +kernel

end BcNode.Engine
