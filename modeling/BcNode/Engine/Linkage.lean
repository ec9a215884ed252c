import BcNode.Engine.ConcurrentCommit
import Mathlib.Data.List.Chain

/-!
# The multiverse under the engine

Calls of `addNextBlock` and runs of `updateLatestAndStore` over one node, in any
order of their steps.  `System` is the node with the calls and runs in flight;
an `Event` starts one or lets one go on to its next `await`.

A call compares its block with the latest block it has read and then puts it on
top of whatever `_chain` has become.  So the list stays linked exactly as long
as, whenever a block is about to be put on it, the latest block that was read is
the head of the list: `Aligned` is that condition on one step, `run_linked_iff`
the result about runs.  The engine does not see to it.  Between an acceptance and
its commit the store is behind the list, and two children of one block are enough
to break it.
-/

namespace BcNode.Engine

open BcNode.Verified BcNode.Js BcNode.Protos BcNode.Mining BcNode.Bc BcNode.Persistence

/-! ## The system -/

/-- The node, the calls of `addNextBlock` (settled or waiting) and the runs of
`updateLatestAndStore`. -/
structure System where
  node : Node
  calls : List (Except JsError Bool ⊕ Call)
  updates : List (Task Store (Except JsError BcBlock))

/-- What can happen next. -/
inductive Event where
  /-- `addNextBlock` is called. -/
  | call (newBlock : BcBlock)
  /-- A call goes on, at a clock reading. -/
  | resume (i now : Nat)
  /-- An update is published, accepted or forced; its promises act in an order
  of its own. -/
  | update (block : BcBlock) (force : Bool) (completion : Completion)
  /-- A run of `updateLatestAndStore` goes on. -/
  | write (i : Nat)

/-- An empty multiverse over any store. -/
def System.start (store : Store) : System where
  node := { chain := [], store }
  calls := []
  updates := []

/-- Call `i`, unless it has settled. -/
def System.pending (s : System) (i : Nat) : Option Call :=
  match s.calls[i]? with
  | some (.inr call) => some call
  | _ => none

def System.step (env : Env) (s : System) : Event → System
  | .call newBlock => { s with calls := s.calls ++ [.inr (.called newBlock)] }
  | .resume i now =>
      match s.pending i with
      | some call =>
          let (node, call) := call.resume env.pkg now s.node
          { s with node, calls := s.calls.set i call }
      | none => s
  | .update block force completion =>
      let update := updateLatestAndStore { env with completion } { data := block, force }
      { s with updates := s.updates ++ [ExceptT.run update] }
  | .write i =>
      let pool := Pool.step { state := s.node.store, tasks := s.updates } i
      { s with node := { s.node with store := pool.state }, updates := pool.tasks }

def System.run (env : Env) (s : System) (events : List Event) : System :=
  events.foldl (System.step env) s

/-! ## Linked lists -/

/-- At most seven blocks, each the parent of the one before it. -/
structure Linked (chain : List BcBlock) : Prop where
  length : chain.length ≤ 7
  links : chain.IsChain fun child parent => Extends parent child

theorem Linked.nil : Linked [] := ⟨by decide, List.isChain_nil⟩

/-- A push keeps a linked list linked exactly when the block follows the head. -/
theorem Linked.pushed_iff {chain : List BcBlock} (h : Linked chain) {newBlock : BcBlock} :
    Linked (pushed chain newBlock) ↔ ∀ head ∈ chain.head?, Extends head newBlock := by
  have hlength := h.length
  constructor
  · intro hpushed head hhead
    obtain ⟨rest, rfl⟩ : ∃ rest, chain = head :: rest := List.head?_eq_some_iff.1 hhead
    have hlinks := hpushed.links
    unfold Bc.pushed at hlinks
    split at hlinks
    · next hlong =>
        -- the list is cut at its end, and its end is below the head
        cases rest with
        | nil => simp at hlong
        | cons next rest => exact (List.isChain_cons_cons.1 hlinks).1
    · exact (List.isChain_cons_cons.1 hlinks).1
  · intro hhead
    have hlinks : (newBlock :: chain).IsChain fun child parent => Extends parent child :=
      List.isChain_cons.2 ⟨hhead, h.links⟩
    unfold Bc.pushed
    split
    · refine ⟨?_, hlinks.dropLast⟩
      rw [List.length_dropLast, List.length_cons]
      omega
    · next hle => exact ⟨by omega, hlinks⟩

/-! ## When the list stays linked -/

/-- A call that is about to push its block finds the latest block it has read at
the head of the list. -/
def OnTop (pkg : Packages) (now : Nat) (chain : List BcBlock) : Call → Prop
  | .deciding newBlock currentHighestBlock currentHighestParent =>
      evaluate pkg now newBlock currentHighestBlock currentHighestParent = .ok .push →
        ∀ head ∈ chain.head?, head.hash = currentHighestBlock.hash ∧
          head.height = currentHighestBlock.height
  | _ => True

/-- The condition on a step: the call that goes on is on top. -/
def Aligned (env : Env) (s : System) : Event → Prop
  | .resume i now => ∀ call ∈ s.pending i, OnTop env.pkg now s.node.chain call
  | _ => True

theorem resume_linked_iff {pkg : Packages} {now : Nat} {node : Node} {call : Call}
    (h : Linked node.chain) :
    Linked (call.resume pkg now node).1.chain ↔ OnTop pkg now node.chain call := by
  have hafter (read : Except JsError BcBlock) (next : BcBlock → Call) :
      (Call.after node read next).1 = node := by
    cases read <;> rfl
  cases call with
  | called newBlock =>
      refine iff_of_true ?_ trivial
      rw [Call.resume]
      split
      · exact ⟨by simp, List.isChain_singleton newBlock⟩
      · exact h
  | awaitingLatest newBlock =>
      rw [Call.resume, hafter]
      exact iff_of_true h trivial
  | awaitingParent newBlock currentHighestBlock =>
      rw [Call.resume, hafter]
      exact iff_of_true h trivial
  | deciding newBlock currentHighestBlock currentHighestParent =>
      simp only [Call.resume, OnTop]
      by_cases hpush : evaluate pkg now newBlock currentHighestBlock
        currentHighestParent = .ok .push
      · obtain ⟨hgate, hafterGate⟩ := evaluate_gate hpush (by decide)
        have hprevious := (hafterGate rfl).1
        have hfollows (head : BcBlock) : Extends head newBlock ↔
            head.hash = currentHighestBlock.hash ∧
              head.height = currentHighestBlock.height := by
          constructor
          · rintro ⟨hhash, hheight⟩
            have hgateHeight := hgate.height
            exact ⟨hhash.symm.trans hprevious, by omega⟩
          · rintro ⟨hhash, hheight⟩
            exact ⟨hprevious.trans hhash.symm, by rw [hgate.height, hheight]⟩
        simp only [decideNext_push node.chain hpush, h.pushed_iff, hfollows, hpush,
          true_imp_iff]
      · simp only [(decideNext_unpushed node.chain hpush).1]
        exact iff_of_true h fun hpushed => absurd hpushed hpush

/-- **The step lemma.**  From a linked list a step leads to a linked list exactly
when it meets the condition. -/
theorem step_linked_iff (env : Env) (s : System) (event : Event)
    (h : Linked s.node.chain) :
    Linked (s.step env event).node.chain ↔ Aligned env s event := by
  cases event with
  | call newBlock => exact iff_of_true h trivial
  | update block force completion => exact iff_of_true h trivial
  | write i => exact iff_of_true h trivial
  | resume i now =>
      simp only [System.step, Aligned]
      cases hcall : s.pending i with
      | some call => simp [resume_linked_iff h]
      | none => simp [h]

/-- **Linkage.**  From an empty multiverse, a run of calls and updates has a linked
list in every state it reaches exactly when its every step meets the condition. -/
theorem run_linked_iff (env : Env) (store : Store) (events : List Event) :
    (∀ k, Linked ((System.start store).run env (events.take k)).node.chain) ↔
      Along (System.step env) (Aligned env) (System.start store) events :=
  (Along.iff_invariant (step_linked_iff env) Linked.nil).symm

/-- Two children of the latest block, both evaluated before either is committed. -/
def siblingEvents : List Event :=
  [.call samplePrevious, .resume 0 1010, .call sampleNextBlock, .call sampleRival,
    .resume 1 1010, .resume 1 1010, .resume 1 1010, .resume 2 1010, .resume 2 1010,
    .resume 2 1010, .resume 1 1010, .resume 2 1010]

/-- Both are accepted, and the second stands on top of the first. -/
theorem siblings_break_linkage :
    ((System.start (sampleStore sampleParent)).run sampleEnv siblingEvents).calls =
      [.inl (.ok true), .inl (.ok true), .inl (.ok true)] ∧
    ((System.start (sampleStore sampleParent)).run sampleEnv siblingEvents).node.chain =
      [sampleRival, sampleNextBlock, samplePrevious] ∧
    ¬ Linked ((System.start (sampleStore sampleParent)).run sampleEnv
      siblingEvents).node.chain := by
  have hchain : ((System.start (sampleStore sampleParent)).run sampleEnv
      siblingEvents).node.chain = [sampleRival, sampleNextBlock, samplePrevious] := by
    decide +kernel
  refine ⟨by decide +kernel, hchain, ?_⟩
  rw [hchain]
  intro hlinked
  have hfirst : Extends sampleNextBlock sampleRival :=
    (List.isChain_cons.1 hlinked.links).1 sampleNextBlock rfl
  exact absurd hfirst.previousHash (by decide +kernel)

end BcNode.Engine
