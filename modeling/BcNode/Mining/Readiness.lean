import BcNode.P2p.Greeting
import BcNode.Verified.Run

/-!
# When mining starts

`newRoveredBlock` of the officer is called for every block the rovers have collected.
Once it has seen one of each chain the node can mine, unless it has no quorum of peers or
its two highest blocks do not belong together.  Both are read from the store, and while a
call waits for that, other calls change `_canMine`, greetings and a timer the quorum, and
commits the blocks.

`MiningWorld.step` lets all of these act at any time.  `mining_waits` says what has been
the case before a call gets as far as `startMining`.
-/

namespace BcNode.Mining

open BcNode.Verified BcNode.Js BcNode.Protos BcNode.Persistence BcNode.P2p

/-! ## Counting blocks -/

/-- `_collectedBlocks`: a number for each label, which is `none` for `NaN`. -/
abbrev CollectedBlocks := List (String × Option Nat)

/-- The loop of the constructor. -/
def CollectedBlocks.start (knownRovers : List String) : CollectedBlocks :=
  knownRovers.map fun rover => (rover, some 0)

/-- `_collectedBlocks[blockchain] += 1`.  A label that is not there becomes `NaN`.  One is
there always, but no text can be assigned to it. -/
def CollectedBlocks.increment (collected : CollectedBlocks) (blockchain : String) :
    CollectedBlocks :=
  if collected.any (·.1 == blockchain) then
    collected.map fun entry =>
      if entry.1 = blockchain then (entry.1, entry.2.map (· + 1)) else entry
  else if blockchain = "__proto__" then collected
  else collected ++ [(blockchain, none)]

/-- What `updateLatestAndStore` does for the header of a chain. -/
def CollectedBlocks.raise (collected : CollectedBlocks) (blockchain : String) :
    CollectedBlocks :=
  collected.map fun entry =>
    if entry.1 = blockchain ∧ entry.2 = some 0 then (entry.1, some 1) else entry

/-- `all((numCollected) => numCollected >= 1, values(this._collectedBlocks))`. -/
def CollectedBlocks.complete (collected : CollectedBlocks) : Bool :=
  collected.all fun entry => entry.2.any (1 ≤ ·)

/-! ## `newRoveredBlock` -/

/-- What does not change.  `equals` compares the sets of the elements of two lists. -/
structure MiningEnv where
  config : QuorumConfig
  knownRovers : List String
  equals : List String → List String → Bool

/-- What the officer keeps in mind. -/
structure Readiness where
  collectedBlocks : CollectedBlocks
  canMine : Bool := false
  paused : Bool := false

/-- What a call comes to.  A rejection ends the process. -/
inductive RoveredOutcome where
  | no
  | rejected
  | startMining
  deriving DecidableEq, Repr

/-- How far a call has come: what it waits for, or what it has been given.  In the end the
parent and the latest block that it has read are noted, if it has read both. -/
inductive RoveredProgress where
  | gettingQuorum
  | gotQuorum (quorum : Except JsError Value)
  | gettingParent
  | gotParent (parent : Except JsError BcBlock)
  | gettingLatest (parent : BcBlock)
  | gotLatest (parent : BcBlock) (latest : Except JsError BcBlock)
  | settled (outcome : RoveredOutcome) (read : Option (BcBlock × BcBlock) := none)

structure RoveredCall where
  rovers : List String
  progress : RoveredProgress

/-- The checks after those of the store. -/
def Readiness.grants (env : MiningEnv) (r : Readiness) (rovers : List String) :
    RoveredOutcome :=
  if r.canMine = false then .no
  else if r.paused = true then .no
  else if env.equals env.knownRovers rovers = false then .no
  else .startMining

/-- A call up to its first `await`. -/
def Readiness.newRoveredBlock (env : MiningEnv) (r : Readiness) (rovers : List String)
    (blockchain : String) : Readiness × RoveredCall :=
  let collectedBlocks := r.collectedBlocks.increment blockchain
  let canMine := r.canMine || collectedBlocks.complete
  let r := { r with collectedBlocks, canMine }
  if canMine = true ∧ env.config.MIN_HEALTH_NET = false then
    (r, { rovers, progress := .gettingQuorum })
  else (r, { rovers, progress := .settled (r.grants env rovers) })

/-- `parseInt(quorum, 10) < 1`. -/
def belowOne (quorum : Value) : Bool := (valueParseInt quorum).any (· < 1)

/-- A call that is resumed, or what it waits for happens. -/
def Readiness.advance (env : MiningEnv) (store : Store) (r : Readiness)
    (call : RoveredCall) : Readiness × RoveredProgress :=
  let cannotMine : Readiness := { r with canMine := false }
  match call.progress with
  | .gettingQuorum => (r, .gotQuorum (getIn store .quorum))
  | .gotQuorum (.error _) => (cannotMine, .settled .rejected)
  | .gotQuorum (.ok quorum) =>
      if belowOne quorum = true ∧ r.canMine = true then (cannotMine, .settled .no)
      else if r.canMine = true ∧ env.config.MIN_HEALTH_NET = false then (r, .gettingParent)
      else (r, .settled (r.grants env call.rovers))
  | .gettingParent => (r, .gotParent (getBlockIn store (.block .bc .parent)))
  | .gotParent (.error _) => (cannotMine, .settled .rejected)
  | .gotParent (.ok parent) => (r, .gettingLatest parent)
  | .gettingLatest parent => (r, .gotLatest parent (getBlockIn store (.block .bc .latest)))
  | .gotLatest _ (.error _) => (cannotMine, .settled .rejected)
  | .gotLatest parent (.ok latest) =>
      let read := some (parent, latest)
      if parent.hash ≠ latest.previousHash then (cannotMine, .settled .no read)
      else
        -- a height is compared with a text
        let r := if numberIsString parent.height "1" then cannotMine else r
        (r, .settled (r.grants env call.rovers) read)
  | .settled outcome read => (r, .settled outcome read)

/-! ## Greetings -/

/-- How far the listener of `connection` has come. -/
inductive GreetingProgress where
  | gettingLatest
  | gettingQuorum
  | gotQuorum (quorum : Except JsError Value)
  | putting (update : Option String)
  | done

def GreetingProgress.advance (config : QuorumConfig) (totalConnections : Nat)
    (store : Store) : GreetingProgress → Store × GreetingProgress
  | .gettingLatest =>
      match getIn store (.block .bc .latest) with
      | .ok _ => (store, .gettingQuorum)
      | .error _ => (store, .done)
  | .gettingQuorum => (store, .gotQuorum (getIn store .quorum))
  | .gotQuorum (.ok quorum) =>
      (store, .putting (quorumUpdate config totalConnections (valueParseInt quorum)))
  | .gotQuorum (.error _) => (store, .done)
  | .putting (some text) => (store.set .quorum (.string text), .done)
  | .putting none => (store, .done)
  | .done => (store, .done)

/-! ## Everything at once -/

structure MiningWorld where
  store : Store
  totalConnections : Nat := 0
  readiness : Readiness
  calls : List RoveredCall := []
  greetings : List GreetingProgress := []

inductive ReadinessEvent where
  | collectBlock (rovers : List String) (blockchain : String)
  | resume (i : Nat)
  /-- `updateLatestAndStore` has read the latest headers of these chains. -/
  | raise (blockchains : List String)
  | pause (paused : Bool)
  /-- Connections come and go. -/
  | connections (total : Nat)
  | connection
  | resumeGreeting (i : Nat)
  | countWaypoints
  /-- All others leave the quorum alone. -/
  | others (store : Store)

def MiningWorld.step (env : MiningEnv) (w : MiningWorld) : ReadinessEvent → MiningWorld
  | .collectBlock rovers blockchain =>
      let (readiness, call) := w.readiness.newRoveredBlock env rovers blockchain
      { w with readiness, calls := w.calls ++ [call] }
  | .resume i =>
      match w.calls[i]? with
      | none => w
      | some call =>
          let (readiness, progress) := w.readiness.advance env w.store call
          { w with readiness, calls := w.calls.set i { call with progress } }
  | .raise blockchains =>
      let collectedBlocks :=
        blockchains.foldl CollectedBlocks.raise w.readiness.collectedBlocks
      { w with readiness := { w.readiness with collectedBlocks } }
  | .pause paused => { w with readiness := { w.readiness with paused } }
  | .connections totalConnections => { w with totalConnections }
  | .connection => { w with greetings := w.greetings ++ [.gettingLatest] }
  | .resumeGreeting i =>
      match w.greetings[i]? with
      | none => w
      | some greeting =>
          let (store, progress) := greeting.advance env.config w.totalConnections w.store
          { w with store, greetings := w.greetings.set i progress }
  | .countWaypoints =>
      { w with store := ((P2p.countWaypoints env.config w.totalConnections).run w.store).2 }
  | .others store => { w with store := Function.update store .quorum (w.store .quorum) }

/-- A node that has just started. -/
def MiningWorld.start (env : MiningEnv) (store : Store) : MiningWorld where
  store := store
  readiness := { collectedBlocks := .start env.knownRovers }

/-! ## What has been the case before -/

/-- A block of the chain is counted. -/
def ReadinessEvent.Counts (blockchain : String) : ReadinessEvent → Prop
  | .collectBlock _ label => label = blockchain
  | .raise labels => blockchain ∈ labels
  | _ => False

def Counted (past : List ReadinessEvent) (blockchain : String) : Prop :=
  ∃ event ∈ past, event.Counts blockchain

theorem Counted.append {past : List ReadinessEvent} {blockchain : String}
    (h : Counted past blockchain) (event : ReadinessEvent) :
    Counted (past ++ [event]) blockchain := by
  obtain ⟨counting, hmem, hcounts⟩ := h
  exact ⟨counting, List.mem_append_left _ hmem, hcounts⟩

theorem Counted.last (event : ReadinessEvent) {blockchain : String}
    (h : event.Counts blockchain) (past : List ReadinessEvent) :
    Counted (past ++ [event]) blockchain :=
  ⟨event, List.mem_append_right _ List.mem_cons_self, h⟩

section Past

variable (env : MiningEnv) (store : Store)

/-- At some time of the run. -/
def Past (P : MiningWorld → Prop) (past : List ReadinessEvent) : Prop :=
  Sometime (MiningWorld.step env) (.start env store) P past

/-- There were enough connections. -/
def Connected (w : MiningWorld) : Prop := env.config.USER_QUORUM ≤ w.totalConnections

def Stored (slot : Slot) (b : BcBlock) (w : MiningWorld) : Prop :=
  w.store (.block .bc slot) = some (.bcBlock b)

/-- What the officer waits for: a block of every chain, a quorum of peers, and a highest
block on top of its parent where the call has `read` the two. -/
structure Cleared (past : List ReadinessEvent) (rovers : List String)
    (read : Option (BcBlock × BcBlock)) : Prop where
  rovers : env.equals env.knownRovers rovers = true
  collected : ∀ rover ∈ env.knownRovers, Counted past rover
  connected : Past env store (Connected env) past
  linked : ∃ parent latest, read = some (parent, latest) ∧
    parent.hash = latest.previousHash ∧ Past env store (Stored .parent parent) past ∧
    Past env store (Stored .latest latest) past

variable {env store} {past : List ReadinessEvent} {rovers : List String}
  {read : Option (BcBlock × BcBlock)}

theorem Past.now {P : MiningWorld → Prop}
    (h : P (past.foldl (MiningWorld.step env) (.start env store))) : Past env store P past :=
  Sometime.now h

theorem Past.append {P : MiningWorld → Prop} (h : Past env store P past)
    (event : ReadinessEvent) : Past env store P (past ++ [event]) :=
  Sometime.append h [event]

theorem Cleared.append (h : Cleared env store past rovers read) (event : ReadinessEvent) :
    Cleared env store (past ++ [event]) rovers read := by
  obtain ⟨parent, latest, hread, hhash, hparent, hlatest⟩ := h.linked
  exact ⟨h.rovers, fun rover hrover => (h.collected rover hrover).append event,
    h.connected.append event, parent, latest, hread, hhash, hparent.append event,
    hlatest.append event⟩

end Past

/-! ### Counts -/

/-- Every number in the table is explained by a block that was counted, and every known
chain has one. -/
structure CollectedBlocks.Sound (collected : CollectedBlocks) (knownRovers : List String)
    (past : List ReadinessEvent) : Prop where
  counted : ∀ entry ∈ collected, entry.2.any (1 ≤ ·) = true →
    Counted past entry.1
  known : ∀ rover ∈ knownRovers, ∃ entry ∈ collected, entry.1 = rover

section Counts

variable {collected : CollectedBlocks} {knownRovers : List String} {past : List ReadinessEvent}

theorem CollectedBlocks.Sound.start (knownRovers : List String) :
    (CollectedBlocks.start knownRovers).Sound knownRovers [] := by
  constructor
  · intro entry hentry hany
    obtain ⟨rover, _, rfl⟩ := List.mem_map.1 hentry
    cases hany
  · intro rover hrover
    exact ⟨_, List.mem_map_of_mem hrover, rfl⟩

theorem CollectedBlocks.Sound.append (h : collected.Sound knownRovers past)
    (event : ReadinessEvent) : collected.Sound knownRovers (past ++ [event]) :=
  ⟨fun entry hentry hany => (h.counted entry hentry hany).append event, h.known⟩

/-- A table of the same labels, in which at most the counted one has got a number. -/
theorem CollectedBlocks.Sound.map (h : collected.Sound knownRovers past)
    {f : String × Option Nat → String × Option Nat} (hlabel : ∀ entry, (f entry).1 = entry.1)
    (hcount : ∀ entry, f entry = entry ∨ Counted past entry.1) :
    CollectedBlocks.Sound (collected.map f) knownRovers past := by
  constructor
  · intro entry hentry hany
    obtain ⟨old, hold, rfl⟩ := List.mem_map.1 hentry
    rw [hlabel]
    rcases hcount old with hsame | hcounted
    · rw [hsame] at hany
      exact h.counted old hold hany
    · exact hcounted
  · intro rover hrover
    obtain ⟨entry, hentry, rfl⟩ := h.known rover hrover
    exact ⟨f entry, List.mem_map_of_mem hentry, hlabel entry⟩

theorem CollectedBlocks.Sound.increment (h : collected.Sound knownRovers past)
    {blockchain : String} (hcounted : Counted past blockchain) :
    (collected.increment blockchain).Sound knownRovers past := by
  rw [CollectedBlocks.increment]
  split
  · apply h.map
    · intro entry
      split <;> rfl
    · intro entry
      split
      · next hlabel => exact .inr (hlabel ▸ hcounted)
      · exact .inl rfl
  · split
    · exact h
    · constructor
      · intro entry hentry hany
        rcases List.mem_append.1 hentry with hold | hlast
        · exact h.counted entry hold hany
        · rw [List.mem_singleton.1 hlast] at hany
          cases hany
      · intro rover hrover
        obtain ⟨entry, hentry, hlabel⟩ := h.known rover hrover
        exact ⟨entry, List.mem_append_left _ hentry, hlabel⟩

theorem CollectedBlocks.Sound.raise (h : collected.Sound knownRovers past)
    {blockchain : String} (hcounted : Counted past blockchain) :
    (collected.raise blockchain).Sound knownRovers past := by
  apply h.map
  · intro entry
    split <;> rfl
  · intro entry
    split
    · next hlabel => exact .inr (hlabel.1 ▸ hcounted)
    · exact .inl rfl

/-- A complete table has a number for every known chain. -/
theorem CollectedBlocks.Sound.complete (h : collected.Sound knownRovers past)
    (hcomplete : collected.complete = true) :
    ∀ rover ∈ knownRovers, Counted past rover := by
  intro rover hrover
  obtain ⟨entry, hentry, rfl⟩ := h.known rover hrover
  exact h.counted entry hentry (List.all_eq_true.1 hcomplete entry hentry)

end Counts

/-! ### Calls -/

section Calls

variable (env : MiningEnv) (store : Store)

/-- Below one, unless there were enough connections. -/
def Justified (past : List ReadinessEvent) (quorum : Value) : Prop :=
  belowOne quorum = true ∨ Past env store (Connected env) past

/-- What is known of a call by what it has been given. -/
def RoveredProgress.Sound (past : List ReadinessEvent) (rovers : List String) :
    RoveredProgress → Prop
  | .gettingQuorum => True
  | .gotQuorum quorum => ∀ value, quorum = .ok value → Justified env store past value
  | .gettingParent => Past env store (Connected env) past
  | .gotParent parent => Past env store (Connected env) past ∧
      ∀ b, parent = .ok b → Past env store (Stored .parent b) past
  | .gettingLatest parent => Past env store (Connected env) past ∧
      Past env store (Stored .parent parent) past
  | .gotLatest parent latest => Past env store (Connected env) past ∧
      Past env store (Stored .parent parent) past ∧
      ∀ b, latest = .ok b → Past env store (Stored .latest b) past
  | .settled outcome read => outcome = .startMining → Cleared env store past rovers read

/-- What the events so far have brought about. -/
structure Waits (past : List ReadinessEvent) (w : MiningWorld) : Prop where
  quorum : ∀ value, w.store .quorum = some value → Justified env store past value
  greetings : ∀ text, .putting (some text) ∈ w.greetings →
    Justified env store past (.string text)
  collected : w.readiness.collectedBlocks.Sound env.knownRovers past
  canMine : w.readiness.canMine = true → ∀ rover ∈ env.knownRovers, Counted past rover
  calls : ∀ call ∈ w.calls, call.progress.Sound env store past call.rovers

variable {env store} {past : List ReadinessEvent} {rovers : List String} {w : MiningWorld}

theorem Justified.append {quorum : Value} (h : Justified env store past quorum)
    (event : ReadinessEvent) : Justified env store (past ++ [event]) quorum :=
  h.imp_right fun hconnected => hconnected.append event

theorem RoveredProgress.Sound.append {progress : RoveredProgress}
    (h : progress.Sound env store past rovers) (event : ReadinessEvent) :
    progress.Sound env store (past ++ [event]) rovers := by
  cases progress with
  | gettingQuorum => trivial
  | gotQuorum quorum => exact fun value hvalue => (h value hvalue).append event
  | gettingParent => exact Past.append h event
  | gotParent parent => exact ⟨h.1.append event, fun b hb => (h.2 b hb).append event⟩
  | gettingLatest parent => exact ⟨h.1.append event, h.2.append event⟩
  | gotLatest parent latest =>
      exact ⟨h.1.append event, h.2.1.append event, fun b hb => (h.2.2 b hb).append event⟩
  | settled outcome read => exact fun houtcome => (h houtcome).append event

theorem Waits.append (h : Waits env store past w) (event : ReadinessEvent) :
    Waits env store (past ++ [event]) w where
  quorum value hvalue := (h.quorum value hvalue).append event
  greetings text htext := (h.greetings text htext).append event
  collected := h.collected.append event
  canMine hcan rover hrover := (h.canMine hcan rover hrover).append event
  calls call hcall := (h.calls call hcall).append event

theorem Waits.start (hquorum : ∀ value, store .quorum = some value → belowOne value = true) :
    Waits env store [] (.start env store) where
  quorum value hvalue := .inl (hquorum value hvalue)
  greetings text htext := by cases htext
  collected := .start _
  canMine hcan := by cases hcan
  calls call hcall := by cases hcall

/-- Only an officer that can mine grants a call. -/
theorem Readiness.grants_startMining {r : Readiness}
    (h : r.grants env rovers = .startMining) :
    r.canMine = true ∧ env.equals env.knownRovers rovers = true := by
  unfold Readiness.grants at h
  split at h
  · cases h
  · next hcan =>
      split at h
      · cases h
      · split at h
        · cases h
        · next hequals => exact ⟨by simpa using hcan, by simpa using hequals⟩

/-- **One call goes on.**  Whatever it does next, it has been given what it needs. -/
theorem Waits.advance (hhealth : env.config.MIN_HEALTH_NET = false)
    (h : Waits env store past w)
    (hnow : ∀ P : MiningWorld → Prop, P w → Past env store P past) {call : RoveredCall}
    (hcall : call ∈ w.calls) :
    (w.readiness.advance env w.store call).2.Sound env store past call.rovers ∧
      (w.readiness.advance env w.store call).1.collectedBlocks =
        w.readiness.collectedBlocks ∧
      ((w.readiness.advance env w.store call).1.canMine = true →
        w.readiness.canMine = true) := by
  obtain ⟨rovers, progress⟩ := call
  have hsound := h.calls _ hcall
  rw [Readiness.advance]
  cases progress with
  | gettingQuorum =>
      exact ⟨fun value hvalue => h.quorum value (getIn_ok.1 hvalue), rfl, id⟩
  | gotQuorum quorum =>
      cases quorum with
      | error e => exact ⟨nofun, rfl, nofun⟩
      | ok quorum =>
          dsimp only
          split
          · exact ⟨nofun, rfl, nofun⟩
          · next hbelow =>
              split
              · next hcan =>
                  have hconnected := (hsound quorum rfl).resolve_left fun hlow =>
                    hbelow ⟨hlow, hcan.1⟩
                  exact ⟨hconnected, rfl, id⟩
              · next hcannot =>
                  refine ⟨fun hgrants => ?_, rfl, id⟩
                  have hcan := (Readiness.grants_startMining hgrants).1
                  exact absurd ⟨hcan, hhealth⟩ hcannot
  | gettingParent =>
      exact ⟨⟨hsound, fun b hb => hnow _ (getBlockIn_ok.1 hb)⟩, rfl, id⟩
  | gotParent parent =>
      cases parent with
      | error e => exact ⟨nofun, rfl, nofun⟩
      | ok parent => exact ⟨⟨hsound.1, hsound.2 parent rfl⟩, rfl, id⟩
  | gettingLatest parent =>
      exact ⟨⟨hsound.1, hsound.2, fun b hb => hnow _ (getBlockIn_ok.1 hb)⟩, rfl, id⟩
  | gotLatest parent latest =>
      cases latest with
      | error e => exact ⟨nofun, rfl, nofun⟩
      | ok latest =>
          dsimp only
          split
          · exact ⟨nofun, rfl, nofun⟩
          · next hlinked =>
              refine ⟨fun hgrants => ?_, rfl, id⟩
              obtain ⟨hcan, hequals⟩ := Readiness.grants_startMining hgrants
              exact ⟨hequals, h.canMine hcan, hsound.1, parent, latest, rfl,
                not_not.1 hlinked, hsound.2.1, hsound.2.2 latest rfl⟩
  | settled outcome read => exact ⟨hsound, rfl, id⟩

theorem Waits.newRoveredBlock (hhealth : env.config.MIN_HEALTH_NET = false)
    (h : Waits env store past w) (rovers : List String) {blockchain : String}
    (hcounted : Counted past blockchain) :
    Waits env store past (w.step env (.collectBlock rovers blockchain)) := by
  have hcollected := h.collected.increment hcounted
  have hcan : (w.readiness.canMine ||
      (w.readiness.collectedBlocks.increment blockchain).complete) = true →
        ∀ rover ∈ env.knownRovers, Counted past rover := by
    intro hcan
    rcases Bool.or_eq_true_iff.1 hcan with hbefore | hcomplete
    · exact h.canMine hbefore
    · exact hcollected.complete hcomplete
  simp only [MiningWorld.step, Readiness.newRoveredBlock]
  split
  · refine ⟨h.quorum, h.greetings, hcollected, hcan, ?_⟩
    intro call hcall
    rcases List.mem_append.1 hcall with hold | hlast
    · exact h.calls call hold
    · rw [List.mem_singleton.1 hlast]
      trivial
  · next hcannot =>
      refine ⟨h.quorum, h.greetings, hcollected, hcan, ?_⟩
      intro call hcall
      rcases List.mem_append.1 hcall with hold | hlast
      · exact h.calls call hold
      · rw [List.mem_singleton.1 hlast]
        intro hgrants
        exact absurd ⟨(Readiness.grants_startMining hgrants).1, hhealth⟩ hcannot

/-- What a connection writes is below one, unless there are enough of them. -/
theorem quorumUpdate_justified (hhealth : env.config.MIN_HEALTH_NET = false)
    (hnow : ∀ P : MiningWorld → Prop, P w → Past env store P past) {quorum : Option Int}
    {text : String} (h : quorumUpdate env.config w.totalConnections quorum = some text) :
    Justified env store past (.string text) := by
  unfold quorumUpdate at h
  split at h
  · cases h
    exact .inl (by decide)
  · split at h
    · next hmet => exact .inr (hnow (Connected env) hmet.1)
    · split at h
      · next hunhealthy =>
          rw [hhealth] at hunhealthy
          cases hunhealthy.2
      · cases h

theorem Waits.resumeGreeting (hhealth : env.config.MIN_HEALTH_NET = false)
    (h : Waits env store past w)
    (hnow : ∀ P : MiningWorld → Prop, P w → Past env store P past) (i : Nat) :
    Waits env store past (w.step env (.resumeGreeting i)) := by
  rw [MiningWorld.step]
  split
  · exact h
  · next greeting hi =>
      have hsame {progress : GreetingProgress} (hprogress : ∀ text,
          progress = .putting (some text) → Justified env store past (.string text)) :
          Waits env store past { w with greetings := w.greetings.set i progress } := by
        refine ⟨h.quorum, ?_, h.collected, h.canMine, h.calls⟩
        intro text htext
        rcases List.mem_or_eq_of_mem_set htext with hmem | heq
        · exact h.greetings text hmem
        · exact hprogress text heq.symm
      cases greeting with
      | gettingLatest =>
          rw [GreetingProgress.advance]
          cases getIn w.store (.block .bc .latest) with
          | ok latestBlock => exact hsame nofun
          | error e => exact hsame nofun
      | gettingQuorum => exact hsame nofun
      | gotQuorum quorum =>
          cases quorum with
          | error e => exact hsame nofun
          | ok quorum =>
              refine hsame fun text htext => ?_
              cases hupdate : quorumUpdate env.config w.totalConnections
                (valueParseInt quorum) with
              | none =>
                  rw [hupdate] at htext
                  cases htext
              | some update =>
                  rw [hupdate] at htext
                  cases htext
                  exact quorumUpdate_justified hhealth hnow hupdate
      | putting update =>
          cases update with
          | none => exact hsame nofun
          | some text =>
              have hwritten := h.greetings text (List.mem_of_getElem? hi)
              have hdone : Waits env store past
                  { w with greetings := w.greetings.set i .done } := hsame nofun
              refine ⟨?_, hdone.greetings, h.collected, h.canMine, h.calls⟩
              intro value hvalue
              have hset : w.store.set .quorum (.string text) .quorum = some value := hvalue
              rw [Store.set_self] at hset
              cases hset
              exact hwritten
      | done => exact hsame nofun

/-- **One step.** -/
theorem Waits.step (hhealth : env.config.MIN_HEALTH_NET = false)
    (h : Waits env store past w)
    (hnow : ∀ P : MiningWorld → Prop, P w → Past env store P past) (event : ReadinessEvent) :
    Waits env store (past ++ [event]) (w.step env event) := by
  have hafter := h.append event
  have hnow' (P : MiningWorld → Prop) (hP : P w) : Past env store P (past ++ [event]) :=
    (hnow P hP).append event
  cases event with
  | collectBlock rovers blockchain =>
      have hcounted : Counted (past ++ [.collectBlock rovers blockchain]) blockchain :=
        .last (.collectBlock rovers blockchain) rfl past
      exact hafter.newRoveredBlock hhealth rovers hcounted
  | resume i =>
      rw [MiningWorld.step]
      split
      · exact hafter
      · next call hi =>
          obtain ⟨hsound, hcollected, hcan⟩ :=
            hafter.advance hhealth hnow' (List.mem_of_getElem? hi)
          refine ⟨hafter.quorum, hafter.greetings, ?_, fun hmine => ?_, ?_⟩
          · show (w.readiness.advance env w.store call).1.collectedBlocks.Sound _ _
            rw [hcollected]
            exact hafter.collected
          · exact hafter.canMine (hcan hmine)
          · intro other hother
            rcases List.mem_or_eq_of_mem_set hother with hmem | rfl
            · exact hafter.calls other hmem
            · exact hsound
  | raise blockchains =>
      refine ⟨hafter.quorum, hafter.greetings, ?_, hafter.canMine, hafter.calls⟩
      have hlabels : ∀ label ∈ blockchains, Counted (past ++ [.raise blockchains]) label :=
        fun label hlabel => .last (.raise blockchains) hlabel past
      exact List.foldlRecOn
        (motive := fun collected : CollectedBlocks => collected.Sound env.knownRovers _)
        blockchains CollectedBlocks.raise hafter.collected
        fun collected hcollected label hlabel => hcollected.raise (hlabels label hlabel)
  | pause paused =>
      exact ⟨hafter.quorum, hafter.greetings, hafter.collected, hafter.canMine, hafter.calls⟩
  | connections total =>
      exact ⟨hafter.quorum, hafter.greetings, hafter.collected, hafter.canMine, hafter.calls⟩
  | connection =>
      refine ⟨hafter.quorum, ?_, hafter.collected, hafter.canMine, hafter.calls⟩
      intro text htext
      rcases List.mem_append.1 htext with hold | hlast
      · exact hafter.greetings text hold
      · cases List.mem_singleton.1 hlast
  | resumeGreeting i => exact hafter.resumeGreeting hhealth hnow' i
  | countWaypoints =>
      refine ⟨?_, hafter.greetings, hafter.collected, hafter.canMine, hafter.calls⟩
      intro value hvalue
      rw [MiningWorld.step, P2p.countWaypoints] at hvalue
      split at hvalue
      · have hset : w.store.set .quorum (.string "0") .quorum = some value := hvalue
        rw [Store.set_self] at hset
        cases hset
        exact .inl (by decide)
      · exact hafter.quorum value hvalue
  | others changed =>
      refine ⟨?_, hafter.greetings, hafter.collected, hafter.canMine, hafter.calls⟩
      intro value hvalue
      have hkept : Function.update changed .quorum (w.store .quorum) .quorum = some value :=
        hvalue
      rw [Function.update_self] at hkept
      exact hafter.quorum value hkept

end Calls

/-- **Mining waits.**  On a node that has started without a quorum, however its calls,
greetings, timers and commits interleave, a call that gets as far as `startMining` has
seen a block of every chain counted, and enough connections; and the two blocks it has read
for the parent and for the highest block belong together. -/
theorem mining_waits {env : MiningEnv} (hhealth : env.config.MIN_HEALTH_NET = false)
    {store : Store} (hquorum : ∀ value, store .quorum = some value → belowOne value = true)
    (events : List ReadinessEvent) :
    ∀ call ∈ (events.foldl (MiningWorld.step env) (.start env store)).calls, ∀ read,
      call.progress = .settled .startMining read →
        Cleared env store events call.rovers read := by
  have hwaits : Waits env store events
      (events.foldl (MiningWorld.step env) (.start env store)) :=
    foldl_reached (I := Waits env store) (.start hquorum)
      (fun past event h => h.step hhealth (fun P hP => Past.now hP) event) events
  intro call hcall read hstarted
  have hsound := hwaits.calls call hcall
  rw [hstarted] at hsound
  exact hsound rfl

/-! ### One start -/

def sampleMiningEnv : MiningEnv where
  config := { USER_QUORUM := 1, MIN_HEALTH_NET := false }
  knownRovers := ["btc"]
  equals := (· == ·)

def sampleMiningParent : BcBlock := { hash := "9f", height := 4 }

def sampleMiningLatest : BcBlock := { hash := "a0", height := 5, previousHash := "9f" }

/-- Two blocks and no quorum. -/
def sampleMiningStore : Store :=
  ((Store.empty.set .quorum (.string "0")).set
    (.block .bc .parent) (.bcBlock sampleMiningParent)).set
    (.block .bc .latest) (.bcBlock sampleMiningLatest)

/-- A peer connects and is greeted, and then a block is collected. -/
def sampleMiningEvents : List ReadinessEvent :=
  [.connections 1, .connection] ++ List.replicate 4 (.resumeGreeting 0) ++
    [.collectBlock ["btc"] "btc"] ++ List.replicate 6 (.resume 0)

theorem mining_waits_sample :
    ∃ call ∈ (sampleMiningEvents.foldl (MiningWorld.step sampleMiningEnv)
        (.start sampleMiningEnv sampleMiningStore)).calls,
      call.progress =
        .settled .startMining (some (sampleMiningParent, sampleMiningLatest)) ∧
        Cleared sampleMiningEnv sampleMiningStore sampleMiningEvents call.rovers
          (some (sampleMiningParent, sampleMiningLatest)) := by
  have hquorum : ∀ value, sampleMiningStore .quorum = some value →
      belowOne value = true := by
    intro value hvalue
    cases hvalue
    decide
  have hcall : (⟨["btc"], .settled .startMining
      (some (sampleMiningParent, sampleMiningLatest))⟩ : RoveredCall) ∈
      (sampleMiningEvents.foldl (MiningWorld.step sampleMiningEnv)
        (.start sampleMiningEnv sampleMiningStore)).calls :=
    List.mem_of_getElem? (i := 0) rfl
  exact ⟨_, hcall, rfl, mining_waits rfl hquorum sampleMiningEvents _ hcall _ rfl⟩

end BcNode.Mining
