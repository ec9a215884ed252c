import BcNode.Mining.WorkIds

/-!
# The process of the worker pool

`mining/thread` runs as a master, which the engine forks and sends its work, and as the
threads that the master forks to do the mining.  For each piece of work the master has all
threads killed and forks the ones that are missing; a thread gets the work, mines, and
reports once; what it reports goes on to the engine.

`fkill` finds processes by their title, and `cluster.workers` forgets a thread some time
after its end.  So a thread may be killed at any moment, and it may count for a while
after that.

`Master.Carries` says that all work in the process is work it has been sent, and that all
reports answer it; `step_carries` that it stays so.  `step_crowd` is about the number of
threads.  The handlers of two pieces of work can overlap, and each then forks what it
found missing when it started.
-/

namespace BcNode.Mining.WorkerPool

open BcNode.Verified BcNode.Js

/-! ## The process -/

/-- What the engine sends. -/
inductive Request where
  | config (maxWorkers : Nat)
  | work (data : WorkData)
  | reset
  deriving DecidableEq, Repr

/-- An entry of `cluster.workers`, with what it still has to mine, if anything. -/
structure Thread where
  id : Nat
  work : Option WorkData
  deriving DecidableEq, Repr

/-- What a thread sends; the data is `null` when it has mined for too long. -/
structure Report where
  thread : Nat
  data : Option Solution
  workId : String
  deriving DecidableEq, Repr

/-- The handler of a `work` that has come: how many threads it is yet to fork, once its
`fkill` has settled. -/
structure Deployment where
  data : WorkData
  left : Option Nat := none
  deriving DecidableEq, Repr

/-- The master, with what is on its way to it.  A worker is in `listening` until its
`once('message')` has been used up. -/
structure Master where
  maxWorkers : Nat := 2
  inbox : List Request := []
  deployments : List Deployment := []
  threads : List Thread := []
  listening : List Nat := []
  reports : List Report := []
  nextId : Nat := 1
  deriving DecidableEq, Repr

/-- What goes into `stats`: `iterations` over `timeDiff`. -/
def iterationRate (data : Option Solution) : Except JsError Int :=
  match data with
  | none => .error .typeError
  | some solution => do
      let iterations ← newBN solution.iterations
      let timeDiff ← newBN solution.timeDiff
      if timeDiff = 0 then throw assertionFailed
      else return iterations.tdiv timeDiff

namespace Master

/-- The next message of the engine.  Nothing is done about a `reset`. -/
def receive (master : Master) : Master :=
  match master.inbox with
  | [] => master
  | .config maxWorkers :: inbox =>
      let maxWorkers := if maxWorkers = 0 then master.maxWorkers else maxWorkers
      { master with inbox, maxWorkers := max 2 (maxWorkers - 3) }
  | .work data :: inbox =>
      { master with inbox, deployments := master.deployments ++ [{ data }] }
  | .reset :: inbox => { master with inbox }

/-- The loop of a handler up to its next `await`: it forks a thread and sends it the work,
or it is through. -/
def deploy (master : Master) (k : Nat) (data : WorkData) : Nat → Master
  | 0 => { master with deployments := master.deployments.eraseIdx k }
  | left + 1 =>
      { master with
        threads := master.threads ++ [⟨master.nextId, some data⟩]
        listening := master.listening ++ [master.nextId]
        nextId := master.nextId + 1
        deployments := master.deployments.set k ⟨data, some left⟩ }

/-- A handler goes on. -/
def resume (master : Master) (k : Nat) : Master :=
  match master.deployments[k]? with
  | none => master
  | some ⟨data, none⟩ =>
      master.deploy k data (master.maxWorkers - master.threads.length)
  | some ⟨data, some left⟩ => master.deploy k data left

/-- A thread has nothing left to mine. -/
def finish (master : Master) (j id : Nat) : Master :=
  { master with threads := master.threads.set j ⟨id, none⟩ }

def report (master : Master) (report : Report) : Master :=
  { master with reports := master.reports ++ [report] }

/-- A thread mines its work. -/
def mined (pkg : Packages) (master : Master) (j tsStart : Nat) (ticks : List Tick) :
    Master :=
  match master.threads[j]? with
  | some ⟨id, some data⟩ =>
      match mineWork pkg data tsStart ticks with
      | .ok (.solution solution) =>
          (master.finish j id).report ⟨id, some solution, data.workId⟩
      | .ok .null => (master.finish j id).report ⟨id, none, data.workId⟩
      | .ok .mining => master
      | .error _ => master.finish j id
  | _ => master

def killed (master : Master) (j : Nat) : Master :=
  match master.threads[j]? with
  | none => master
  | some thread => master.finish j thread.id

/-- The listener of a worker.  It counts before it sends, and what it counts may throw. -/
def hear (master : Master) (i : Nat) : Master × Option PoolMessage :=
  match master.reports[i]? with
  | none => (master, none)
  | some report =>
      let master := { master with reports := master.reports.eraseIdx i }
      if report.thread ∈ master.listening then
        let master := { master with listening := master.listening.erase report.thread }
        match iterationRate report.data with
        | .error _ => (master, none)
        | .ok _ => (master, some ⟨"solution", report.data, some report.workId⟩)
      else (master, none)

end Master

/-- What can happen in the process.  `abandon` is the end of a handler whose thread could
not be forked or sent its work. -/
inductive MasterEvent where
  | receive
  | resume (k : Nat)
  | abandon (k : Nat)
  | mined (j tsStart : Nat) (ticks : List Tick)
  | killed (j : Nat)
  | removed (j : Nat)
  | heard (i : Nat)
  | lost (i : Nat)
  deriving DecidableEq, Repr

/-- The process after an event, and what it sends to the engine. -/
def Master.step (pkg : Packages) (master : Master) :
    MasterEvent → Master × Option PoolMessage
  | .receive => (master.receive, none)
  | .resume k => (master.resume k, none)
  | .abandon k => ({ master with deployments := master.deployments.eraseIdx k }, none)
  | .mined j tsStart ticks => (master.mined pkg j tsStart ticks, none)
  | .killed j => (master.killed j, none)
  | .removed j => ({ master with threads := master.threads.eraseIdx j }, none)
  | .heard i => master.hear i
  | .lost i => ({ master with reports := master.reports.eraseIdx i }, none)

/-! ## What the process carries -/

/-- The solution is found in the work, by some clock and with some nonces. -/
def MinedFrom (pkg : Packages) (data : WorkData) (solution : Solution) : Prop :=
  ∃ tsStart ticks, mineWork pkg data tsStart ticks = .ok (.solution solution)

/-- The solution was found in work that has been sent under this id. -/
def Answers (pkg : Packages) (sent : WorkData → Prop) (workId : String)
    (solution : Solution) : Prop :=
  ∃ data, sent data ∧ data.workId = workId ∧ MinedFrom pkg data solution

/-- What goes to the engine. -/
def Forwarded (pkg : Packages) (sent : WorkData → Prop) (msg : PoolMessage) : Prop :=
  ∃ workId solution, msg = ⟨"solution", some solution, some workId⟩ ∧
    Answers pkg sent workId solution ∧ solution.timeDiff ≠ 0

/-- All work in the process has been sent to it, and all reports answer it. -/
structure Master.Carries (pkg : Packages) (sent : WorkData → Prop) (master : Master) :
    Prop where
  inbox : ∀ data, .work data ∈ master.inbox → sent data
  deployments : ∀ deployment ∈ master.deployments, sent deployment.data
  threads : ∀ thread ∈ master.threads, ∀ data ∈ thread.work, sent data
  reports : ∀ report ∈ master.reports, ∀ solution ∈ report.data,
    Answers pkg sent report.workId solution

theorem Answers.mono {pkg : Packages} {sent sent' : WorkData → Prop}
    (hsent : ∀ data, sent data → sent' data) {workId : String} {solution : Solution}
    (h : Answers pkg sent workId solution) : Answers pkg sent' workId solution := by
  obtain ⟨data, hdata, hanswer⟩ := h
  exact ⟨data, hsent data hdata, hanswer⟩

theorem Forwarded.mono {pkg : Packages} {sent sent' : WorkData → Prop}
    (hsent : ∀ data, sent data → sent' data) {msg : PoolMessage}
    (h : Forwarded pkg sent msg) : Forwarded pkg sent' msg := by
  obtain ⟨workId, solution, hmsg, hanswers, htime⟩ := h
  exact ⟨workId, solution, hmsg, hanswers.mono hsent, htime⟩

/-- What is counted is a solution that has taken some time. -/
theorem iterationRate_ok {data : Option Solution} {rate : Int}
    (h : iterationRate data = .ok rate) :
    ∃ solution, data = some solution ∧ solution.timeDiff ≠ 0 := by
  cases data with
  | none => cases h
  | some solution =>
      refine ⟨solution, rfl, fun hzero => ?_⟩
      obtain ⟨iterations, -, h⟩ := bind_ok.1 h
      obtain ⟨timeDiff, htime, h⟩ := bind_ok.1 h
      have hnone : timeDiff = 0 := by
        rw [hzero] at htime
        exact (Except.ok.inj htime).symm
      rw [if_pos hnone] at h
      cases h

namespace Master.Carries

variable {pkg : Packages} {sent : WorkData → Prop} {master : Master}

/-- A process that has just been forked. -/
theorem start (pkg : Packages) (sent : WorkData → Prop) : Carries pkg sent {} where
  inbox _ h := nomatch h
  deployments := List.forall_mem_nil _
  threads := List.forall_mem_nil _
  reports := List.forall_mem_nil _

theorem mono {sent' : WorkData → Prop} (hsent : ∀ data, sent data → sent' data)
    (h : master.Carries pkg sent) : master.Carries pkg sent' where
  inbox data hdata := hsent data (h.inbox data hdata)
  deployments deployment hmem := hsent _ (h.deployments deployment hmem)
  threads thread hmem data hdata := hsent data (h.threads thread hmem data hdata)
  reports report hmem solution hdata := (h.reports report hmem solution hdata).mono hsent

/-- A message of the engine is on its way to the process. -/
theorem send (h : master.Carries pkg sent) {request : Request}
    (hrequest : ∀ data, request = .work data → sent data) :
    { master with inbox := master.inbox ++ [request] : Master }.Carries pkg sent where
  inbox data hdata := by
    rcases List.mem_append.1 hdata with hold | hlast
    · exact h.inbox data hold
    · exact hrequest data (List.mem_singleton.1 hlast).symm
  deployments := h.deployments
  threads := h.threads
  reports := h.reports

theorem receive (h : master.Carries pkg sent) : master.receive.Carries pkg sent := by
  unfold Master.receive
  split
  · exact h
  · next maxWorkers inbox hinbox =>
      refine { h with inbox := fun data hdata => ?_ }
      exact h.inbox data (hinbox ▸ List.mem_cons_of_mem _ hdata)
  · next work inbox hinbox =>
      refine { h with inbox := fun data hdata => ?_, deployments := ?_ }
      · exact h.inbox data (hinbox ▸ List.mem_cons_of_mem _ hdata)
      · intro deployment hmem
        rcases List.mem_append.1 hmem with hold | hlast
        · exact h.deployments deployment hold
        · cases List.mem_singleton.1 hlast
          exact h.inbox work (hinbox ▸ List.mem_cons_self)
  · next inbox hinbox =>
      refine { h with inbox := fun data hdata => ?_ }
      exact h.inbox data (hinbox ▸ List.mem_cons_of_mem _ hdata)

theorem eraseDeployment (h : master.Carries pkg sent) (k : Nat) :
    { master with deployments := master.deployments.eraseIdx k : Master }.Carries pkg sent :=
  { h with deployments := fun _ hmem => h.deployments _ (List.mem_of_mem_eraseIdx hmem) }

theorem deploy (h : master.Carries pkg sent) (k : Nat) {data : WorkData}
    (hdata : sent data) (left : Nat) : (master.deploy k data left).Carries pkg sent := by
  cases left with
  | zero => exact h.eraseDeployment k
  | succ left =>
      refine { h with deployments := ?_, threads := ?_ }
      · intro deployment hmem
        rcases List.mem_or_eq_of_mem_set hmem with hold | rfl
        · exact h.deployments deployment hold
        · exact hdata
      · intro thread hmem work hwork
        rcases List.mem_append.1 hmem with hold | hlast
        · exact h.threads thread hold work hwork
        · cases List.mem_singleton.1 hlast
          cases hwork
          exact hdata

theorem resume (h : master.Carries pkg sent) (k : Nat) :
    (master.resume k).Carries pkg sent := by
  unfold Master.resume
  split
  · exact h
  · next data hk => exact h.deploy k (h.deployments _ (List.mem_of_getElem? hk)) _
  · next data left hk => exact h.deploy k (h.deployments _ (List.mem_of_getElem? hk)) _

theorem finish (h : master.Carries pkg sent) (j id : Nat) :
    (master.finish j id).Carries pkg sent := by
  refine { h with threads := fun thread hmem data hdata => ?_ }
  rcases List.mem_or_eq_of_mem_set hmem with hold | rfl
  · exact h.threads thread hold data hdata
  · cases hdata

theorem report (h : master.Carries pkg sent) {report : Report}
    (hreport : ∀ solution ∈ report.data, Answers pkg sent report.workId solution) :
    (master.report report).Carries pkg sent := by
  refine { h with reports := fun other hmem => ?_ }
  rcases List.mem_append.1 hmem with hold | hlast
  · exact h.reports other hold
  · cases List.mem_singleton.1 hlast
    exact hreport

/-- What a thread reports answers the work it has got. -/
theorem mined (h : master.Carries pkg sent) (j tsStart : Nat) (ticks : List Tick) :
    (master.mined pkg j tsStart ticks).Carries pkg sent := by
  unfold Master.mined
  split
  · next id data hj =>
      split
      · next solution hmine =>
          refine (h.finish j id).report fun found hfound => ?_
          cases hfound
          exact ⟨data, h.threads _ (List.mem_of_getElem? hj) data rfl, rfl, tsStart, ticks,
            hmine⟩
      · exact (h.finish j id).report fun found hfound => nomatch hfound
      · exact h
      · exact h.finish j id
  · exact h

theorem killed (h : master.Carries pkg sent) (j : Nat) :
    (master.killed j).Carries pkg sent := by
  unfold Master.killed
  split
  · exact h
  · exact h.finish j _

theorem eraseReport (h : master.Carries pkg sent) (i : Nat) :
    { master with reports := master.reports.eraseIdx i : Master }.Carries pkg sent :=
  { h with reports := fun report hmem => h.reports report (List.mem_of_mem_eraseIdx hmem) }

/-- What the master makes of a report is a solution of the same work. -/
theorem hear (h : master.Carries pkg sent) (i : Nat) :
    (master.hear i).1.Carries pkg sent ∧
      ∀ msg ∈ (master.hear i).2, Forwarded pkg sent msg := by
  unfold Master.hear
  split
  · exact ⟨h, fun msg hmsg => nomatch hmsg⟩
  · next report hi =>
      have hrest := h.eraseReport i
      dsimp only
      split
      · split
        · exact ⟨{ hrest with }, fun msg hmsg => nomatch hmsg⟩
        · next rate hrate =>
            refine ⟨{ hrest with }, fun msg hmsg => ?_⟩
            cases hmsg
            obtain ⟨solution, hdata, htime⟩ := iterationRate_ok hrate
            refine ⟨report.workId, solution, by rw [hdata], ?_, htime⟩
            exact h.reports report (List.mem_of_getElem? hi) solution hdata
      · exact ⟨hrest, fun msg hmsg => nomatch hmsg⟩

end Master.Carries

/-- Nothing that happens in the process brings in other work, or a report that does not
answer it. -/
theorem step_carries {pkg : Packages} {sent : WorkData → Prop} {master : Master}
    (h : master.Carries pkg sent) (event : MasterEvent) :
    (master.step pkg event).1.Carries pkg sent ∧
      ∀ msg ∈ (master.step pkg event).2, Forwarded pkg sent msg := by
  cases event with
  | receive => exact ⟨h.receive, fun msg hmsg => nomatch hmsg⟩
  | resume k => exact ⟨h.resume k, fun msg hmsg => nomatch hmsg⟩
  | abandon k => exact ⟨h.eraseDeployment k, fun msg hmsg => nomatch hmsg⟩
  | mined j tsStart ticks => exact ⟨h.mined j tsStart ticks, fun msg hmsg => nomatch hmsg⟩
  | killed j => exact ⟨h.killed j, fun msg hmsg => nomatch hmsg⟩
  | removed j =>
      refine ⟨{ h with threads := fun thread hmem => ?_ }, fun msg hmsg => nomatch hmsg⟩
      exact h.threads thread (List.mem_of_mem_eraseIdx hmem)
  | heard i => exact h.hear i
  | lost i => exact ⟨h.eraseReport i, fun msg hmsg => nomatch hmsg⟩

/-! ## How many threads there are -/

/-- The threads that a handler will still fork. -/
def Deployment.pending (deployment : Deployment) : Nat := deployment.left.getD 0

/-- The handlers that are in their loops. -/
def Master.deploying (master : Master) : Nat :=
  master.deployments.countP (·.left.isSome)

/-- When a handler gets to its loop, at most `overlap` others are in theirs. -/
def Overlap (overlap : Nat) (master : Master) : MasterEvent → Prop
  | .resume k =>
      match master.deployments[k]? with
      | some ⟨_, none⟩ => master.deploying ≤ overlap
      | _ => True
  | _ => True

instance (overlap : Nat) (master : Master) (event : MasterEvent) :
    Decidable (Overlap overlap master event) := by
  unfold Overlap
  split
  · split <;> infer_instance
  · infer_instance

/-- With at most `limit` threads for each piece of work: the threads there are, and those
that will be forked. -/
structure Master.Crowd (limit overlap : Nat) (master : Master) : Prop where
  two : 2 ≤ limit
  config : ∀ maxWorkers, .config maxWorkers ∈ master.inbox → maxWorkers - 3 ≤ limit
  maxWorkers : master.maxWorkers ≤ limit
  pending : ∀ deployment ∈ master.deployments, deployment.pending ≤ limit - 1
  bound : master.threads.length + (master.deployments.map Deployment.pending).sum ≤
    limit + overlap * (limit - 1)

/-- Only the handlers in their loops will fork. -/
theorem sum_pending_le {limit : Nat} {deployments : List Deployment}
    (h : ∀ deployment ∈ deployments, deployment.pending ≤ limit) :
    (deployments.map Deployment.pending).sum ≤
      deployments.countP (·.left.isSome) * limit := by
  induction deployments with
  | nil => exact Nat.zero_le _
  | cons deployment deployments ih =>
      have hrest := ih fun other hother => h other (List.mem_cons_of_mem _ hother)
      have hfirst := h deployment List.mem_cons_self
      rw [List.map_cons, List.sum_cons]
      cases hleft : deployment.left with
      | none =>
          rw [List.countP_cons_of_neg (by simp [hleft]), Deployment.pending, hleft]
          simpa using hrest
      | some left =>
          rw [List.countP_cons_of_pos (by simp [hleft]), Nat.succ_mul]
          omega

namespace Master.Crowd

variable {limit overlap : Nat} {master : Master}

theorem start (h : 2 ≤ limit) : Crowd limit overlap {} where
  two := h
  config _ h := nomatch h
  maxWorkers := h
  pending := List.forall_mem_nil _
  bound := Nat.zero_le _

theorem send (h : master.Crowd limit overlap) {request : Request}
    (hrequest : ∀ maxWorkers, request = .config maxWorkers → maxWorkers - 3 ≤ limit) :
    { master with inbox := master.inbox ++ [request] : Master }.Crowd limit overlap := by
  refine { h with config := fun maxWorkers hmem => ?_ }
  rcases List.mem_append.1 hmem with hold | hlast
  · exact h.config maxWorkers hold
  · exact hrequest maxWorkers (List.mem_singleton.1 hlast).symm

theorem receive (h : master.Crowd limit overlap) : master.receive.Crowd limit overlap := by
  unfold Master.receive
  split
  · exact h
  · next maxWorkers inbox hinbox =>
      have hfirst := h.config maxWorkers (hinbox ▸ List.mem_cons_self)
      refine { h with config := fun other hmem => ?_, maxWorkers := ?_ }
      · exact h.config other (hinbox ▸ List.mem_cons_of_mem _ hmem)
      · have htwo := h.two
        have hmax := h.maxWorkers
        dsimp only
        split <;> omega
  · next work inbox hinbox =>
      refine { h with config := fun other hmem => ?_, pending := ?_, bound := ?_ }
      · exact h.config other (hinbox ▸ List.mem_cons_of_mem _ hmem)
      · intro deployment hmem
        rcases List.mem_append.1 hmem with hold | hlast
        · exact h.pending deployment hold
        · cases List.mem_singleton.1 hlast
          exact Nat.zero_le _
      · rw [List.map_append, List.sum_append]
        exact h.bound
  · next inbox hinbox =>
      refine { h with config := fun other hmem => ?_ }
      exact h.config other (hinbox ▸ List.mem_cons_of_mem _ hmem)

theorem eraseDeployment (h : master.Crowd limit overlap) (k : Nat) :
    { master with deployments := master.deployments.eraseIdx k : Master }.Crowd
      limit overlap := by
  refine { h with pending := fun deployment hmem => ?_, bound := ?_ }
  · exact h.pending deployment (List.mem_of_mem_eraseIdx hmem)
  · have hbound := h.bound
    dsimp only
    cases hk : master.deployments[k]? with
    | none => rwa [List.eraseIdx_of_length_le (List.getElem?_eq_none_iff.1 hk)]
    | some deployment =>
        have hsum := sum_map_eraseIdx Deployment.pending hk
        omega

/-- The loop forks one of the threads it still has to fork, or of those it starts with. -/
theorem deploy (h : master.Crowd limit overlap) {k : Nat} {deployment : Deployment}
    (hk : master.deployments[k]? = some deployment) (data : WorkData) {left : Nat}
    (hleft : left ≤ limit)
    (hbound : master.threads.length + left +
        (master.deployments.map Deployment.pending).sum ≤
      limit + overlap * (limit - 1) + deployment.pending) :
    (master.deploy k data left).Crowd limit overlap := by
  cases left with
  | zero => exact h.eraseDeployment k
  | succ left =>
      refine { h with pending := fun other hmem => ?_, bound := ?_ }
      · rcases List.mem_or_eq_of_mem_set hmem with hold | rfl
        · exact h.pending other hold
        · exact Nat.le_sub_one_of_lt hleft
      · have hsum := sum_map_set Deployment.pending hk ⟨data, some left⟩
        have hlast : Deployment.pending ⟨data, some left⟩ = left := rfl
        simp only [Master.deploy, List.length_append, List.length_singleton]
        omega

theorem resume (h : master.Crowd limit overlap) {k : Nat}
    (hoverlap : Overlap overlap master (.resume k)) :
    (master.resume k).Crowd limit overlap := by
  have hmax := h.maxWorkers
  have hbound := h.bound
  unfold Master.resume
  split
  · exact h
  · next data hk =>
      rw [Overlap, hk] at hoverlap
      have hpending := sum_pending_le h.pending
      have hloops := Nat.mul_le_mul_right (limit - 1) hoverlap
      by_cases hfull : master.maxWorkers ≤ master.threads.length
      · rw [Nat.sub_eq_zero_of_le hfull]
        exact h.eraseDeployment k
      · refine h.deploy hk data (Nat.le_trans (Nat.sub_le ..) hmax) ?_
        have hnone : Deployment.pending ⟨data, none⟩ = 0 := rfl
        unfold Master.deploying at hloops
        omega
  · next data left hk =>
      have hleft := h.pending _ (List.mem_of_getElem? hk)
      have hsome : Deployment.pending ⟨data, some left⟩ = left := rfl
      exact h.deploy hk data (by omega) (by omega)

theorem finish (h : master.Crowd limit overlap) (j id : Nat) :
    (master.finish j id).Crowd limit overlap := by
  refine { h with bound := ?_ }
  rw [Master.finish, List.length_set]
  exact h.bound

theorem mined (h : master.Crowd limit overlap) (pkg : Packages) (j tsStart : Nat)
    (ticks : List Tick) : (master.mined pkg j tsStart ticks).Crowd limit overlap := by
  unfold Master.mined
  split
  · next id data hj =>
      split
      · exact { h.finish j id with }
      · exact { h.finish j id with }
      · exact h
      · exact h.finish j id
  · exact h

theorem hear (h : master.Crowd limit overlap) (i : Nat) :
    (master.hear i).1.Crowd limit overlap := by
  unfold Master.hear
  split
  · exact h
  · dsimp only
    split
    · split <;> exact { h with }
    · exact { h with }

end Master.Crowd

/-- With no more than `overlap` handlers in the way of another, the process has room for
the threads of one piece of work, and for all but one of those of each other. -/
theorem step_crowd {limit overlap : Nat} {master : Master}
    (h : master.Crowd limit overlap) (pkg : Packages) {event : MasterEvent}
    (hoverlap : Overlap overlap master event) :
    (master.step pkg event).1.Crowd limit overlap := by
  cases event with
  | receive => exact h.receive
  | resume k => exact h.resume hoverlap
  | abandon k => exact h.eraseDeployment k
  | mined j tsStart ticks => exact h.mined pkg j tsStart ticks
  | killed j =>
      rw [Master.step, Master.killed]
      split
      · exact h
      · exact h.finish j _
  | removed j =>
      refine { h with bound := Nat.le_trans ?_ h.bound }
      exact Nat.add_le_add_right (List.length_eraseIdx_le ..) _
  | heard i => exact h.hear i
  | lost i => exact { h with }

end BcNode.Mining.WorkerPool
