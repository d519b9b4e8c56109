import DistributedCore.Library.OrderedMap
import DistributedCore.Library.Runs
import Mathlib.Data.Int.Notation

/-!
# Runs of a pipeline

A pipeline is a graph of steps. An executor follows its edges from the trigger: a Fork follows all
its edges at once, a Join waits for several of its incoming edges, and every other step follows the
edges of the handle that its outcome chooses. A step that fails follows its `error` edges; if it has
none, the failure is thrown up to the next Fork, which waits for all its branches and then tells
the Join below each failed branch, or else to the caller of `run`.

Source: `src/applications/pipeline/PipelineExecutor.ts`, `src/applications/pipeline/types.ts`.
-/

namespace DistributedCore.Pipeline

open Option

/-! ### Definitions of pipelines -/

/-- When a join fires. -/
inductive JoinMode
  | all
  | any
  | nOfM (n : Option ℤ)
  deriving DecidableEq

inductive Decision
  | approve
  | reject
  deriving DecidableEq

inductive NodeData
  | trigger
  | llm
  | transform
  | condition
  | action
  | fork
  | join (mode : JoinMode)
  /-- `timeout` is the decision that is made when the timer fires, if there is a timer. -/
  | approval (requiredCount : ℕ) (timeout : Option Decision)
  deriving DecidableEq

def NodeData.gives : NodeData → Option String → Bool
  | .trigger, outcome | .fork, outcome => outcome = some "out"
  | .transform, outcome | .action, outcome => outcome = some "out" ∨ outcome = none
  | .condition, outcome => outcome = some "true" ∨ outcome = some "false"
  | .llm, outcome => outcome = none
  | .join _, _ | .approval .., _ => false

structure PipelineNode where
  id : String
  data : NodeData
  deriving DecidableEq

structure PipelineEdge where
  id : String
  source : String
  sourceHandle : String
  target : String
  deriving DecidableEq

/-- The graph of a pipeline. -/
structure PipelineDefinition where
  nodes : List PipelineNode
  edges : List PipelineEdge

namespace PipelineDefinition

variable (d : PipelineDefinition)

def nodeById (id : String) : Option PipelineNode := d.nodes.reverse.find? (·.id = id)

def outgoing (id : String) : List PipelineEdge := d.edges.filter (·.source = id)

def incoming (id : String) : List PipelineEdge := d.edges.filter (·.target = id)

def findTrigger : Option PipelineNode := d.nodes.find? (·.data = .trigger)

/-- The loop of `findDownstreamJoin`. Every edge is queued at most once, which bounds the number of
its rounds. -/
def searchJoin : ℕ → List String → List (String × PipelineEdge) →
    Option (PipelineNode × JoinMode × PipelineEdge)
  | 0, _, _ | _, _, [] => none
  | rounds + 1, visited, (id, via) :: queue =>
    if id ∈ visited then searchJoin rounds visited queue
    else
      match d.nodeById id with
      | none => searchJoin rounds (id :: visited) queue
      | some node =>
        match node.data with
        | .join mode => some (node, mode, via)
        | _ => searchJoin rounds (id :: visited) (queue ++
            ((d.outgoing id).filter (·.target ∉ id :: visited)).map fun e => (e.target, e))

/-- The join that an edge leads to. -/
def findDownstreamJoin (edge : PipelineEdge) : Option (PipelineNode × JoinMode × PipelineEdge) :=
  d.searchJoin (d.edges.length + 1) [] [(edge.target, edge)]

end PipelineDefinition

/-! ### Joins -/

structure JoinArrival where
  edgeId : String
  completed : Bool
  sourceStepId : String
  deriving DecidableEq

def completedCount (arrivals : List JoinArrival) : ℕ := arrivals.countP (·.completed)

def requiredCount (n : Option ℤ) (connectedCount : ℕ) : ℤ :=
  min (n.getD connectedCount) connectedCount

def requiredInputs (mode : JoinMode) (connectedCount : ℕ) : ℤ :=
  match mode with
  | .all => connectedCount
  | .any => 1
  | .nOfM n => requiredCount n connectedCount

def shouldJoinFire (mode : JoinMode) (arrivals : List JoinArrival) (connectedCount : ℕ) : Bool :=
  match mode with
  | .all => connectedCount ≤ arrivals.length
  | .any => 1 ≤ completedCount arrivals ∨
      0 < connectedCount ∧ connectedCount ≤ arrivals.countP (!·.completed)
  | .nOfM n =>
    requiredCount n connectedCount ≤ completedCount arrivals ∨
      completedCount arrivals + max 0 ((connectedCount : ℤ) - arrivals.length) <
        requiredCount n connectedCount

def joinFailed (mode : JoinMode) (arrivals : List JoinArrival) (connectedCount : ℕ) : Bool :=
  match mode with
  | .all => arrivals.any (!·.completed)
  | .any => completedCount arrivals = 0
  | .nOfM n => (completedCount arrivals : ℤ) < requiredCount n connectedCount

/-! ### Executors -/

inductive PipelineEvent
  | runStarted
  | runCompleted
  | runFailed (nodeId : String)
  | runCancelled
  | stepStarted (stepId : String)
  | stepCompleted (stepId : String)
  | stepFailed (stepId : String)
  | stepCancelled (stepId : String)
  | stepSkipped (stepId : String)
  | llmPrompt (stepId : String)
  | llmToken (stepId : String)
  | llmResponse (stepId : String)
  | approvalRequested (stepId : String)
  | approvalRecorded (stepId : String) (decision : Decision)
  | joinWaiting (stepId : String) (received : ℕ) (required : ℤ)
  | joinFired (stepId : String) (inputs : List String)
  deriving DecidableEq

def PipelineEvent.isReport : PipelineEvent → Bool
  | .llmPrompt _ | .llmToken _ | .llmResponse _ | .approvalRequested _ | .approvalRecorded ..
  | .joinWaiting .. => true
  | _ => false

inductive RunStatus
  | running
  | completed
  | failed
  | cancelled
  deriving DecidableEq

/-- Where a failure is thrown to: the caller of `run`, or a Fork, given by its task, that follows an
edge or delivers the failure of that branch. -/
inductive Scope
  | root
  | branch (fork : ℕ) (edge : PipelineEdge)
  | delivery (fork : ℕ) (edge : PipelineEdge)
  deriving DecidableEq

/-- The waits of a step. -/
inductive Progress
  /-- the publication of `step:started` -/
  | started
  | sleeping
  /-- the next chunk of a language model, and the publications before it -/
  | streaming
  /-- the publication of the response -/
  | responded
  /-- the publication of `approval:requested` -/
  | requested
  | awaiting
  | decided (decision : Decision)
  deriving DecidableEq

/-- The waits of a task. -/
inductive Stage
  /-- the publication of `run:started` -/
  | entering (nodeId : String)
  | working (node : PipelineNode) (progress : Progress)
  /-- the publication of `step:completed` -/
  | completing (node : PipelineNode) (handle : String)
  /-- the publication of `step:failed` -/
  | failing (node : PipelineNode)
  /-- the branches of a Fork -/
  | forked (edges : List PipelineEdge)
  /-- the arrival of the failure of a branch at a Join; more branches have failed -/
  | delivering (edge : PipelineEdge) (rest : List PipelineEdge)
  /-- the publication of `step:started` of a Join -/
  | joinStarted (stepId : String) (mode : JoinMode) (arrival : JoinArrival)
  /-- the publication of `join:waiting` -/
  | joinWaiting (stepId : String) (mode : JoinMode) (firstArrival : Bool)
  /-- the sleep before `join:fired` -/
  | firing (stepId : String) (mode : JoinMode)
  /-- the publication of `join:fired` -/
  | fired (stepId : String) (failed : Bool)
  /-- the publication of `step:completed` or `step:failed` of a Join -/
  | joined (stepId : String) (failed : Bool)
  | ended
  deriving DecidableEq

structure Task where
  scope : Scope
  stage : Stage
  deriving DecidableEq

def Task.reject (task : Task) : Task :=
  match task.stage with
  | .working node .awaiting => { task with stage := .working node (.decided .reject) }
  | _ => task

structure PendingApproval where
  task : ℕ
  requiredCount : ℕ
  approvals : ℕ

/-- An executor. `steps` are the ids of the steps that have a record; `arrivals` are the arrivals of
a Join, which stay when its state is deleted from `joinStates`; `followed` are the Joins that have
gone on to their outgoing edges. -/
structure PipelineExecutor where
  running : Bool
  cancelled : Bool
  status : RunStatus
  currentStepIds : List String
  steps : List String
  pendingApprovals : OrderedMap String PendingApproval
  joinStates : List String
  firedJoins : List String
  arrivals : String → List JoinArrival
  tasks : List Task
  failures : List (Scope × String)
  followed : List String
  published : List PipelineEvent

/-- The calls, and the waits that end. -/
inductive ExecutorEvent
  | run
  /-- The task at index `k` goes on. A step fails if there is no outcome, and otherwise chooses a
  handle. -/
  | proceed (k : ℕ) (outcome : Option String)
  /-- A token of a language model. -/
  | token (k : ℕ)
  /-- The timer of the approval that the task at index `k` waits for fires. -/
  | timeout (k : ℕ)
  | resolveApproval (stepId : String) (decision : Decision)
  /-- The traversal from the trigger has settled. -/
  | settle
  | cancel

namespace PipelineExecutor

def fresh : PipelineExecutor :=
  ⟨false, false, .running, [], [], .empty, [], [], fun _ => [], [], [], [], []⟩

variable (d : PipelineDefinition) (s : PipelineExecutor)

def emit (event : PipelineEvent) : PipelineExecutor :=
  { s with published := s.published ++ [event] }

def setStage (k : ℕ) (stage : Stage) : PipelineExecutor :=
  { s with tasks := s.tasks.modify k fun task => { task with stage } }

def spawn (scope : Scope) (stage : Stage) : PipelineExecutor :=
  { s with tasks := s.tasks ++ [⟨scope, stage⟩] }

variable (stepId : String)

def enter : PipelineExecutor :=
  { s with
    steps := s.steps.insert stepId
    currentStepIds := s.currentStepIds.insert stepId }

def leave : PipelineExecutor := { s with currentStepIds := s.currentStepIds.filter (· ≠ stepId) }

def push (arrival : JoinArrival) : PipelineExecutor :=
  { s with arrivals := Function.update s.arrivals stepId (s.arrivals stepId ++ [arrival]) }

def markFired : PipelineExecutor := { s with firedJoins := s.firedJoins.insert stepId }

def clearJoin : PipelineExecutor :=
  { (s.leave stepId).markFired stepId with joinStates := s.joinStates.filter (· ≠ stepId) }

def goOn : PipelineExecutor := { s with followed := s.followed ++ [stepId] }

variable (k : ℕ) (scope : Scope)

def throw (nodeId : String) : PipelineExecutor :=
  { s.setStage k .ended with failures := s.failures ++ [(scope, nodeId)] }

def failure : Option String := s.failures.lookup scope

/-- The scope has failed, or all of its tasks have ended. -/
def ScopeEnded : Prop :=
  (s.failure scope).isSome ∨ ∀ task ∈ s.tasks, task.scope = scope → task.stage = .ended

instance decidableScopeEnded : Decidable (s.ScopeEnded scope) :=
  inferInstanceAs (Decidable (_ ∨ ∀ task ∈ s.tasks, task.scope = scope → task.stage = .ended))

def executeFromNode (nodeId : String) : PipelineExecutor :=
  if s.cancelled then s
  else
    match d.nodeById nodeId with
    | none => s
    | some node =>
      ((s.enter node.id).emit (.stepStarted node.id)).spawn scope (.working node .started)

def waitingEvent (mode : JoinMode) : PipelineEvent :=
  .joinWaiting stepId (s.arrivals stepId).length
    (requiredInputs mode (d.incoming stepId).length)

/-- A join that has not fired records the arrival and is going to decide. -/
def handleJoinArrival (stepId : String) (mode : JoinMode) (arrival : JoinArrival) :
    PipelineExecutor :=
  if stepId ∈ s.firedJoins then s
  else if stepId ∈ s.joinStates then
    let s := s.push stepId arrival
    (s.emit (s.waitingEvent d stepId mode)).spawn scope (.joinWaiting stepId mode false)
  else
    let s := { s.enter stepId with joinStates := s.joinStates ++ [stepId] }
    (s.emit (.stepStarted stepId)).spawn scope (.joinStarted stepId mode arrival)

def routeInto (edge : PipelineEdge) : PipelineExecutor :=
  match d.nodeById edge.target with
  | none => s
  | some target =>
    match target.data with
    | .join mode => s.handleJoinArrival d scope target.id mode ⟨edge.id, true, edge.source⟩
    | _ => s.executeFromNode d scope edge.target

def route (edges : List (Scope × PipelineEdge)) : PipelineExecutor :=
  edges.foldl (fun s e => s.routeInto d e.1 e.2) s

def finish (node : PipelineNode) (outcome : Option String) : PipelineExecutor :=
  if s.cancelled then (s.leave node.id).setStage k .ended
  else
    match outcome with
    | some handle => (s.emit (.stepCompleted node.id)).setStage k (.completing node handle)
    | none => (s.emit (.stepFailed node.id)).setStage k (.failing node)

def dispatch (node : PipelineNode) (outcome : Option String) : Progress → Option PipelineExecutor
  | .started =>
    match node.data, outcome with
    | .llm, some _ => some ((s.emit (.llmPrompt node.id)).setStage k (.working node .streaming))
    | .join _, _ => some (s.finish k node (some "out"))
    | _, _ => some (s.setStage k (.working node .sleeping))
  | .sleeping =>
    match node.data with
    | .approval .. =>
      some ((s.emit (.approvalRequested node.id)).setStage k (.working node .requested))
    | data => if data.gives outcome then some (s.finish k node outcome) else none
  | .streaming =>
    if s.cancelled ∨ outcome = none then some (s.finish k node none)
    else some ((s.emit (.llmResponse node.id)).setStage k (.working node .responded))
  | .responded => some (s.finish k node (some "out"))
  | .requested =>
    match node.data with
    | .approval requiredCount _ => some ({ s with
        pendingApprovals := s.pendingApprovals.set node.id ⟨k, max 1 requiredCount, 0⟩
        }.setStage k (.working node .awaiting))
    | _ => none
  | .awaiting => none
  | .decided decision =>
    some (s.finish k node (some (if decision = .approve then "approved" else "rejected")))

def follow (edges : List PipelineEdge) : PipelineExecutor :=
  (s.setStage k .ended).route d (edges.map fun e => (scope, e))

def afterCompleted (node : PipelineNode) (handle : String) : PipelineExecutor :=
  if node.data = .fork then
    let edges := (d.outgoing node.id).filter (·.sourceHandle ≠ "error")
    if edges = [] then s.setStage k .ended
    else (s.setStage k (.forked edges)).route d (edges.map fun e => (.branch k e, e))
  else s.follow d k scope ((d.outgoing node.id).filter (·.sourceHandle = handle))

def afterFailed (stepId : String) : PipelineExecutor :=
  let errorEdges := (d.outgoing stepId).filter (·.sourceHandle = "error")
  if errorEdges = [] then s.throw k scope stepId else s.follow d k scope errorEdges

def deliver (k : ℕ) : List PipelineEdge → PipelineExecutor
  | [] => s.setStage k .ended
  | edge :: rest =>
    match d.findDownstreamJoin edge with
    | none => deliver k rest
    | some (join, mode, via) =>
      (s.setStage k (.delivering edge rest)).handleJoinArrival d (.delivery k edge) join.id mode
        ⟨via.id, false, (s.failure (.branch k edge)).getD ""⟩

/-- The task goes on to its next wait. -/
def resume (outcome : Option String) : Option PipelineExecutor :=
  match s.tasks[k]? with
  | none => none
  | some ⟨scope, stage⟩ =>
    match stage with
    | .entering nodeId => some ((s.setStage k .ended).executeFromNode d scope nodeId)
    | .working node progress => s.dispatch k node outcome progress
    | .completing node handle =>
      let s := s.leave node.id
      some (if s.cancelled then s.setStage k .ended else s.afterCompleted d k scope node handle)
    | .failing node =>
      let s := s.leave node.id
      some (if s.cancelled then s.setStage k .ended else s.afterFailed d k scope node.id)
    | .forked edges =>
      if ∀ e ∈ edges, s.ScopeEnded (.branch k e) then
        some (s.deliver d k (edges.filter fun e => (s.failure (.branch k e)).isSome))
      else none
    | .delivering edge rest =>
      if s.ScopeEnded (.delivery k edge) then
        match s.failure (.delivery k edge) with
        | some nodeId => some (s.throw k scope nodeId)
        | none => some (s.deliver d k rest)
      else none
    | .joinStarted stepId mode arrival =>
      let s := s.push stepId arrival
      some ((s.emit (s.waitingEvent d stepId mode)).setStage k (.joinWaiting stepId mode true))
    | .joinWaiting stepId mode firstArrival =>
      if shouldJoinFire mode (s.arrivals stepId) (d.incoming stepId).length ∧
          (firstArrival ∨ stepId ∈ s.joinStates) then
        some ((s.markFired stepId).setStage k (.firing stepId mode))
      else some (s.setStage k .ended)
    | .firing stepId mode =>
      let arrivals := s.arrivals stepId
      some ((s.emit (.joinFired stepId (arrivals.map (·.sourceStepId)))).setStage k
        (.fired stepId (joinFailed mode arrivals (d.incoming stepId).length)))
    | .fired stepId failed =>
      some (((s.clearJoin stepId).emit
        (if failed then .stepFailed stepId else .stepCompleted stepId)).setStage k
          (.joined stepId failed))
    | .joined stepId failed =>
      some (if failed then (s.goOn stepId).afterFailed d k scope stepId
        else (s.goOn stepId).follow d k scope ((d.outgoing stepId).filter (·.sourceHandle = "out")))
    | .ended => none

def settleApproval (decision : Decision) : PipelineExecutor :=
  match s.tasks[k]? with
  | some ⟨_, .working node .awaiting⟩ => s.setStage k (.working node (.decided decision))
  | _ => s

def resolveApproval (decision : Decision) : PipelineExecutor :=
  match s.pendingApprovals.get stepId with
  | none => s
  | some pending =>
    let s := s.emit (.approvalRecorded stepId decision)
    if decision = .approve ∧ pending.approvals + 1 < pending.requiredCount then
      let pending := { pending with approvals := pending.approvals + 1 }
      { s with pendingApprovals := s.pendingApprovals.set stepId pending }
    else
      { s with pendingApprovals := s.pendingApprovals.delete stepId
        }.settleApproval pending.task decision

def onTimeout (stepId : String) (decision : Decision) : PipelineExecutor :=
  if s.pendingApprovals.has stepId then
    { s.emit (.approvalRecorded stepId decision) with
      pendingApprovals := s.pendingApprovals.delete stepId }.settleApproval k decision
  else s

def settle : PipelineExecutor :=
  if s.cancelled ∨ s.status ≠ .running then s
  else
    match s.failure .root with
    | none => { s with status := .completed }.emit .runCompleted
    | some nodeId => { s with status := .failed }.emit (.runFailed nodeId)

def cancel : PipelineExecutor :=
  if s.cancelled ∨ ¬s.running then s
  else
    let skipped := ((d.nodes.map (·.id)).filter (· ∉ s.steps)).eraseDups
    { s with
      cancelled := true
      status := .cancelled
      steps := s.steps ++ skipped
      pendingApprovals := .empty
      tasks := s.tasks.map Task.reject
      published := s.published ++ s.currentStepIds.map .stepCancelled ++
        skipped.map .stepSkipped ++ [.runCancelled] }

def step (s : PipelineExecutor) : ExecutorEvent → Option PipelineExecutor
  | .run =>
    if s.running then some s
    else
      let s := { s with running := true }
      match d.findTrigger with
      | none => some ({ s with status := .failed }.emit (.runFailed "(none)"))
      | some trigger => some ((s.emit .runStarted).spawn .root (.entering trigger.id))
  | .proceed k outcome => s.resume d k outcome
  | .token k =>
    match s.tasks[k]? with
    | some ⟨_, .working node .streaming⟩ =>
      some (if s.cancelled then s.finish k node none else s.emit (.llmToken node.id))
    | _ => none
  | .timeout k =>
    match s.tasks[k]? with
    | some ⟨_, .working ⟨id, .approval _ (some decision)⟩ .awaiting⟩ =>
      some (s.onTimeout k id decision)
    | _ => none
  | .resolveApproval stepId decision => some (s.resolveApproval stepId decision)
  | .settle => if s.running ∧ s.ScopeEnded .root then some s.settle else none
  | .cancel => some (s.cancel d)

/-! ### What a step does between two waits -/

/-- Only reports are published and approvals recorded. -/
def Reports (s t : PipelineExecutor) : Prop :=
  ∃ pending events, (∀ event ∈ events, event.isReport = true) ∧
    t = { s with pendingApprovals := pending, published := s.published ++ events }

variable {s}

theorem Reports.emit {event : PipelineEvent} (h : event.isReport = true) :
    s.Reports (s.emit event) :=
  ⟨_, [event], List.forall_mem_singleton.mpr h, rfl⟩

theorem Reports.pending (pending : OrderedMap String PendingApproval) :
    s.Reports { s with pendingApprovals := pending } :=
  ⟨pending, [], List.forall_mem_nil _, by rw [List.append_nil]⟩

theorem dispatch_cases {s' : PipelineExecutor} {k : ℕ} {node : PipelineNode}
    {outcome : Option String} {progress : Progress}
    (h : s.dispatch k node outcome progress = some s') :
    (∃ outcome, s' = s.finish k node outcome) ∨
      ∃ t progress, s.Reports t ∧ s' = t.setStage k (.working node progress) := by
  unfold dispatch at h
  cases progress with
  | started =>
    dsimp only at h
    split at h <;> cases h
    · exact .inr ⟨_, _, .emit rfl, rfl⟩
    · exact .inl ⟨_, rfl⟩
    · exact .inr ⟨_, _, .pending _, rfl⟩
  | sleeping =>
    dsimp only at h
    split at h
    · cases h
      exact .inr ⟨_, _, .emit rfl, rfl⟩
    · obtain ⟨-, heq⟩ := ite_none_right_eq_some.mp h
      exact .inl ⟨_, (some.inj heq).symm⟩
  | streaming =>
    dsimp only at h
    split_ifs at h <;> cases h
    · exact .inl ⟨_, rfl⟩
    · exact .inr ⟨_, _, .emit rfl, rfl⟩
  | responded => exact .inl ⟨_, (some.inj h).symm⟩
  | requested =>
    dsimp only at h
    split at h
    · exact .inr ⟨_, _, .pending _, (some.inj h).symm⟩
    · cases h
  | awaiting => cases h
  | decided => exact .inl ⟨_, (some.inj h).symm⟩

end PipelineExecutor

end DistributedCore.Pipeline
