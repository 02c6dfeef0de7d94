import Noxara.GraphWalks
import Noxara.WorkflowActivities

/-! The dry run: the graph walked against a sample payload, without a database and without calls.
It is an interpreter of its own beside the engine. -/
namespace Noxara.Workflows

open Finance (stripPrefix)

inductive SimulatedStatus
  | ok | denied | waiting
  deriving DecidableEq

structure SimulateStepResult where
  stepIndex : Int
  nodeId : String
  nodeType : String
  action : Option String := none
  status : SimulatedStatus
  detail : Option String
  permission : Option String := none
  permissionAllowed : Option Bool := none
  deriving DecidableEq

structure SimulateResult where
  ok : Bool
  steps : List SimulateStepResult
  error : Option String
  sideEffects : Bool := false
  deriving DecidableEq

/-- The step, and then the rest of the run. -/
def SimulateResult.after (step : SimulateStepResult) (r : SimulateResult) : SimulateResult :=
  { r with steps := step :: r.steps }

/-- The value at a path: key by key, without the empty parts. -/
def jsonPath (root : Json) (path : String) : Option Json :=
  root.along ((Json.splitChar '.' path).filter fun part => !part.isEmpty)

def simulatedValue (payload : Json) (path : String) : Option Json :=
  jsonPath payload ((stripPrefix path "payload.").getD path)

def simulatedConditionNext (payload : Json) (path : String) (equals : Json) (thenNext elseNext : String) :
    String :=
  if simulatedValue payload path = some equals then thenNext else elseNext

def simulatedBranchNext (payload : Json) (arms : List BranchArm) (defaultNext : String) : String :=
  ((arms.find? fun arm => simulatedValue payload arm.path = some arm.equals).map (·.next)).getD defaultNext

def requiredPermStr (action : String) : Option String := (actionEntry action).map (·.requiredPermission)

section
variable [JsonText]

def renderTemplates (value payload : Json) : Json := renderValue payload value

/-- The run from a node on, with `n` steps left until the cap. -/
def simulateFrom (graph : WorkflowGraph) (principal : Principal) (payload : Json) (maxSteps : Int) :
    Nat → Int → Option String → SimulateResult
  | _, _, none => { ok := false, steps := [], error := some "graph ended without an End node" }
  | 0, _, some _ =>
    { ok := false, steps := []
      error := some s!"iteration/step cap exceeded ({maxSteps}); run failed closed" }
  | n + 1, stepIndex, some nodeId =>
    match graph.node nodeId with
    | none => { ok := false, steps := [], error := some s!"unknown node '{nodeId}'" }
    | some (.endNode id) =>
      { ok := true, error := none
        steps := [{ stepIndex, nodeId := id, nodeType := "end", status := .ok, detail := some "completed" }] }
    | some (.action id action params next) =>
      match enforceActionPermission principal action with
      | .ok pid =>
        (simulateFrom graph principal payload maxSteps n (stepIndex + 1) next).after
          { stepIndex, nodeId := id, nodeType := "action", action := some action, status := .ok
            detail := some (s!"would call action '{action}' with " ++
              JsonText.display (renderTemplates params payload))
            permission := some pid, permissionAllowed := some true }
      | .error e =>
        { ok := false, error := some s!"action '{action}' denied"
          steps := [{ stepIndex, nodeId := id, nodeType := "action", action := some action, status := .denied
                      detail := some e.detail, permission := requiredPermStr action
                      permissionAllowed := some false }] }
    | some (.condition id path equals thenNext elseNext) =>
      let matched := decide (simulatedValue payload path = some equals)
      (simulateFrom graph principal payload maxSteps n (stepIndex + 1)
          (some (simulatedConditionNext payload path equals thenNext elseNext))).after
        { stepIndex, nodeId := id, nodeType := "condition", status := .ok
          detail := some s!"matched={matched}" }
    | some (.branch id arms defaultNext) =>
      let chosen := simulatedBranchNext payload arms defaultNext
      (simulateFrom graph principal payload maxSteps n (stepIndex + 1) (some chosen)).after
        { stepIndex, nodeId := id, nodeType := "branch", status := .ok, detail := some s!"next={chosen}" }
    | some (.timer id durationSecs next) =>
      (simulateFrom graph principal payload maxSteps n (stepIndex + 1) (some next)).after
        { stepIndex, nodeId := id, nodeType := "timer", status := .waiting
          detail := some s!"would wait {durationSecs}s (no timer started)" }
    | some (.human id kind _ onApprove _) =>
      let actionKey := match kind with | .approval => some "start_approval" | .inbox => none
      let wait := (simulateFrom graph principal payload maxSteps n (stepIndex + 1) (some onApprove)).after
        { stepIndex, nodeId := id, nodeType := "human", action := actionKey, status := .waiting
          detail := some "would wait for human decision (simulation assumes approve)"
          permission := actionKey.bind requiredPermStr, permissionAllowed := some true }
      match kind with
      | .inbox => wait
      | .approval =>
        match enforceActionPermission principal "start_approval" with
        | .ok _ => wait
        | .error e =>
          { ok := false, error := some "human/approval step denied"
            steps := [{ stepIndex, nodeId := id, nodeType := "human", action := some "start_approval"
                        status := .denied, detail := some e.detail
                        permission := requiredPermStr "start_approval", permissionAllowed := some false }] }

/-- Walk the graph against a sample payload. -/
def simulate (graph : WorkflowGraph) (principal : Principal) (payload : Json) (maxSteps : Int) :
    SimulateResult :=
  simulateFrom graph principal payload maxSteps maxSteps.toNat 0 (some graph.entry)

end

/-- Where the simulator goes on from a node; nowhere from an end or a denied step. -/
def simulatorNext (principal : Principal) (payload : Json) : WorkflowNode → Option String
  | .endNode _ => none
  | .action _ action _ next =>
    match enforceActionPermission principal action with | .ok _ => next | .error _ => none
  | .condition _ path equals thenNext elseNext =>
    some (simulatedConditionNext payload path equals thenNext elseNext)
  | .branch _ arms defaultNext => some (simulatedBranchNext payload arms defaultNext)
  | .timer _ _ next => some next
  | .human _ .inbox _ onApprove _ => some onApprove
  | .human _ .approval _ onApprove _ =>
    match enforceActionPermission principal "start_approval" with
    | .ok _ => some onApprove
    | .error _ => none

def WorkflowNode.isEnd : WorkflowNode → Bool
  | endNode _ => true
  | _ => false

def reachesEnd (nodes : List WorkflowNode) : Bool := nodes.getLast?.any WorkflowNode.isEnd

theorem reachesEnd_cons {node : WorkflowNode} (h : node.isEnd = false) (nodes : List WorkflowNode) :
    reachesEnd (node :: nodes) = reachesEnd nodes := by
  cases nodes with
  | nil => simp [reachesEnd, h]
  | cons n ns => simp [reachesEnd]

variable [JsonText]

theorem simulateFrom_spec (graph : WorkflowGraph) (principal : Principal) (payload : Json) (maxSteps : Int)
    (n : Nat) (i : Int) (current : Option String) :
    (simulateFrom graph principal payload maxSteps n i current).steps.map (·.nodeId) =
        (walk graph.node (simulatorNext principal payload) n current).map (·.id) ∧
      (simulateFrom graph principal payload maxSteps n i current).ok =
        reachesEnd (walk graph.node (simulatorNext principal payload) n current) := by
  induction n generalizing i current with
  | zero => cases current <;> exact ⟨rfl, rfl⟩
  | succ n ih =>
    cases current with
    | none => exact ⟨rfl, rfl⟩
    | some nodeId =>
      cases hnode : graph.node nodeId with
      | none =>
        have hnone : (some nodeId).bind graph.node = none := hnode
        rw [walk_of_none hnone]
        simp [simulateFrom, hnode, reachesEnd]
      | some node =>
        have hsome : (some nodeId).bind graph.node = some node := hnode
        rw [walk_of_some hsome]
        -- a step that goes on is the first of its walk
        have hgoes : ∀ next step, step.nodeId = node.id → node.isEnd = false →
            simulatorNext principal payload node = next →
            ((simulateFrom graph principal payload maxSteps n (i + 1) next).after step).steps.map (·.nodeId) =
                (node :: walk graph.node (simulatorNext principal payload) n
                  (simulatorNext principal payload node)).map (·.id) ∧
              ((simulateFrom graph principal payload maxSteps n (i + 1) next).after step).ok =
                reachesEnd (node :: walk graph.node (simulatorNext principal payload) n
                  (simulatorNext principal payload node)) := by
          intro next step hstep hend hnext
          obtain ⟨hsteps, hok⟩ := ih (i + 1) next
          rw [hnext, reachesEnd_cons hend, List.map_cons, ← hsteps, ← hok, ← hstep]
          exact ⟨rfl, rfl⟩
        have hstops : simulatorNext principal payload node = none →
            node :: walk graph.node (simulatorNext principal payload) n
              (simulatorNext principal payload node) = [node] := fun hnext => by
          rw [hnext, walk_of_none rfl]
        cases node with
        | endNode id =>
          rw [hstops rfl]
          simp only [simulateFrom, hnode]
          exact ⟨rfl, rfl⟩
        | action id action params next =>
          cases hperm : enforceActionPermission principal action with
          | ok pid =>
            simp only [simulateFrom, hnode, hperm]
            exact hgoes _ _ rfl rfl (by simp only [simulatorNext, hperm])
          | error e =>
            rw [hstops (by simp only [simulatorNext, hperm])]
            simp only [simulateFrom, hnode, hperm]
            exact ⟨rfl, rfl⟩
        | condition id path equals thenNext elseNext =>
          simp only [simulateFrom, hnode]
          exact hgoes _ _ rfl rfl rfl
        | branch id arms defaultNext =>
          simp only [simulateFrom, hnode]
          exact hgoes _ _ rfl rfl rfl
        | timer id durationSecs next =>
          simp only [simulateFrom, hnode]
          exact hgoes _ _ rfl rfl rfl
        | human id kind params onApprove onReject =>
          cases kind with
          | inbox =>
            simp only [simulateFrom, hnode]
            exact hgoes _ _ rfl rfl rfl
          | approval =>
            cases hperm : enforceActionPermission principal "start_approval" with
            | ok pid =>
              simp only [simulateFrom, hnode, hperm]
              exact hgoes _ _ rfl rfl (by simp only [simulatorNext, hperm])
            | error e =>
              rw [hstops (by simp only [simulatorNext, hperm])]
              simp only [simulateFrom, hnode, hperm]
              exact ⟨rfl, rfl⟩

end Noxara.Workflows
