import Noxara.WorkflowSimulation
import Noxara.WorkflowVisits

/-! The engine beside the simulator. Both walk the graph, and where no action is denied they can
only part at a condition or a branch, where each reads the payload in its own way. -/
namespace Noxara.Workflows

open Finance (Uuid Formats stripPrefix canonicalFormats)

/-- Where the engine goes on from a node; nowhere from an end or a denied action. -/
def engineNext (principal : Principal) (payload : Json) : WorkflowNode → Option String
  | .endNode _ => none
  | .action _ action _ next =>
    match enforceActionPermission principal action with | .ok _ => next | .error _ => none
  | .condition _ path equals thenNext elseNext => some (conditionNext payload path equals thenNext elseNext)
  | .branch _ arms defaultNext => some (branchNext payload arms defaultNext)
  | .timer _ _ next => some next
  | .human _ _ _ onApprove _ => some onApprove

def WorkflowNode.denied (principal : Principal) : WorkflowNode → Bool
  | action _ key _ _ =>
    match enforceActionPermission principal key with | .ok _ => false | .error _ => true
  | _ => false

/-- Neither a timer nor a human step. -/
def WorkflowNode.isPlain : WorkflowNode → Bool
  | timer _ _ _ => false
  | human _ _ _ _ _ => false
  | _ => true

def WorkflowGraph.Plain (g : WorkflowGraph) : Prop := ∀ node ∈ g.nodes, node.isPlain = true

section
variable [Formats] [JsonText]

def CallsSucceed (req : RunRequest) (turns : Nat → Turn) (payload : Json) : Prop :=
  ∀ k, ∀ node ∈ req.graph.nodes, (nodeCall req (turns k) payload node).bind ActionCall.error = none

variable [Clock]

/-- An end completes the instance, a denied action fails it, and from any other node it moves on. -/
theorem nodeVerdict_plain {req : RunRequest} {turn : Turn} {payload : Json} {node : WorkflowNode}
    (hplain : node.isPlain = true) (hcall : (nodeCall req turn payload node).bind ActionCall.error = none) :
    (node.isEnd = true ∧ node.denied req.principal = false ∧ engineNext req.principal payload node = none ∧
        ∃ step change eventType, nodeVerdict req turn payload node = .rests step change eventType ∧
          ∀ i r, (change i r).status = .completed) ∨
      (node.denied req.principal = true ∧ ∃ message step,
        nodeVerdict req turn payload node = .fails message step) ∨
      (node.isEnd = false ∧ node.denied req.principal = false ∧ ∃ step,
        nodeVerdict req turn payload node = .moves step (engineNext req.principal payload node)) := by
  cases node with
  | endNode id => exact .inl ⟨rfl, rfl, rfl, _, _, _, rfl, fun _ _ => rfl⟩
  | action id action params next =>
    simp only [nodeCall] at hcall
    simp only [WorkflowNode.denied, WorkflowNode.isEnd, engineNext, nodeVerdict]
    cases hperm : enforceActionPermission req.principal action with
    | error e => exact .inr (.inl ⟨rfl, _, _, rfl⟩)
    | ok perm =>
      rw [hperm] at hcall
      simp only [hcall]
      exact .inr (.inr ⟨trivial, trivial, _, rfl⟩)
  | condition id path equals thenNext elseNext => exact .inr (.inr ⟨rfl, rfl, _, rfl⟩)
  | branch id arms defaultNext => exact .inr (.inr ⟨rfl, rfl, _, rfl⟩)
  | timer id durationSecs next => cases hplain
  | human id kind params onApprove onReject => cases hplain

/-- `n` calls of `advance_instance`: what they looked at, and the store after them. -/
def advanceTimes (req : RunRequest) (id : Uuid) : Nat → (Nat → Turn) → Db → List Visit × Db
  | 0, _, db => ([], db)
  | n + 1, turns, db =>
    let a := advance req (turns 0) id db
    let r := advanceTimes req id n (fun k => turns (k + 1)) a.db
    (a.visit.toList ++ r.1, r.2)

variable {req : RunRequest} {id : Uuid} {db : Db} {row : InstanceRow} {c : Nat}

/-- Nothing more is looked at. -/
theorem advanceTimes_stuck (h : ∀ turn, (advance req turn id db).visit = none ∧ (advance req turn id db).db = db)
    (n : Nat) (turns : Nat → Turn) : advanceTimes req id n turns db = ([], db) := by
  induction n generalizing turns with
  | zero => rfl
  | succ n ih => simp only [advanceTimes, (h (turns 0)).1, (h (turns 0)).2, ih, Option.toList_none,
      List.nil_append]

theorem advanceTimes_succ {a : Advanced} (turns : Nat → Turn) (h : advance req (turns 0) id db = a) (n : Nat) :
    advanceTimes req id (n + 1) turns db =
      (a.visit.toList ++ (advanceTimes req id n (fun k => turns (k + 1)) a.db).1,
        (advanceTimes req id n (fun k => turns (k + 1)) a.db).2) := by
  subst h
  rfl

theorem stepVisit_none (turn : Turn) {maxSteps : Int}
    (h : (maxSteps - row.stepCount).toNat = 0 ∨ row.currentNodeId.bind req.graph.node = none) :
    stepVisit req turn maxSteps row = none ∧
      ∃ message, stepVerdict req turn maxSteps row = .fails message none := by
  rcases stepVerdict_cases req turn maxSteps row with ⟨v, hv, _⟩ | hnone
  · unfold stepVisit at hv
    obtain ⟨nodeId, hid, hnode⟩ := Option.bind_eq_some_iff.mp hv
    obtain ⟨hcur, hlt⟩ := Option.filter_eq_some_iff.mp hid
    have hlt := of_decide_eq_true hlt
    obtain ⟨node, hfound, _⟩ := Option.map_eq_some_iff.mp hnode
    rcases h with h | h
    · omega
    · rw [hcur, Option.bind_some, hfound] at h
      cases h
  · exact hnone

theorem stepVerdict_node (turn : Turn) {maxSteps : Int} {node : WorkflowNode} {k : Nat}
    (hk : (maxSteps - row.stepCount).toNat = k + 1)
    (hnode : row.currentNodeId.bind req.graph.node = some node) :
    stepVisit req turn maxSteps row =
        some ⟨row.stepCount + 1, node.id, nodeCall req turn row.triggerPayload node⟩ ∧
      stepVerdict req turn maxSteps row = nodeVerdict req turn row.triggerPayload node := by
  obtain ⟨nodeId, hcur, hfound⟩ := Option.bind_eq_some_iff.mp hnode
  have hlt : ¬maxSteps ≤ row.stepCount := by omega
  constructor
  · simp [stepVisit, hcur, not_le.mp hlt, Option.filter, hfound]
  · simp [stepVerdict, hcur, hfound, hlt]

theorem advance_no_node (hrow : db.RunningAt id row c)
    (h : (db.boundsOrDefault.maxStepsPerInstance - row.stepCount).toNat = 0 ∨
      row.currentNodeId.bind req.graph.node = none) (turn : Turn) :
    (advance req turn id db).visit = none ∧ (advance req turn id db).db = db := by
  obtain ⟨hvisit, m, hfails⟩ := stepVisit_none turn h
  rw [hrow.advance req turn, hvisit, hfails]
  exact ⟨rfl, rfl⟩

omit [Formats] [JsonText] [Clock] in
theorem Db.RunningAt.statusOf (h : db.RunningAt id row c) : db.statusOf id = some .running := by
  simp [Db.statusOf, h.found, h.running]

section
variable {payload : Json} {current : Option String}

/-- Without a denied action on the walk, the engine visits its nodes, and completes at an end. -/
theorem advanceTimes_walk {turns : Nat → Turn} {k n : Nat} (hplain : req.graph.Plain)
    (hcalls : CallsSucceed req turns payload) (hrow : db.RunningAt id row c)
    (hpayload : row.triggerPayload = payload) (hcurrent : row.currentNodeId = current)
    (hk : (db.boundsOrDefault.maxStepsPerInstance - row.stepCount).toNat = k) (hn : k ≤ n)
    (hallowed : ∀ node ∈ walk req.graph.node (engineNext req.principal payload) k current,
      node.denied req.principal = false) :
    (advanceTimes req id n turns db).1.map (·.nodeId) =
        (walk req.graph.node (engineNext req.principal payload) k current).map (·.id) ∧
      ((advanceTimes req id n turns db).2.statusOf id = some .completed ↔
        reachesEnd (walk req.graph.node (engineNext req.principal payload) k current) = true) := by
  induction k generalizing n turns db row c current with
  | zero =>
    rw [advanceTimes_stuck (advance_no_node hrow (.inl hk))]
    simp [walk, reachesEnd, hrow.statusOf]
  | succ k ih =>
    cases hnode : current.bind req.graph.node with
    | none =>
      rw [advanceTimes_stuck (advance_no_node hrow (.inr (by rw [hcurrent, hnode]))), walk_of_none hnode]
      simp [reachesEnd, hrow.statusOf]
    | some node =>
      obtain ⟨m, rfl⟩ : ∃ m, n = m + 1 := ⟨n - 1, by omega⟩
      obtain ⟨hvisit, hverdict⟩ := stepVerdict_node (turns 0) hk (by rw [hcurrent, hnode])
      have hadvance := hrow.advance req (turns 0)
      rw [hvisit, hverdict, hpayload] at hadvance
      rw [walk_of_some hnode] at hallowed ⊢
      have hmem : node ∈ req.graph.nodes := by
        obtain ⟨nodeId, _, hfound⟩ := Option.bind_eq_some_iff.mp hnode
        exact List.mem_of_find?_eq_some hfound
      rcases nodeVerdict_plain (hplain node hmem) (hcalls 0 node hmem) with
        ⟨hend, _, hnext, step, change, eventType, hv, hcompleted⟩ | ⟨hdenied, _⟩ | ⟨hend, _, step, hv⟩
      · rw [hv] at hadvance
        have hrest := hrow.rests req (turns 0) step change eventType
        have hstop := fun turn => advance_idle req turn fun row' hrow' hrun => by
          cases hrest.symm.trans hrow'
          rw [hcompleted] at hrun
          cases hrun
        rw [advanceTimes_succ turns hadvance, advanceTimes_stuck hstop, hnext, walk_of_none rfl]
        simp [reachesEnd, hend, Db.statusOf, hrest, hcompleted]
      · rw [hallowed node List.mem_cons_self] at hdenied
        cases hdenied
      · rw [hv] at hadvance
        have hlater : CallsSucceed req (fun i => turns (i + 1)) payload := fun i => hcalls (i + 1)
        have hmoves := hrow.moves req (turns 0) step (engineNext req.principal payload node)
        obtain ⟨hids, hstatus⟩ := ih hlater hmoves hpayload rfl
          (by
            change (db.boundsOrDefault.maxStepsPerInstance - (row.stepCount + 1)).toNat = k
            omega)
          (Nat.le_of_succ_le_succ hn) fun node' h => hallowed node' (List.mem_cons_of_mem _ h)
        rw [advanceTimes_succ turns hadvance, reachesEnd_cons hend, ← hstatus]
        simp only [Option.toList_some, List.singleton_append, List.map_cons, hids, and_true]

theorem advanceTimes_denied {turns : Nat → Turn} {k : Nat} (hplain : req.graph.Plain)
    (hcalls : CallsSucceed req turns payload) (hrow : db.RunningAt id row c)
    (hpayload : row.triggerPayload = payload) (hcurrent : row.currentNodeId = current)
    (hk : (db.boundsOrDefault.maxStepsPerInstance - row.stepCount).toNat = k)
    (hdenied : ∃ node ∈ walk req.graph.node (engineNext req.principal payload) k current,
      node.denied req.principal = true) (n : Nat) :
    (advanceTimes req id n turns db).1.length = n := by
  induction n generalizing turns db row c current k with
  | zero => rfl
  | succ n ih =>
    have hlater : CallsSucceed req (fun i => turns (i + 1)) payload := fun i => hcalls (i + 1)
    obtain ⟨found, hfound, hbad⟩ := hdenied
    cases k with
    | zero => cases hfound
    | succ k =>
      cases hnode : current.bind req.graph.node with
      | none =>
        rw [walk_of_none hnode] at hfound
        cases hfound
      | some node =>
        obtain ⟨hvisit, hverdict⟩ := stepVerdict_node (turns 0) hk (by rw [hcurrent, hnode])
        have hadvance := hrow.advance req (turns 0)
        rw [hvisit, hverdict, hpayload] at hadvance
        have hmem : node ∈ req.graph.nodes := by
          obtain ⟨nodeId, _, h⟩ := Option.bind_eq_some_iff.mp hnode
          exact List.mem_of_find?_eq_some h
        have htail : node.denied req.principal = false →
            found ∈ walk req.graph.node (engineNext req.principal payload) k
              (engineNext req.principal payload node) := fun hfine => by
          rw [walk_of_some hnode] at hfound
          rcases List.mem_cons.mp hfound with rfl | h
          · rw [hfine] at hbad
            cases hbad
          · exact h
        rcases nodeVerdict_plain (hplain node hmem) (hcalls 0 node hmem) with
          ⟨_, hfine, hnext, _⟩ | ⟨_, message, step, hv⟩ | ⟨_, hfine, step, hv⟩
        · have h := htail hfine
          rw [hnext, walk_of_none rfl] at h
          cases h
        · rw [hv] at hadvance
          have hagain := ih hlater hrow hpayload hcurrent hk ⟨found, hfound, hbad⟩
          rw [advanceTimes_succ turns hadvance, List.length_append]
          exact (congrArg (1 + ·) hagain).trans (Nat.add_comm 1 n)
        · rw [hv] at hadvance
          have hnext := ih hlater (hrow.moves req (turns 0) step (engineNext req.principal payload node))
            hpayload rfl (k := k)
            (by
              change (db.boundsOrDefault.maxStepsPerInstance - (row.stepCount + 1)).toNat = k
              omega)
            ⟨found, htail hfine, hbad⟩
          rw [advanceTimes_succ turns hadvance, List.length_append, hnext]
          exact Nat.add_comm 1 n

/-- The steps visit the nodes of the simulation, which is fine where the instance has completed. -/
def SimulatedBy (result : SimulateResult) (id : Uuid) (run : List Visit × Db) : Prop :=
  run.1.map (·.nodeId) = result.steps.map (·.nodeId) ∧
    (result.ok = true ↔ run.2.statusOf id = some .completed)

/-- Called again and again, the engine visits the nodes of the simulation, and completes where that
is fine, exactly where no action on its walk is denied and the two read the payload alike: from every
node but the last they go on to the same node. -/
theorem simulation_agrees_iff {turns : Nat → Turn} {maxSteps : Int} (hplain : req.graph.Plain)
    (hcalls : CallsSucceed req turns payload) (hrow : db.RunningAt id row 0)
    (hpayload : row.triggerPayload = payload) (hentry : row.currentNodeId = some req.graph.entry)
    (hbound : db.boundsOrDefault.maxStepsPerInstance = maxSteps) :
    (∀ n, maxSteps.toNat ≤ n → SimulatedBy (simulate req.graph req.principal payload maxSteps) id
        (advanceTimes req id n turns db)) ↔
      (∀ node ∈ walk req.graph.node (engineNext req.principal payload) maxSteps.toNat (some req.graph.entry),
        node.denied req.principal = false) ∧
        Agree req.graph.node (engineNext req.principal payload) (simulatorNext req.principal payload)
          maxSteps.toNat (some req.graph.entry) := by
  have hk : (db.boundsOrDefault.maxStepsPerInstance - row.stepCount).toNat = maxSteps.toNat := by
    rw [hrow.count, hbound]
    omega
  obtain ⟨hsteps, hok⟩ := simulateFrom_spec req.graph req.principal payload maxSteps maxSteps.toNat 0
    (some req.graph.entry)
  have hkey : ∀ x n, req.graph.node x = some n → n.id = x := fun _ _ => WorkflowGraph.node_id
  unfold SimulatedBy simulate
  rw [hsteps, hok, ← walk_eq_iff]
  constructor
  · intro h
    have hallowed : ∀ node ∈ walk req.graph.node (engineNext req.principal payload) maxSteps.toNat
        (some req.graph.entry), node.denied req.principal = false := by
      by_contra hsome
      push Not at hsome
      obtain ⟨node, hmem, hdenied⟩ := hsome
      -- one call more than the bound has nodes
      have hlong := advanceTimes_denied hplain hcalls hrow hpayload hentry hk
        ⟨node, hmem, Bool.eq_true_of_not_eq_false hdenied⟩ (maxSteps.toNat + 1)
      have hsame := congrArg List.length (h (maxSteps.toNat + 1) (Nat.le_succ _)).1
      rw [List.length_map, List.length_map, hlong] at hsame
      have hshort := length_walk_le req.graph.node (simulatorNext req.principal payload)
        maxSteps.toNat (some req.graph.entry)
      omega
    refine ⟨hallowed, walk_eq_of_map_eq hkey ?_⟩
    rw [← (advanceTimes_walk hplain hcalls hrow hpayload hentry hk (Nat.le_refl _) hallowed).1]
    exact (h maxSteps.toNat (Nat.le_refl _)).1
  · intro ⟨hallowed, hwalk⟩ n hn
    obtain ⟨hids, hstatus⟩ := advanceTimes_walk hplain hcalls hrow hpayload hentry hk hn hallowed
    rw [← hwalk]
    exact ⟨hids, hstatus.symm⟩

end

end

def WorkflowGraph.followUp : WorkflowGraph where
  entry := "check"
  trigger := .domainEvent "sales.deal.won"
  nodes := [.condition "check" "payload.deal.stage" (.string "won") "follow" "done",
    .action "follow" "create_task" (.object []) (some "done"), .endNode "done"]

theorem simulation_agrees_follow_up :
    letI := canonicalFormats
    letI := plainText
    letI := secondsClock
    let payload := Json.ofFields [("deal", .ofFields [("stage", .string "won")])]
    ∀ n, 100 ≤ n → SimulatedBy (simulate .followUp ⟨fun _ => true⟩ payload 100) 7
      (advanceTimes (.of .followUp) 7 n (fun _ => .answering 201) (.starting none payload "check")) := by
  let := canonicalFormats
  let := plainText
  let := secondsClock
  intro payload
  obtain ⟨row, hrow⟩ := Db.starting_runningAt none payload "check"
  have hfound := hrow.found
  cases hfound
  have hplain : WorkflowGraph.followUp.Plain := by
    unfold WorkflowGraph.Plain
    decide
  have hcalls : ∀ node ∈ WorkflowGraph.followUp.nodes,
      (nodeCall (.of .followUp) (.answering 201) payload node).bind ActionCall.error = none := by
    decide +kernel
  refine (simulation_agrees_iff hplain ?_ hrow rfl rfl rfl).mpr (by decide +kernel)
  exact fun _ => hcalls

/-- A payload with a dotted key: the engine finds it through a pointer and follows up, the simulator
looks for a stage inside a deal and does not. -/
theorem simulation_misses_dotted_key :
    letI := canonicalFormats
    letI := plainText
    letI := secondsClock
    let payload := Json.ofFields [("deal.stage", .string "won")]
    WorkflowGraph.followUp.validate = .ok () ∧
      (advanceTimes (.of .followUp) 7 100 (fun _ => .answering 201)
        (.starting none payload "check")).1.map (·.nodeId) = ["check", "follow", "done"] ∧
      (simulate .followUp ⟨fun _ => true⟩ payload 100).steps.map (·.nodeId) = ["check", "done"] := by
  decide +kernel

end Noxara.Workflows
