import AgenticDelivery.Data.Json
import AgenticDelivery.Runtime.Models

/-! # Approval, task and side-effect contracts

The records that bind a human decision and a queued task to one tool proposal,
and the functions that make them. A `datetime` is its number of microseconds. -/
namespace AgenticDelivery.Api
open AgenticDelivery.Data AgenticDelivery.Runtime

abbrev Datetime := Int

/-- `timedelta(minutes=n)` -/
def minutes (n : Int) : Int := n * 60 * 1000000

/-- `text[:n]` -/
def slice (n : Nat) (text : String) : String := String.ofList (text.toList.take n)

structure TicketArguments where
  workflowId : String
  title : String
  complexity : String
  deliverySteps : List String
  deriving DecidableEq, Repr

/-- `model_dump(mode="json", by_alias=True)` -/
def TicketArguments.modelDump (arguments : TicketArguments) : Json :=
  .obj [("workflowId", .str arguments.workflowId), ("title", .str arguments.title),
    ("complexity", .str arguments.complexity),
    ("deliverySteps", .arr (arguments.deliverySteps.map .str))]

structure ToolActionProposal where
  proposalId : String
  action : String := "create_delivery_ticket"
  arguments : TicketArguments
  schemaHash : String
  proposalDigest : String
  expiresAt : Datetime
  deriving DecidableEq, Repr

inductive Decision
  | approved | rejected
  deriving DecidableEq, Repr

def Decision.value : Decision → String
  | .approved => "approved"
  | .rejected => "rejected"

structure ApprovalDecision where
  decisionId : String
  decision : Decision
  reviewerId : String
  reason : String
  decidedAt : Datetime
  expiresAt : Datetime
  proposalDigest : String
  idempotencyKey : String
  consumedAt : Option Datetime := none
  deriving DecidableEq, Repr

structure ExecutionTask where
  taskId : String
  workflowId : String
  proposalDigest : String
  idempotencyKey : String
  deliveryAttempt : Nat := 0
  deriving DecidableEq, Repr

structure ToolExecutionResult where
  executionId : String
  ticketId : String
  status : String := "created"
  simulated : Bool := true
  executedAt : Datetime
  idempotencyKey : String
  proposalDigest : String
  deriving DecidableEq, Repr

/-- The arguments and the digest a plan of a workflow gives its proposal. -/
def ticketArguments (workflowId : String) (planningResult : PlanningResult) : TicketArguments :=
  { workflowId
    title := planningResult.proposal.summary
    complexity := planningResult.proposal.complexity.value
    deliverySteps := planningResult.proposal.deliverySteps }

def actionContract (arguments : TicketArguments) : Json :=
  .obj [("action", .str "create_delivery_ticket"), ("arguments", arguments.modelDump)]

/-- `create_tool_proposal`; `schema` is `TicketArguments.model_json_schema(by_alias=True)`. -/
def createToolProposal (schema : Json) (workflowId : String) (planningResult : PlanningResult)
    (now : Datetime) : ToolActionProposal :=
  let arguments := ticketArguments workflowId planningResult
  let digest := canonicalDigest (actionContract arguments)
  { proposalId := "proposal-" ++ slice 16 digest
    arguments
    schemaHash := canonicalDigest schema
    proposalDigest := digest
    expiresAt := now + minutes 30 }

def createApprovalDecision (proposal : ToolActionProposal) (reviewerId : String)
    (decision : Decision) (reason idempotencyKey : String) (now : Datetime) : ApprovalDecision :=
  { decisionId := canonicalDigest (.obj [("decision", .str decision.value),
      ("idempotencyKey", .str idempotencyKey), ("proposalDigest", .str proposal.proposalDigest),
      ("reviewerId", .str reviewerId)])
    decision
    reviewerId
    reason
    decidedAt := now
    expiresAt := min proposal.expiresAt (now + minutes 15)
    proposalDigest := proposal.proposalDigest
    idempotencyKey }

/-- The task identifier of a workflow, from a truncated hash of its id. -/
def taskIdOf (workflowId : String) : String :=
  "task-" ++ slice 16 (canonicalDigest (.obj [("workflowId", .str workflowId)]))

/-- The execution key of a workflow and a proposal. -/
def ticketKey (workflowId proposalDigest : String) : String :=
  "ticket:" ++ workflowId ++ ":" ++ proposalDigest

def createExecutionTask (workflowId proposalDigest : String) : ExecutionTask :=
  { taskId := taskIdOf workflowId
    workflowId
    proposalDigest
    idempotencyKey := ticketKey workflowId proposalDigest }

/-- With a given digest, the execution key determines the workflow. -/
theorem ticketKey_inj_left {w w' d : String} (h : ticketKey w d = ticketKey w' d) : w = w' := by
  have hl := congrArg String.toList h
  simp only [ticketKey, String.toList_append, List.append_assoc] at hl
  have hw := List.append_cancel_right (List.append_cancel_left hl)
  exact String.toList_inj.mp hw

/-- A word without `x` after the last `x` of a list is determined by the list. -/
theorem append_cons_inj {α : Type} {x : α} : ∀ {l l' m m' : List α}, x ∉ m → x ∉ m' →
    l ++ x :: m = l' ++ x :: m' → l = l' ∧ m = m'
  | [], [], _, _, _, _, h => ⟨rfl, (List.cons.inj h).2⟩
  | [], y :: l', _, _, hm, _, h => by
    obtain ⟨-, ht⟩ := List.cons.inj h
    exact absurd (ht ▸ List.mem_append_right l' List.mem_cons_self) hm
  | y :: l, [], _, _, _, hm', h => by
    obtain ⟨-, ht⟩ := List.cons.inj h
    exact absurd (ht ▸ List.mem_append_right l List.mem_cons_self) hm'
  | y :: l, z :: l', _, _, hm, hm', h => by
    obtain ⟨hy, ht⟩ := List.cons.inj h
    obtain ⟨hl, he⟩ := append_cons_inj hm hm' ht
    exact ⟨by rw [hy, hl], he⟩

/-- The execution key determines workflow and digest when no digest has a colon. -/
theorem ticketKey_inj {w w' d d' : String} (hd : ':' ∉ d.toList) (hd' : ':' ∉ d'.toList)
    (h : ticketKey w d = ticketKey w' d') : w = w' ∧ d = d' := by
  have hl := congrArg String.toList h
  simp only [ticketKey, String.toList_append, List.append_assoc] at hl
  obtain ⟨hw, he⟩ := append_cons_inj hd hd' (List.append_cancel_left hl)
  exact ⟨String.toList_inj.mp hw, String.toList_inj.mp he⟩

end AgenticDelivery.Api
