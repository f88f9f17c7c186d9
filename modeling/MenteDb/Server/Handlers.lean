import MenteDb.Facade.Execute
import MenteDb.Facade.Policies

/-!
# The server

Handlers of the REST interface and of the gRPC service over one shared database.
A request is given after its fields are parsed; one that does not parse is
answered with an error before the database is asked.  The caller is the agent of
the validated token, or nobody when no secret is configured.
-/

namespace MenteDb
namespace Server

open Foundation
open Facade
open Query
open Context

variable {F : Type}

inductive ServerError where
  | notFound (message : String)
  | forbidden (message : String)
  | permissionDenied (message : String)
  | invalidArgument (message : String)
  /-- An operation of the database failed. -/
  | failed (operation : String) (cause : MenteError)
deriving DecidableEq

/-- The successful answers. -/
inductive Response (F : Type) where
  | memory (node : MemoryNode F)
  | context (window : ContextWindow F)
  | results (items : List (MemoryId × F))
  | stored (id : MemoryId)
  | created
  | deleted

/-- The memories whose content an answer carries. -/
def Response.contents : Response F -> List (MemoryNode F)
  | Response.memory node => [node]
  | Response.context window => window.memories.map Prod.fst
  | _ => []

abbrev Handler (F α : Type) := Prog (World F) ServerError α

structure EdgeRequest (F : Type) where
  source : MemoryId
  target : MemoryId
  edgeType : EdgeType
  weight : Option F
  validFrom : Option Timestamp
  validUntil : Option Timestamp
  label : Option String

structure StoreRequest (F : Type) where
  agentId : AgentId
  memoryType : MemoryType
  content : String
  embedding : List F
  tags : List String
  attributes : List (String × String)
  spaceId : Option SpaceId
  salience : F
  confidence : F
  validFrom : Option Timestamp
  validUntil : Option Timestamp

structure RelateRequest (F : Type) where
  source : MemoryId
  target : MemoryId
  edgeType : EdgeType
  weight : F
  validFrom : Option Timestamp
  validUntil : Option Timestamp

section Handlers

variable [Scalar F]

def onDatabase {α : Type} (operation : String) (x : Op F α) : Handler F α :=
  Prog.mapError (ServerError.failed operation) x

omit [Scalar F] in
def memoryNotFound (id : MemoryId) : ServerError :=
  ServerError.notFound ("memory " ++ uuidText id.uuid ++ " not found")

omit [Scalar F] in
def differentAgent : ServerError := ServerError.forbidden "memory belongs to a different agent"

/-!
## REST
-/

omit [Scalar F] in
def getMemory (caller : Option AgentId) (id : MemoryId) : Handler F (Response F) := do
  let node ← Prog.mapError (fun _ => memoryNotFound id) (Facade.getMemory id)
  if caller.any (fun agent => decide (node.agentId ≠ agent)) then Prog.fail differentAgent
  else pure (Response.memory node)

omit [Scalar F] in
/-- The plan of {lit}`RECALL memories LIMIT 1000`. -/
def recallThousand : QueryPlan F := QueryPlan.tagScan [] [] (some 1000)

omit [Scalar F] in
/-- The memory has to be in the window and to belong to the agent. -/
def checkOwner (agent : AgentId) (id : MemoryId) (window : ContextWindow F) : Handler F Unit :=
  match window.memories.find? (fun sm => decide (sm.1.id = id)) with
  | none => Prog.fail (memoryNotFound id)
  | some sm => if sm.1.agentId ≠ agent then Prog.fail differentAgent else pure ()

def checkDelete (env : Env F) (id : MemoryId) : Option AgentId -> Handler F Unit
  | none => pure ()
  | some agent => do
      let window ← onDatabase "recall" (recallPlan env recallThousand)
      checkOwner agent id window

def forgetMemory (env : Env F) (caller : Option AgentId) (id : MemoryId) :
    Handler F (Response F) := do
  checkDelete env id caller
  onDatabase "forget" (forget env id)
  pure Response.deleted

def recallMemories (env : Env F) (plan : QueryPlan F) : Handler F (Response F) := do
  let window ← onDatabase "recall" (recallPlan env plan)
  pure (Response.context window)

/-- Similarity search at the current instant. -/
def recallSimilar (env : Env F) (embedding : List F) (k : Nat) : Op F (List (MemoryId × F)) := do
  let now ← currentTimeUs env
  Prog.gets (fun w => openRecall env w embedding none k now)

def searchSimilar (env : Env F) (embedding : List F) (k : Option Nat) :
    Handler F (Response F) := do
  let items ← onDatabase "search" (recallSimilar env embedding (k.getD 10))
  pure (Response.results items)

def createEdge (env : Env F) (request : EdgeRequest F) : Handler F (Response F) := do
  let now ← onDatabase "relate" (currentTimeUs env)
  onDatabase "relate" (relate env {
    source := request.source
    target := request.target
    edgeType := request.edgeType
    weight := request.weight.getD 1
    createdAt := now
    validFrom := request.validFrom
    validUntil := request.validUntil
    label := request.label })
  pure Response.created

/-!
## gRPC

Zero stands for a number that is not given.
-/

def orDefault (x default : F) : F := if x = 0 then default else x

def storedNode (request : StoreRequest F) (id : MemoryId) (now : Timestamp) : MemoryNode F where
  id := id
  agentId := request.agentId
  memoryType := request.memoryType
  embedding := request.embedding
  content := request.content
  createdAt := now
  accessedAt := now
  accessCount := 0
  salience := orDefault request.salience (ratio 1 2)
  confidence := orDefault request.confidence 1
  spaceId := request.spaceId.getD SpaceId.nil
  attributes := request.attributes.map (fun a => (a.1, AttributeValue.string a.2))
  tags := request.tags
  validFrom := request.validFrom
  validUntil := request.validUntil

def grpcStore (env : Env F) (caller : Option AgentId) (request : StoreRequest F) :
    Handler F (Response F) :=
  if caller.any (fun agent => decide (agent ≠ request.agentId)) then
    Prog.fail (ServerError.permissionDenied "agent_id mismatch")
  else do
    let id ← Prog.gets (fun w => env.freshMemoryId w.ticks)
    let now ← onDatabase "store" (currentTimeUs env)
    onDatabase "store" (store env (storedNode request id now))
    pure (Response.stored id)

def grpcSearch (env : Env F) (embedding : List F) (k : Nat) : Handler F (Response F) :=
  if embedding.isEmpty then
    Prog.fail (ServerError.invalidArgument "missing embedding vector")
  else do
    let items ← onDatabase "search" (recallSimilar env embedding (if k = 0 then 10 else k))
    pure (Response.results items)

def grpcForget (env : Env F) (id : MemoryId) : Handler F (Response F) := do
  onDatabase "forget" (forget env id)
  pure Response.deleted

def grpcRelate (env : Env F) (request : RelateRequest F) : Handler F (Response F) :=
  createEdge env {
    source := request.source
    target := request.target
    edgeType := request.edgeType
    weight := some (orDefault request.weight 1)
    validFrom := request.validFrom
    validUntil := request.validUntil
    label := none }

/-!
## Requests
-/

inductive Request (F : Type) where
  | getMemory (id : MemoryId)
  | forgetMemory (id : MemoryId)
  | recallMemories (plan : QueryPlan F)
  | searchSimilar (embedding : List F) (k : Option Nat)
  | createEdge (request : EdgeRequest F)
  | grpcStore (request : StoreRequest F)
  | grpcRecall (plan : QueryPlan F)
  | grpcSearch (embedding : List F) (k : Nat)
  | grpcForget (id : MemoryId)
  | grpcRelate (request : RelateRequest F)

def handle (env : Env F) (caller : Option AgentId) : Request F -> Handler F (Response F)
  | Request.getMemory id => getMemory caller id
  | Request.forgetMemory id => forgetMemory env caller id
  | Request.recallMemories plan => recallMemories env plan
  | Request.searchSimilar embedding k => searchSimilar env embedding k
  | Request.createEdge request => createEdge env request
  | Request.grpcStore request => grpcStore env caller request
  | Request.grpcRecall plan => recallMemories env plan
  | Request.grpcSearch embedding k => grpcSearch env embedding k
  | Request.grpcForget id => grpcForget env id
  | Request.grpcRelate request => grpcRelate env request

end Handlers

end Server
end MenteDb
