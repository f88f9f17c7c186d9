import MenteDb.Core.Space
import MenteDb.Foundation.Outcome
import MenteDb.Foundation.Overflow
import MenteDb.Foundation.Strings

/-!
# Tokens and spaces

The REST interface asks for a signed token when a secret is configured.  Tokens are sent to
whoever presents the admin key, and the agent a token names acts on the memory spaces.  The
library that signs tokens and the parser of identifiers are parameters.
-/

namespace MenteDb
namespace Server

open Foundation
open MenteDb.Core

/-- What a token says. -/
structure Claims where
  agentId : String
  admin : Bool
  exp : Nat
deriving DecidableEq, Repr

/-- The library that signs tokens, and the texts the handlers read. -/
structure AuthEnv where
  build : Build
  encode : String -> Claims -> String
  decode : String -> UInt64 -> String -> Except String Claims
  parseUuid : String -> Option (BitVec 128)
  toLowercase : String -> String

/-- A token that was signed with the secret is accepted until a minute after it expires. -/
def AuthEnv.Signs (env : AuthEnv) : Prop :=
  forall secret claims (now : UInt64),
    (now.toNat <= claims.exp + 60 ->
      env.decode secret now (env.encode secret claims) = Except.ok claims) ∧
    (claims.exp + 60 < now.toNat ->
      env.decode secret now (env.encode secret claims) = Except.error "ExpiredSignature")

inductive ApiError where
  | badRequest (message : String)
  | unauthorized (message : String)
  | forbidden (message : String)
deriving DecidableEq, Repr

/-- The part of the server's state that does not change. -/
structure AuthConfig where
  jwtSecret : Option String
  adminKey : Option String

structure AuthenticatedAgent where
  agentId : String
  admin : Bool
deriving DecidableEq, Repr

/-- The body of a request for a token. -/
inductive TokenBody where
  | unread (cause : String)
  | unparsed (cause : String)
  | parsed (agentId : String) (expiryHours : Option UInt64)

/-- The fields of a JSON body that hold a text. -/
abbrev TextFields := String -> Option String

inductive Endpoint where
  | health
  | generateToken (body : TokenBody)
  | createSpace (body : TextFields)
  | listSpaces
  | grantSpaceAccess (space : String) (body : TextFields)

def Endpoint.path : Endpoint -> String
  | health => "/v1/health"
  | generateToken _ => "/v1/auth/token"
  | createSpace _ => "/v1/spaces"
  | listSpaces => "/v1/spaces"
  | grantSpaceAccess space _ => "/v1/spaces/" ++ space ++ "/grant"

/-- A request with the headers that are read, the time of its arrival in seconds and in
microseconds, and the identifier that would be drawn for a space. -/
structure HttpRequest where
  endpoint : Endpoint
  apiKey : Option String
  authorization : Option String
  seconds : UInt64
  micros : Timestamp
  drawn : SpaceId

inductive Reply where
  | healthy
  | token (token agentId : String)
  | created (id : SpaceId) (name : String) (owner : AgentId)
  | spaces (list : List (SpaceId × String × AgentId))
  | granted
deriving DecidableEq, Repr

/-- The spaces, and who asked for the calls that were made on them. -/
structure SpaceStore where
  manager : SpaceManager
  log : List (AgentId × SpaceCall)

def SpaceStore.new : SpaceStore where
  manager := SpaceManager.new
  log := []

def SpaceStore.call (s : SpaceStore) (actor : AgentId) (call : SpaceCall) : SpaceStore where
  manager := call.step s.manager
  log := s.log ++ [(actor, call)]

def listSpacesForAgent (m : SpaceManager) (agent : AgentId) : List MemorySpace :=
  (m.spaces.entries.map Prod.snd).filter (fun s =>
    decide (s.owner = agent) || s.accessList.any (fun e => decide (e.agentId = agent)))

/-!
## Tokens
-/

def bearer (header : String) : Option String :=
  (Strings.stripPrefix "Bearer ".toList header.toList).map String.ofList

def extractAdminKey (request : HttpRequest) : Option String :=
  match request.apiKey with
  | some key => some key
  | none => request.authorization.bind bearer

def defaultExpiryHours : UInt64 := 24

section Handlers

variable (env : AuthEnv) (config : AuthConfig)

/-- A token, unless the time of its expiry overflows in a checked build. -/
def createToken (secret agentId : String) (admin : Bool) (expiryHours now : UInt64) :
    Option String := do
  let span ← env.build.u64 (expiryHours.toNat * 3600)
  let exp ← env.build.u64 (now.toNat + span)
  some (env.encode secret { agentId := agentId, admin := admin, exp := exp })

def validateToken (secret token : String) (now : UInt64) : Except ApiError Claims :=
  (env.decode secret now token).mapError (fun e => ApiError.unauthorized ("invalid token: " ++ e))

/-- The secret, if the request may have a token. -/
def admitTokenRequest (request : HttpRequest) : Except ApiError String :=
  match config.jwtSecret with
  | none => Except.error (ApiError.badRequest "auth is disabled (no jwt-secret configured)")
  | some secret =>
      match config.adminKey with
      | none =>
          Except.error (ApiError.forbidden "token endpoint disabled: no admin key configured")
      | some expected =>
          match extractAdminKey request with
          | none => Except.error (ApiError.unauthorized "admin key required")
          | some provided =>
              if provided ≠ expected then Except.error (ApiError.forbidden "invalid admin key")
              else Except.ok secret

/-- The answer to a request for a token; none stands for a panic. -/
def generateToken (request : HttpRequest) (body : TokenBody) : Option (Except ApiError Reply) :=
  match admitTokenRequest config request with
  | Except.error e => some (Except.error e)
  | Except.ok secret =>
      match body with
      | TokenBody.unread cause =>
          some (Except.error (ApiError.badRequest ("failed to read body: " ++ cause)))
      | TokenBody.unparsed cause =>
          some (Except.error (ApiError.badRequest ("invalid JSON: " ++ cause)))
      | TokenBody.parsed agentId expiryHours =>
          (createToken env secret agentId false (expiryHours.getD defaultExpiryHours)
            request.seconds).map (fun token => Except.ok (Reply.token token agentId))

/-!
## Spaces
-/

def parsePermission (s : String) : Except ApiError Permission :=
  match env.toLowercase s with
  | "read" => Except.ok Permission.read
  | "write" => Except.ok Permission.write
  | "readwrite" => Except.ok Permission.readWrite
  | "read_write" => Except.ok Permission.readWrite
  | "admin" => Except.ok Permission.admin
  | _ => Except.error (ApiError.badRequest ("unknown permission: " ++ s))

def textField (body : TextFields) (field missing : String) : Except ApiError String :=
  match body field with
  | some s => Except.ok s
  | none => Except.error (ApiError.badRequest missing)

def parseUuidField (body : TextFields) (field : String) : Except ApiError (BitVec 128) := do
  let s ← textField body field ("missing '" ++ field ++ "'")
  match env.parseUuid s with
  | some uuid => Except.ok uuid
  | none => Except.error (ApiError.badRequest ("invalid UUID for '" ++ field ++ "'"))

def parseSpaceId (space : String) : Except ApiError SpaceId :=
  match env.parseUuid space with
  | some uuid => Except.ok ⟨uuid⟩
  | none => Except.error (ApiError.badRequest "invalid space ID")

/-- The agent of the token; without tokens it may be named in the body. -/
def resolveAgentId (agent : Option AuthenticatedAgent) (body : Option TextFields) :
    Except ApiError AgentId :=
  match agent with
  | some a =>
      match env.parseUuid a.agentId with
      | some uuid => Except.ok ⟨uuid⟩
      | none => Except.error (ApiError.unauthorized "invalid agent_id in token")
  | none =>
      match body with
      | some fields => (parseUuidField env fields "agent_id").map AgentId.mk
      | none => Except.error (ApiError.unauthorized "no agent_id available")

def isAdminToken (agent : Option AuthenticatedAgent) : Bool :=
  agent.any AuthenticatedAgent.admin

def createSpaceReply (request : HttpRequest) (agent : Option AuthenticatedAgent)
    (body : TextFields) (s : SpaceStore) : Except ApiError (Reply × SpaceStore) := do
  let agentId ← resolveAgentId env agent (some body)
  let name ← textField body "name" "missing 'name' field"
  Except.ok (Reply.created request.drawn name agentId,
    s.call agentId (SpaceCall.createSpace request.drawn request.micros name agentId))

def listSpacesReply (agent : Option AuthenticatedAgent) (s : SpaceStore) :
    Except ApiError (Reply × SpaceStore) := do
  let agentId ← resolveAgentId env agent none
  Except.ok (Reply.spaces ((listSpacesForAgent s.manager agentId).map
    (fun space => (space.id, space.name, space.owner))), s)

def grantSpaceAccess (agent : Option AuthenticatedAgent) (space : String) (body : TextFields)
    (s : SpaceStore) : Except ApiError (Reply × SpaceStore) := do
  let spaceId ← parseSpaceId env space
  let callerId ← resolveAgentId env agent none
  let target ← (parseUuidField env body "agent_id").map AgentId.mk
  let text ← textField body "permission" "missing 'permission' field"
  let perm ← parsePermission env text
  if !isAdminToken agent && !s.manager.checkAccess spaceId callerId Permission.admin then
    Except.error (ApiError.forbidden "only space owner or admin can grant access")
  else
    Except.ok (Reply.granted, s.call callerId (SpaceCall.grantAccess spaceId target perm))

/-- A failed request leaves the spaces alone. -/
def settle (s : SpaceStore) :
    Except ApiError (Reply × SpaceStore) -> Option (Except ApiError Reply) × SpaceStore
  | Except.error e => (some (Except.error e), s)
  | Except.ok (reply, s') => (some (Except.ok reply), s')

def route (request : HttpRequest) (agent : Option AuthenticatedAgent) (s : SpaceStore) :
    Option (Except ApiError Reply) × SpaceStore :=
  match request.endpoint with
  | Endpoint.health => (some (Except.ok Reply.healthy), s)
  | Endpoint.generateToken body => (generateToken env config request body, s)
  | Endpoint.createSpace body => settle s (createSpaceReply env request agent body s)
  | Endpoint.listSpaces => settle s (listSpacesReply env agent s)
  | Endpoint.grantSpaceAccess space body => settle s (grantSpaceAccess env agent space body s)

/-- The agent on whose behalf a request is served. -/
def authenticate (secret : String) (request : HttpRequest) :
    Except ApiError AuthenticatedAgent :=
  match request.authorization.bind bearer with
  | none => Except.error (ApiError.unauthorized "missing or invalid Authorization header")
  | some token =>
      (validateToken env secret token request.seconds).map (fun claims =>
        { agentId := claims.agentId, admin := claims.admin })

/-- A request passes the middleware and is answered by its handler. -/
def serve (request : HttpRequest) (s : SpaceStore) : Option (Except ApiError Reply) × SpaceStore :=
  match config.jwtSecret with
  | none => route env config request none s
  | some secret =>
      if request.endpoint.path = "/v1/health" ∨ request.endpoint.path = "/v1/auth/token" then
        route env config request none s
      else
        match authenticate env secret request with
        | Except.error e => (some (Except.error e), s)
        | Except.ok agent => route env config request (some agent) s

end Handlers

/-!
## Histories

A run is the requests with their answers.  Whoever presents a token that is accepted got it
from the server.
-/

abbrev Exchange := HttpRequest × Option (Except ApiError Reply)

/-- The request presented the admin key, and the token is for no admin. -/
def Issued (env : AuthEnv) (config : AuthConfig) (request : HttpRequest)
    (token agentId : String) : Prop :=
  exists secret key exp, config.jwtSecret = some secret ∧ config.adminKey = some key ∧
    extractAdminKey request = some key ∧
    token = env.encode secret { agentId := agentId, admin := false, exp := exp }

def Sent (trace : List Exchange) (token agentId : String) (request : HttpRequest) : Prop :=
  (request, some (Except.ok (Reply.token token agentId))) ∈ trace

/-- No token is accepted that was not sent. -/
def Unforged (env : AuthEnv) (config : AuthConfig) (trace : List Exchange)
    (request : HttpRequest) : Prop :=
  forall secret token claims, config.jwtSecret = some secret ->
    request.authorization.bind bearer = some token ->
    env.decode secret request.seconds token = Except.ok claims ->
    exists agentId earlier, Sent trace token agentId earlier

inductive Serves (env : AuthEnv) (config : AuthConfig) : List Exchange -> SpaceStore -> Prop where
  | start : Serves env config [] SpaceStore.new
  | next {trace : List Exchange} {s : SpaceStore} (request : HttpRequest) :
      Serves env config trace s -> Unforged env config trace request ->
        Serves env config (trace ++ [(request, (serve env config request s).1)])
          (serve env config request s).2

/-- The access of an agent goes back to the one who created the space: it created the space
itself, or was granted the permission by an agent that could administer the space then. -/
inductive Delegated : List (AgentId × SpaceCall) -> SpaceId -> AgentId -> AgentId ->
    Permission -> Prop where
  | owner {past rest : List (AgentId × SpaceCall)} {space : SpaceId} {now : Timestamp}
      {name : String} {owner : AgentId} {required : Permission} :
      Delegated (past ++ (owner, SpaceCall.createSpace space now name owner) :: rest) space owner
        owner required
  | grant {past rest : List (AgentId × SpaceCall)} {space : SpaceId}
      {actor agent owner : AgentId} {perm required : Permission} :
      Delegated past space owner actor Permission.admin -> perm.satisfies required = true ->
        Delegated (past ++ (actor, SpaceCall.grantAccess space agent perm) :: rest) space owner
          agent required

/-- Spaces are created for the one who asks, and access is granted by those who may. -/
def Warranted (m : SpaceManager) (actor : AgentId) : SpaceCall -> Prop
  | SpaceCall.createSpace _ _ _ owner => owner = actor
  | SpaceCall.grantAccess space _ _ => m.checkAccess space actor Permission.admin = true
  | _ => False

/-- Somebody with the admin key asked for a token of the agent. -/
def VouchedFor (env : AuthEnv) (config : AuthConfig) (trace : List Exchange)
    (actor : AgentId) : Prop :=
  exists token agentId request, Sent trace token agentId request ∧
    Issued env config request token agentId ∧ env.parseUuid agentId = some actor.uuid

def IsCreation : SpaceCall -> Prop
  | SpaceCall.createSpace _ _ _ _ => True
  | _ => False

/-!
## One request
-/

section Requests

variable {env : AuthEnv} {config : AuthConfig} {request : HttpRequest} {s : SpaceStore}

theorem grant_path_ne (space : String) :
    ¬ ("/v1/spaces/" ++ space ++ "/grant" = "/v1/health" ∨
      "/v1/spaces/" ++ space ++ "/grant" = "/v1/auth/token") := by
  rintro (h | h)
  · have hchars := congrArg (fun t => t.toList.take 5) h
    simp at hchars
  · have hchars := congrArg (fun t => t.toList.take 5) h
    simp at hchars

/-- Who a request is served for: nobody without a secret, else the agent of the token. -/
inductive ServedFor (env : AuthEnv) (config : AuthConfig) (request : HttpRequest) :
    Option AuthenticatedAgent -> Prop where
  | nobody : config.jwtSecret = none -> ServedFor env config request none
  | agent {secret : String} {a : AuthenticatedAgent} : config.jwtSecret = some secret ->
      authenticate env secret request = Except.ok a -> ServedFor env config request (some a)

theorem createSpaceReply_ok {agent : Option AuthenticatedAgent} {body : TextFields}
    {result : Reply × SpaceStore}
    (h : createSpaceReply env request agent body s = Except.ok result) :
    exists actor name, resolveAgentId env agent (some body) = Except.ok actor ∧
      result = (Reply.created request.drawn name actor, s.call actor
        (SpaceCall.createSpace request.drawn request.micros name actor)) := by
  rcases except_bind_ok h with ⟨actor, hactor, h⟩
  rcases except_bind_ok h with ⟨name, _, h⟩
  cases h
  exact ⟨actor, name, hactor, rfl⟩

theorem grantSpaceAccess_ok {agent : Option AuthenticatedAgent} {space : String}
    {body : TextFields} {result : Reply × SpaceStore}
    (h : grantSpaceAccess env agent space body s = Except.ok result) :
    exists actor spaceId target perm, resolveAgentId env agent none = Except.ok actor ∧
      (isAdminToken agent = true ∨
        s.manager.checkAccess spaceId actor Permission.admin = true) ∧
      result = (Reply.granted, s.call actor (SpaceCall.grantAccess spaceId target perm)) := by
  rcases except_bind_ok h with ⟨spaceId, _, h⟩
  rcases except_bind_ok h with ⟨actor, hactor, h⟩
  rcases except_bind_ok h with ⟨target, _, h⟩
  rcases except_bind_ok h with ⟨text, _, h⟩
  rcases except_bind_ok h with ⟨perm, _, h⟩
  split at h
  · cases h
  · rename_i hmay
    cases h
    refine ⟨actor, spaceId, target, perm, hactor, ?_, rfl⟩
    rw [Bool.and_eq_true, Bool.not_eq_true', Bool.not_eq_true'] at hmay
    by_cases hadmin : isAdminToken agent = true
    · exact Or.inl hadmin
    · right
      by_contra haccess
      exact hmay ⟨Bool.eq_false_of_not_eq_true hadmin, Bool.eq_false_of_not_eq_true haccess⟩

/-- What a request may do to the spaces, and on whose behalf. -/
inductive Acts (env : AuthEnv) (request : HttpRequest) (agent : Option AuthenticatedAgent)
    (s : SpaceStore) : SpaceStore -> Prop where
  | nothing : Acts env request agent s s
  | create {body : Option TextFields} {actor : AgentId} (name : String) :
      resolveAgentId env agent body = Except.ok actor ->
        Acts env request agent s
          (s.call actor (SpaceCall.createSpace request.drawn request.micros name actor))
  | grant {actor : AgentId} {space : SpaceId} (target : AgentId) (perm : Permission) :
      resolveAgentId env agent none = Except.ok actor ->
        (isAdminToken agent = true ∨
          s.manager.checkAccess space actor Permission.admin = true) ->
          Acts env request agent s (s.call actor (SpaceCall.grantAccess space target perm))

theorem settle_acts {agent : Option AuthenticatedAgent}
    {x : Except ApiError (Reply × SpaceStore)}
    (h : forall result, x = Except.ok result -> Acts env request agent s result.2) :
    Acts env request agent s (settle s x).2 := by
  cases x with
  | error e => exact Acts.nothing
  | ok result => exact h result rfl

theorem route_acts (agent : Option AuthenticatedAgent) :
    Acts env request agent s (route env config request agent s).2 := by
  unfold route
  cases request.endpoint with
  | health => exact Acts.nothing
  | generateToken body => exact Acts.nothing
  | createSpace body =>
      apply settle_acts
      intro result h
      rcases createSpaceReply_ok h with ⟨actor, name, hactor, rfl⟩
      exact Acts.create name hactor
  | listSpaces =>
      apply settle_acts
      intro result h
      rcases except_bind_ok h with ⟨actor, _, h⟩
      cases h
      exact Acts.nothing
  | grantSpaceAccess space body =>
      apply settle_acts
      intro result h
      rcases grantSpaceAccess_ok h with ⟨actor, spaceId, target, perm, hactor, hmay, rfl⟩
      exact Acts.grant target perm hactor hmay

/-- The endpoints that need no token leave the spaces alone. -/
theorem route_exempt {agent : Option AuthenticatedAgent}
    (h : request.endpoint.path = "/v1/health" ∨ request.endpoint.path = "/v1/auth/token") :
    (route env config request agent s).2 = s := by
  unfold route
  cases hendpoint : request.endpoint with
  | health => rfl
  | generateToken body => rfl
  | createSpace body =>
      rw [hendpoint] at h
      change "/v1/spaces" = "/v1/health" ∨ "/v1/spaces" = "/v1/auth/token" at h
      exact absurd h (by decide)
  | listSpaces =>
      rw [hendpoint] at h
      exact absurd h (by decide)
  | grantSpaceAccess space body =>
      rw [hendpoint] at h
      exact absurd h (grant_path_ne space)

theorem serve_acts : exists agent,
    (ServedFor env config request agent ∨ (serve env config request s).2 = s) ∧
      Acts env request agent s (serve env config request s).2 := by
  unfold serve
  cases hsecret : config.jwtSecret with
  | none => exact ⟨none, Or.inl (ServedFor.nobody hsecret), route_acts none⟩
  | some secret =>
      dsimp only
      split
      · rename_i hexempt
        exact ⟨none, Or.inr (route_exempt hexempt), route_acts none⟩
      · cases hagent : authenticate env secret request with
        | error e => exact ⟨none, Or.inr rfl, Acts.nothing⟩
        | ok agent => exact ⟨some agent, Or.inl (ServedFor.agent hsecret hagent), route_acts _⟩

theorem createToken_eq_some {secret agentId token : String} {admin : Bool}
    {expiryHours now : UInt64}
    (h : createToken env secret agentId admin expiryHours now = some token) :
    exists exp, token = env.encode secret { agentId := agentId, admin := admin, exp := exp } := by
  rcases Option.bind_eq_some_iff.mp h with ⟨span, _, h⟩
  rcases Option.bind_eq_some_iff.mp h with ⟨exp, _, h⟩
  exact ⟨exp, (Option.some.inj h).symm⟩

theorem admitTokenRequest_ok {secret : String}
    (h : admitTokenRequest config request = Except.ok secret) :
    config.jwtSecret = some secret ∧
      exists key, config.adminKey = some key ∧ extractAdminKey request = some key := by
  unfold admitTokenRequest at h
  split at h
  · cases h
  · rename_i found hsecret
    split at h
    · cases h
    · rename_i expected hexpected
      split at h
      · cases h
      · rename_i provided hprovided
        split at h
        · cases h
        · rename_i hsame
          cases h
          rw [not_not.mp hsame] at hprovided
          exact ⟨hsecret, expected, hexpected, hprovided⟩

theorem issued_of_generateToken {body : TokenBody} {token agentId : String}
    (h : generateToken env config request body =
      some (Except.ok (Reply.token token agentId))) : Issued env config request token agentId := by
  unfold generateToken at h
  cases hallowed : admitTokenRequest config request with
  | error e =>
      rw [hallowed] at h
      cases h
  | ok secret =>
      rw [hallowed] at h
      rcases admitTokenRequest_ok hallowed with ⟨hsecret, key, hkey, hgiven⟩
      cases body with
      | unread cause => cases h
      | unparsed cause => cases h
      | parsed name expiryHours =>
          rcases Option.map_eq_some_iff.mp h with ⟨made, hmade, heq⟩
          cases heq
          rcases createToken_eq_some hmade with ⟨exp, htoken⟩
          exact ⟨secret, key, exp, hsecret, hkey, hgiven, htoken⟩

theorem settle_ne_token {x : Except ApiError (Reply × SpaceStore)} {token agentId : String}
    (h : forall result, x = Except.ok result -> result.1 ≠ Reply.token token agentId) :
    (settle s x).1 ≠ some (Except.ok (Reply.token token agentId)) := by
  intro heq
  cases x with
  | error e => cases heq
  | ok result =>
      injection heq with heq
      injection heq with heq
      exact h result rfl heq

theorem issued_of_route {agent : Option AuthenticatedAgent} {token agentId : String}
    (h : (route env config request agent s).1 =
      some (Except.ok (Reply.token token agentId))) : Issued env config request token agentId := by
  unfold route at h
  cases hendpoint : request.endpoint with
  | health =>
      rw [hendpoint] at h
      cases h
  | generateToken body =>
      rw [hendpoint] at h
      exact issued_of_generateToken h
  | createSpace body =>
      rw [hendpoint] at h
      refine absurd h (settle_ne_token ?_)
      intro result hresult
      rcases createSpaceReply_ok hresult with ⟨actor, name, _, rfl⟩
      exact fun heq => by cases heq
  | listSpaces =>
      rw [hendpoint] at h
      refine absurd h (settle_ne_token ?_)
      intro result hresult
      rcases except_bind_ok hresult with ⟨actor, _, hresult⟩
      cases hresult
      exact fun heq => by cases heq
  | grantSpaceAccess space body =>
      rw [hendpoint] at h
      refine absurd h (settle_ne_token ?_)
      intro result hresult
      rcases grantSpaceAccess_ok hresult with ⟨actor, spaceId, target, perm, _, _, rfl⟩
      exact fun heq => by cases heq

/-- A token is sent to nobody without the admin key. -/
theorem issued_of_serve {token agentId : String}
    (h : (serve env config request s).1 =
      some (Except.ok (Reply.token token agentId))) : Issued env config request token agentId := by
  unfold serve at h
  split at h
  · exact issued_of_route h
  · split at h
    · exact issued_of_route h
    · split at h
      · cases h
      · exact issued_of_route h

/-- The agent of a token that was signed here is the one the token was made for. -/
theorem authenticate_ok {secret : String} {a : AuthenticatedAgent}
    (h : authenticate env secret request = Except.ok a) :
    exists token claims, request.authorization.bind bearer = some token ∧
      env.decode secret request.seconds token = Except.ok claims ∧
      a = { agentId := claims.agentId, admin := claims.admin } := by
  unfold authenticate at h
  split at h
  · cases h
  · rename_i token htoken
    unfold validateToken at h
    cases hdecode : env.decode secret request.seconds token with
    | error e =>
        rw [hdecode] at h
        cases h
    | ok claims =>
        rw [hdecode] at h
        cases h
        exact ⟨token, claims, htoken, hdecode, rfl⟩

theorem AuthEnv.Signs.decode_ok (hsigns : env.Signs) {secret : String} {claims found : Claims}
    {now : UInt64} (h : env.decode secret now (env.encode secret claims) = Except.ok found) :
    found = claims := by
  rcases Nat.lt_or_ge (claims.exp + 60) now.toNat with hlate | htime
  · rw [(hsigns secret claims now).2 hlate] at h
    cases h
  · rw [(hsigns secret claims now).1 htime] at h
    cases h
    rfl

end Requests

/-!
## Runs
-/

section Runs

variable {env : AuthEnv} {config : AuthConfig} {trace : List Exchange} {s : SpaceStore}

/-- Every token that was sent was asked for with the admin key. -/
theorem issued_of_sent (hrun : Serves env config trace s) {token agentId : String}
    {request : HttpRequest} (h : Sent trace token agentId request) :
    Issued env config request token agentId := by
  induction hrun with
  | start => cases h
  | next latest _ _ ih =>
      rcases List.mem_append.mp h with hold | hnew
      · exact ih hold
      · rcases Prod.mk.inj (List.mem_singleton.mp hnew) with ⟨hrequest, hreply⟩
        rw [hrequest]
        exact issued_of_serve hreply.symm

/-- The agents of accepted tokens are no admins, and somebody vouched for them. -/
theorem vouchedFor_of_authenticate (hsigns : env.Signs) (hrun : Serves env config trace s)
    {request : HttpRequest} (hunforged : Unforged env config trace request) {secret : String}
    (hsecret : config.jwtSecret = some secret) {a : AuthenticatedAgent}
    (h : authenticate env secret request = Except.ok a) :
    a.admin = false ∧ forall body actor, resolveAgentId env (some a) body = Except.ok actor ->
      VouchedFor env config trace actor := by
  rcases authenticate_ok h with ⟨token, claims, htoken, hdecode, rfl⟩
  rcases hunforged secret token claims hsecret htoken hdecode with ⟨agentId, earlier, hsent⟩
  have hissued := issued_of_sent hrun hsent
  rcases hissued with ⟨secret', key, exp, hsecret', hkey, hgiven, hencoded⟩
  rw [hsecret] at hsecret'
  cases hsecret'
  rw [hencoded] at hdecode
  have hclaims := hsigns.decode_ok hdecode
  refine ⟨by rw [hclaims], ?_⟩
  intro body actor hactor
  rw [hclaims] at hactor
  unfold resolveAgentId at hactor
  dsimp only at hactor
  split at hactor
  · rename_i uuid huuid
    cases hactor
    exact ⟨token, agentId, earlier, hsent,
      ⟨secret, key, exp, hsecret, hkey, hgiven, hencoded⟩, huuid⟩
  · cases hactor

theorem VouchedFor.later {actor : AgentId} (h : VouchedFor env config trace actor)
    (more : List Exchange) : VouchedFor env config (trace ++ more) actor := by
  rcases h with ⟨token, agentId, request, hsent, hissued, huuid⟩
  exact ⟨token, agentId, request, List.mem_append_left more hsent, hissued, huuid⟩

theorem Delegated.append {log : List (AgentId × SpaceCall)} {space : SpaceId}
    {owner agent : AgentId} {required : Permission}
    (h : Delegated log space owner agent required) (more : List (AgentId × SpaceCall)) :
    Delegated (log ++ more) space owner agent required := by
  cases h with
  | owner =>
      rw [List.append_assoc, List.cons_append]
      exact Delegated.owner
  | grant hactor hperm =>
      rw [List.append_assoc, List.cons_append]
      exact Delegated.grant hactor hperm

theorem admits_setEntry_cases {agent : AgentId} {perm required : Permission}
    {entries : List AccessEntry}
    (h : SpaceManager.admits agent required (setEntry agent perm entries) = true) :
    perm.satisfies required = true ∨ SpaceManager.admits agent required entries = true := by
  unfold SpaceManager.admits at h ⊢
  induction entries with
  | nil =>
      left
      simpa [setEntry] using h
  | cons e rest ih =>
      unfold setEntry at h
      by_cases he : e.agentId = agent
      · rw [if_pos he, List.any_cons, Bool.or_eq_true, Bool.and_eq_true] at h
        rcases h with hnew | hrest
        · exact Or.inl hnew.2
        · right
          rw [List.any_cons, hrest, Bool.or_true]
      · rw [if_neg he, List.any_cons, Bool.or_eq_true] at h
        rcases h with hhead | hrest
        · right
          rw [List.any_cons, hhead, Bool.true_or]
        · rcases ih hrest with hperm | hrest
          · exact Or.inl hperm
          · right
            rw [List.any_cons, hrest, Bool.or_true]

theorem checkAccess_grantAccess_cases {m : SpaceManager} {space : SpaceId} {agent : AgentId}
    {perm required : Permission}
    (h : (m.grantAccess space agent perm).checkAccess space agent required = true) :
    perm.satisfies required = true ∨ m.checkAccess space agent required = true := by
  unfold SpaceManager.checkAccess SpaceManager.grantAccess SpaceManager.editAccess at h
  rw [Assoc.find?_update] at h
  unfold SpaceManager.checkAccess
  cases hspace : m.spaces.find? space with
  | none =>
      rw [hspace] at h
      cases h
  | some v =>
      rw [hspace, Option.map_some, Option.any_some, if_pos (decide_eq_true rfl),
        Bool.or_eq_true] at h
      rw [Option.any_some, Bool.or_eq_true]
      rcases h with howner | hentry
      · exact Or.inr (Or.inl howner)
      · rcases admits_setEntry_cases hentry with hperm | hold
        · exact Or.inl hperm
        · exact Or.inr (Or.inr hold)

theorem eq_owner_of_checkAccess_createSpace {m : SpaceManager} {space : SpaceId}
    {now : Timestamp} {name : String} {owner agent : AgentId} {required : Permission}
    (h : (m.createSpace space now name owner).checkAccess space agent required = true) :
    agent = owner := by
  unfold SpaceManager.checkAccess SpaceManager.createSpace at h
  rw [Assoc.find?_insert, if_pos rfl, Option.any_some, Bool.or_eq_true] at h
  rcases h with howner | hentry
  · exact (of_decide_eq_true howner).symm
  · unfold SpaceManager.admits at hentry
    rw [List.any_cons, List.any_nil, Bool.or_false, Bool.and_eq_true] at hentry
    exact (of_decide_eq_true hentry.1).symm

/-- What holds of the spaces after every run. -/
structure Traced (env : AuthEnv) (config : AuthConfig) (trace : List Exchange)
    (s : SpaceStore) : Prop where
  replay : s.manager = runCalls (s.log.map Prod.snd)
  warranted : forall past act rest, s.log = past ++ act :: rest ->
    Warranted (runCalls (past.map Prod.snd)) act.1 act.2
  access : forall space agent required, s.manager.checkAccess space agent required = true ->
    exists owner, Delegated s.log space owner agent required
  vouched : config.jwtSecret ≠ none -> forall act, act ∈ s.log ->
    VouchedFor env config trace act.1
  created : config.jwtSecret = none -> forall act, act ∈ s.log -> IsCreation act.2

theorem Traced.later (h : Traced env config trace s) (more : List Exchange) :
    Traced env config (trace ++ more) s where
  replay := h.replay
  warranted := h.warranted
  access := h.access
  vouched hsecret act hact := (h.vouched hsecret act hact).later more
  created := h.created

/-- A warranted call keeps all of it. -/
theorem Traced.call (h : Traced env config trace s) {actor : AgentId} {call : SpaceCall}
    (hwarranted : Warranted s.manager actor call)
    (hvouched : config.jwtSecret ≠ none -> VouchedFor env config trace actor)
    (hcreation : config.jwtSecret = none -> IsCreation call) :
    Traced env config trace (s.call actor call) where
  replay := by
    show call.step s.manager = runCalls ((s.log ++ [(actor, call)]).map Prod.snd)
    rw [h.replay, List.map_append]
    unfold runCalls
    rw [List.foldl_append]
    rfl
  warranted past act rest heq := by
    change s.log ++ [(actor, call)] = past ++ act :: rest at heq
    rcases List.eq_nil_or_concat rest with rfl | ⟨front, last, rfl⟩
    · rcases List.append_inj' heq rfl with ⟨hpast, hact⟩
      cases hact
      rw [← hpast, ← h.replay]
      exact hwarranted
    · rw [List.concat_eq_append, ← List.cons_append, ← List.append_assoc] at heq
      exact h.warranted past act front (List.append_inj' heq rfl).1
  access space agent required haccess := by
    change (call.step s.manager).checkAccess space agent required = true at haccess
    show exists owner, Delegated (s.log ++ [(actor, call)]) space owner agent required
    by_cases hconcerns : call.concerns space agent
    · cases call with
      | createSpace id now name owner =>
          cases hconcerns
          have howner := eq_owner_of_checkAccess_createSpace haccess
          have hactor : owner = actor := hwarranted
          rw [howner, hactor]
          exact ⟨actor, Delegated.owner⟩
      | grantAccess granted target perm =>
          rcases hconcerns with ⟨rfl, rfl⟩
          rcases checkAccess_grantAccess_cases haccess with hperm | hold
          · rcases h.access granted actor Permission.admin hwarranted with ⟨owner, hadmin⟩
            exact ⟨owner, Delegated.grant hadmin hperm⟩
          · rcases h.access _ _ _ hold with ⟨owner, hbefore⟩
            exact ⟨owner, hbefore.append _⟩
      | deleteSpace id => exact hwarranted.elim
      | revokeAccess granted target => exact hwarranted.elim
    · rw [checkAccess_step s.manager hconcerns required] at haccess
      rcases h.access space agent required haccess with ⟨owner, hbefore⟩
      exact ⟨owner, hbefore.append _⟩
  vouched hsecret act hact := by
    rcases List.mem_append.mp hact with hold | hnew
    · exact h.vouched hsecret act hold
    · rw [List.mem_singleton.mp hnew]
      exact hvouched hsecret
  created hsecret act hact := by
    rcases List.mem_append.mp hact with hold | hnew
    · exact h.created hsecret act hold
    · rw [List.mem_singleton.mp hnew]
      exact hcreation hsecret

/-- One more request. -/
theorem Traced.acts (h : Traced env config trace s) (hsigns : env.Signs)
    (hrun : Serves env config trace s) {request : HttpRequest}
    (hunforged : Unforged env config trace request) {agent : Option AuthenticatedAgent}
    (hfor : ServedFor env config request agent) {s' : SpaceStore}
    (hacts : Acts env request agent s s') : Traced env config trace s' := by
  have hagent : forall body actor, resolveAgentId env agent body = Except.ok actor ->
      config.jwtSecret ≠ none -> VouchedFor env config trace actor := by
    intro body actor hactor hsecret
    cases hfor with
    | nobody hnone => exact absurd hnone hsecret
    | agent hsome hauth =>
        exact (vouchedFor_of_authenticate hsigns hrun hunforged hsome hauth).2 body actor hactor
  cases hacts with
  | nothing => exact h
  | create name hactor => exact h.call rfl (hagent _ _ hactor) (fun _ => trivial)
  | grant target perm hactor hmay =>
      cases hfor with
      | nobody hnone => cases hactor
      | agent hsome hauth =>
          have hadmin := (vouchedFor_of_authenticate hsigns hrun hunforged hsome hauth).1
          refine h.call ?_ (hagent _ _ hactor) ?_
          · rcases hmay with htoken | haccess
            · exact absurd (htoken.symm.trans hadmin) (by decide)
            · exact haccess
          · intro hnone
            rw [hnone] at hsome
            cases hsome

theorem traced_run (hsigns : env.Signs) (hrun : Serves env config trace s) :
    Traced env config trace s := by
  induction hrun with
  | start =>
      exact
        { replay := rfl
          warranted := fun past act rest heq => by cases past <;> cases heq
          access := fun space agent required h => by cases h
          vouched := fun _ act hact => by cases hact
          created := fun _ act hact => by cases hact }
  | next request hbefore hunforged ih =>
      apply Traced.later
      rcases serve_acts with ⟨agent, hfor | hsame, hacts⟩
      · exact ih.acts hsigns hbefore hunforged hfor hacts
      · rw [hsame]
        exact ih

/-- After every run: the spaces are what the calls made of them; each call was made for an agent
that may make it, and that somebody with the admin key asked a token for; and whoever has access
to a space created it or was granted the access by agents that had the right to grant it.
Without a secret nothing is ever granted. -/
theorem access_is_delegated (hsigns : env.Signs) (hrun : Serves env config trace s) :
    s.manager = runCalls (s.log.map Prod.snd) ∧
      (forall past act rest, s.log = past ++ act :: rest ->
        Warranted (runCalls (past.map Prod.snd)) act.1 act.2) ∧
      (forall space agent required, s.manager.checkAccess space agent required = true ->
        exists owner, Delegated s.log space owner agent required) ∧
      (config.jwtSecret ≠ none -> forall act, act ∈ s.log ->
        VouchedFor env config trace act.1) ∧
      (config.jwtSecret = none -> forall act, act ∈ s.log -> IsCreation act.2) := by
  have htraced := traced_run hsigns hrun
  exact ⟨htraced.replay, htraced.warranted, htraced.access, htraced.vouched, htraced.created⟩

end Runs

/-!
## A run

The signature stands in front of the claims.
-/

def plainEncode (secret : String) (claims : Claims) : String :=
  String.ofList (secret.toList ++ (if claims.admin then 'a' else 'u') ::
    (List.replicate claims.exp '|' ++ '.' :: claims.agentId.toList))

def plainDecode (secret : String) (now : UInt64) (token : String) : Except String Claims :=
  match Strings.stripPrefix secret.toList token.toList with
  | some (flag :: rest) =>
      let exp := (rest.takeWhile (fun c => c == '|')).length
      if now.toNat <= exp + 60 then
        Except.ok
          { agentId := String.ofList (rest.drop (exp + 1)), admin := flag == 'a', exp := exp }
      else Except.error "ExpiredSignature"
  | _ => Except.error "InvalidToken"

def plainAuth : AuthEnv where
  build := Build.checked
  encode := plainEncode
  decode := plainDecode
  parseUuid s := [1, 7, 8].find? (fun uuid => uuidText uuid == s)
  toLowercase s := s

theorem stripPrefix_append {α : Type} [BEq α] [LawfulBEq α] (pattern s : List α) :
    Strings.stripPrefix pattern (pattern ++ s) = some s := by
  unfold Strings.stripPrefix
  rw [if_pos (List.isPrefixOf_iff_prefix.mpr (List.prefix_append pattern s)),
    List.drop_left]

theorem plainAuth_signs : plainAuth.Signs := by
  intro secret claims now
  have hdecode : plainDecode secret now (plainEncode secret claims) =
      if now.toNat <= claims.exp + 60 then Except.ok claims
      else Except.error "ExpiredSignature" := by
    unfold plainDecode plainEncode
    rw [String.toList_ofList, stripPrefix_append]
    have hspan : ((List.replicate claims.exp '|' ++ '.' :: claims.agentId.toList).takeWhile
        (fun c => c == '|')).length = claims.exp := by
      rw [List.takeWhile_append_of_pos (by simp)]
      simp
    have hname : (List.replicate claims.exp '|' ++ '.' :: claims.agentId.toList).drop
        (claims.exp + 1) = claims.agentId.toList := by
      rw [List.drop_append]
      simp
    dsimp only
    rw [hspan, hname, String.ofList_toList]
    cases claims with
    | mk agentId admin exp => cases admin <;> rfl
  constructor
  · intro htime
    exact hdecode.trans (if_pos htime)
  · intro hlate
    exact hdecode.trans (if_neg (Nat.not_le.mpr hlate))

def plainConfig : AuthConfig where
  jwtSecret := some "secret"
  adminKey := some "key"

def askForToken : HttpRequest where
  endpoint := Endpoint.generateToken (TokenBody.parsed (uuidText 7) (some 0))
  apiKey := some "key"
  authorization := none
  seconds := 5
  micros := 5000000
  drawn := ⟨0⟩

def sevensToken : String :=
  plainEncode "secret" { agentId := uuidText 7, admin := false, exp := 5 }

def bySeven (endpoint : Endpoint) : HttpRequest where
  endpoint := endpoint
  apiKey := none
  authorization := some ("Bearer " ++ sevensToken)
  seconds := 9
  micros := 9000000
  drawn := ⟨1⟩

def bodyOf (fields : List (String × String)) : TextFields := fun field => List.lookup field fields

def createNotes : HttpRequest := bySeven (Endpoint.createSpace (bodyOf [("name", "notes")]))

def admitEight : HttpRequest :=
  bySeven (Endpoint.grantSpaceAccess (uuidText 1)
    (bodyOf [("agent_id", uuidText 8), ("permission", "read")]))

theorem unforged_bySeven {trace : List Exchange} (endpoint : Endpoint)
    (h : Sent trace sevensToken (uuidText 7) askForToken) :
    Unforged plainAuth plainConfig trace (bySeven endpoint) := by
  intro secret token claims _ htoken _
  have hbearer : bearer ("Bearer " ++ sevensToken) = some sevensToken := by
    unfold bearer
    rw [String.toList_append, stripPrefix_append, Option.map_some, String.ofList_toList]
  have hsame : token = sevensToken := Option.some.inj (htoken.symm.trans hbearer)
  exact ⟨uuidText 7, askForToken, hsame ▸ h⟩

theorem access_is_delegated_notes :
    exists trace s, Serves plainAuth plainConfig trace s ∧
      s.manager.checkAccess ⟨1⟩ ⟨8⟩ Permission.read = true ∧
      exists owner, Delegated s.log ⟨1⟩ owner ⟨8⟩ Permission.read := by
  have hasked : Serves plainAuth plainConfig _ _ :=
    Serves.next askForToken Serves.start (fun secret token claims _ htoken => by cases htoken)
  have hsent : Sent [(askForToken, (serve plainAuth plainConfig askForToken SpaceStore.new).1)]
      sevensToken (uuidText 7) askForToken := by
    have hreply : (serve plainAuth plainConfig askForToken SpaceStore.new).1 =
        some (Except.ok (Reply.token sevensToken (uuidText 7))) := by decide +kernel
    rw [hreply]
    exact List.mem_singleton_self _
  have hcreated := Serves.next createNotes hasked (unforged_bySeven _ hsent)
  have hgranted := Serves.next admitEight hcreated
    (unforged_bySeven _ (List.mem_append_left _ hsent))
  have haccess : (serve plainAuth plainConfig admitEight
      (serve plainAuth plainConfig createNotes
        (serve plainAuth plainConfig askForToken SpaceStore.new).2).2).2.manager.checkAccess
      ⟨1⟩ ⟨8⟩ Permission.read = true := by decide +kernel
  exact ⟨_, _, hgranted, haccess,
    (access_is_delegated plainAuth_signs hgranted).2.2.1 ⟨1⟩ ⟨8⟩ Permission.read haccess⟩

end Server
end MenteDb
