/-
  Identities of nodes (`iroh_middleware.rs`) and their enrolment by token or certificate
  (`iroh_identity_enrollment.rs`).

  Roles and tenant belong to the user, so all nodes of a user have those of the last enrolment
  (`others_keep_identity_iff`).
-/
import Blixard.Lib.Run
import Blixard.IpPool.Config

namespace Blixard

structure NodeIdentityRegistry (N : Type) [Ord N] where
  nodeToUser : Table N String
  userRoles : Table String (List String)
  userTenants : Table String String

namespace NodeIdentityRegistry

variable {N : Type} [Ord N] [Std.TransOrd N] (r : NodeIdentityRegistry N)

def new : NodeIdentityRegistry N := ⟨∅, ∅, ∅⟩

/-- The three writes of `register_node`; the locks are held until the last one is done. -/
def setUser (nodeId : N) (userId : String) : NodeIdentityRegistry N :=
  { r with nodeToUser := r.nodeToUser.insert nodeId userId }

def setRoles (userId : String) (roles : List String) : NodeIdentityRegistry N :=
  { r with userRoles := r.userRoles.insert userId roles }

def setTenant (userId tenantId : String) : NodeIdentityRegistry N :=
  { r with userTenants := r.userTenants.insert userId tenantId }

def registerNode (nodeId : N) (userId : String) (roles : List String) (tenantId : String) :
    NodeIdentityRegistry N :=
  ((r.setUser nodeId userId).setRoles userId roles).setTenant userId tenantId

def rolesOf (userId : String) : List String := r.userRoles[userId]?.getD []

def tenantOf (userId : String) : String := r.userTenants[userId]?.getD "default"

def getUserIdentity (nodeId : N) : Option (String × List String × String) :=
  r.nodeToUser[nodeId]?.map fun userId => (userId, r.rolesOf userId, r.tenantOf userId)

end NodeIdentityRegistry

/-! ## Tokens -/

structure EnrollmentToken where
  tokenId : String
  secret : String
  userId : String
  roles : List String
  tenantId : String
  expiresAt : ℤ
  multiUse : Bool
  maxUses : Option UInt32
  useCount : UInt32
  deriving DecidableEq

structure EnrollmentResult where
  success : Bool
  userId : String
  roles : List String
  tenantId : String
  message : String

def validateToken (now : ℤ) (tokens : Table String EnrollmentToken) (tokenId secret : String) :
    Except BlixardError EnrollmentToken :=
  match tokens[tokenId]? with
  | none => .error (.security "Invalid enrollment token")
  | some token =>
    if token.secret ≠ secret then .error (.security "Invalid token secret")
    else if token.expiresAt < now then .error (.security "Enrollment token expired")
    else if token.multiUse = false ∧ 0 < token.useCount then
      .error (.security "Single-use token already used")
    else if ∃ maxUses ∈ token.maxUses, maxUses ≤ token.useCount then
      .error (.security "Token usage limit exceeded")
    else .ok token

/-- What becomes of a token that was used; one for a single use is removed. -/
def EnrollmentToken.afterUse (pf : Platform) (token : EnrollmentToken) :
    Except Failure (Option EnrollmentToken) :=
  match pf.addUnsigned 32 token.useCount.toNat 1 with
  | .error failure => .error failure
  | .ok useCount =>
    .ok (if token.multiUse then some { token with useCount := .ofNat useCount } else none)

def setToken (tokens : Table String EnrollmentToken) (tokenId : String) :
    Option EnrollmentToken → Table String EnrollmentToken
  | some token => tokens.insert tokenId token
  | none => tokens.erase tokenId

/-! ## Certificates -/

structure CertRoleMapping where
  certField : String
  pattern : String
  roles : List String
  tenant : Option String

structure CertificateEnrollmentConfig where
  certRoleMappings : List CertRoleMapping
  defaultTenant : String

structure CertAttributes where
  entries : List (String × String)
  nodup : (entries.map Prod.fst).Nodup

def CertAttributes.get (attributes : CertAttributes) (field : String) : Option String :=
  attributes.entries.lookup field

def afterFirst (part : List Char) : List Char → Option (List Char)
  | [] => if part = [] then some [] else none
  | c :: rest =>
    if part.isPrefixOf (c :: rest) then some ((c :: rest).drop part.length)
    else afterFirst part rest

/-- The parts of a pattern stand in the value one after another, the first at its beginning. -/
def matchParts (value : List Char) : (isFirst : Bool) → (rest : List Char) → List (List Char) → Bool
  | _, _, [] => true
  | isFirst, rest, part :: parts =>
    if part = [] then matchParts value false rest parts
    else if isFirst && !part.isPrefixOf value then false
    else
      match afterFirst part rest with
      | some rest => matchParts value false rest parts
      | none => false

def matchesPattern (value pattern : String) : Bool :=
  if '*' ∈ pattern.toList then
    let parts := pattern.toList.splitOn '*'
    let last := parts.getLast?.getD []
    matchParts value.toList true value.toList parts &&
      (last = [] || last.isSuffixOf value.toList)
  else value = pattern

def generateUserIdFromCert (attributes : CertAttributes) : String :=
  match attributes.get "CN", attributes.get "emailAddress", attributes.get "OU",
    attributes.get "O" with
  | some cn, _, _, _ => cn
  | none, some email, _, _ => email
  | none, none, some ou, some o => s!"{ou}@{o}"
  | _, _, _, _ => (attributes.entries.head?.map Prod.snd).getD "unknown"

def matchedRoles (config : CertificateEnrollmentConfig) (attributes : CertAttributes) :
    List String × String :=
  config.certRoleMappings.foldl (fun (roles, tenantId) mapping =>
    match attributes.get mapping.certField with
    | some value =>
      if matchesPattern value mapping.pattern then
        (roles ++ mapping.roles, mapping.tenant.getD tenantId)
      else (roles, tenantId)
    | none => (roles, tenantId)) ([], config.defaultTenant)

/-! ## Enrolment -/

structure IdentityEnrollmentManager (N : Type) [Ord N] where
  registry : NodeIdentityRegistry N
  tokens : Table String EnrollmentToken
  certConfig : Option CertificateEnrollmentConfig
  hasStatePath : Bool

/-- The surroundings of an enrolment: the time, what becomes of the state file, and the
    `Debug` text of nodes. -/
structure EnrollmentEnv (N : Type) where
  now : ℤ
  save : Except BlixardError Unit
  debugNode : N → String

inductive Enrollment (N : Type) where
  | withToken (env : EnrollmentEnv N) (nodeId : N) (tokenId tokenSecret : String)
  | withCertificate (nodeId : N) (attributes : CertAttributes)

def Enrollment.nodeId {N : Type} : Enrollment N → N
  | withToken _ nodeId _ _ => nodeId
  | withCertificate nodeId _ => nodeId

namespace IdentityEnrollmentManager

variable {N : Type} [Ord N] [Std.TransOrd N] [Std.LawfulEqOrd N] [DecidableEq N] (pf : Platform)
  (m : IdentityEnrollmentManager N)

def saveState (env : EnrollmentEnv N) : Except BlixardError Unit :=
  if m.hasStatePath then env.save else .ok ()

def enrollWithToken (env : EnrollmentEnv N) (nodeId : N) (tokenId tokenSecret : String) :
    IdentityEnrollmentManager N × Except Failure EnrollmentResult :=
  match validateToken env.now m.tokens tokenId tokenSecret with
  | .error e => (m, .error (.error e))
  | .ok token =>
    let m := { m with
      registry := m.registry.registerNode nodeId token.userId token.roles token.tenantId }
    match token.afterUse pf with
    | .error failure => (m, .error failure)
    | .ok used =>
      let m := { m with tokens := setToken m.tokens tokenId used }
      match m.saveState env with
      | .error e => (m, .error (.error e))
      | .ok () =>
        (m, .ok ⟨true, token.userId, token.roles, token.tenantId,
          s!"Successfully enrolled node {env.debugNode nodeId}"⟩)

def enrollWithCertificate (nodeId : N) (attributes : CertAttributes) :
    IdentityEnrollmentManager N × Except Failure EnrollmentResult :=
  match m.certConfig with
  | none =>
    (m, .error (.error (.configurationError "iroh_identity_enrollment.cert_config"
      "Certificate enrollment not configured")))
  | some config =>
    match matchedRoles config attributes with
    | ([], _) => (m, .error (.error (.security "No matching certificate role mappings")))
    | (roles, tenantId) =>
      let userId := generateUserIdFromCert attributes
      ({ m with registry := m.registry.registerNode nodeId userId roles tenantId },
        .ok ⟨true, userId, roles, tenantId, "Successfully enrolled via certificate"⟩)

def enroll : Enrollment N → IdentityEnrollmentManager N × Except Failure EnrollmentResult
  | .withToken env nodeId tokenId tokenSecret => m.enrollWithToken pf env nodeId tokenId tokenSecret
  | .withCertificate nodeId attributes => m.enrollWithCertificate nodeId attributes

def step (e : Enrollment N) : IdentityEnrollmentManager N := (m.enroll pf e).1

/-! ## The identities of other nodes -/

/-- The user, roles and tenant that an enrolment registers, if it gets that far. -/
def registers : Enrollment N → Option (String × List String × String)
  | .withToken env _ tokenId tokenSecret =>
    match validateToken env.now m.tokens tokenId tokenSecret with
    | .error _ => none
    | .ok token => some (token.userId, token.roles, token.tenantId)
  | .withCertificate _ attributes =>
    m.certConfig.bind fun config =>
      match matchedRoles config attributes with
      | ([], _) => none
      | (roles, tenantId) => some (generateUserIdFromCert attributes, roles, tenantId)

def OthersKeepIdentity (e : Enrollment N) : Prop :=
  ∀ nodeId, nodeId ≠ e.nodeId → m.registry.getUserIdentity nodeId ≠ none →
    (m.step pf e).registry.getUserIdentity nodeId = m.registry.getUserIdentity nodeId

/-- The enrolment brings no other roles or tenant for the user of another node. -/
def Agrees (e : Enrollment N) : Prop :=
  ∀ userId roles tenantId, m.registers e = some (userId, roles, tenantId) →
    ∀ nodeId, nodeId ≠ e.nodeId → m.registry.nodeToUser[nodeId]? = some userId →
      m.registry.rolesOf userId = roles ∧ m.registry.tenantOf userId = tenantId

variable {pf m} {e : Enrollment N}

omit [Std.LawfulEqOrd N] [DecidableEq N] in
theorem registry_step : (m.step pf e).registry = (m.registers e).elim m.registry fun idn =>
      m.registry.registerNode e.nodeId idn.1 idn.2.1 idn.2.2 := by
  cases e with
  | withToken env nid tk sec =>
    simp only [step, enroll, enrollWithToken, registers]
    cases validateToken env.now m.tokens tk sec with
    | error e => rfl
    | ok token =>
      cases hused : token.afterUse pf with
      | error fail => simp only [hused]; rfl
      | ok used =>
        simp only [hused]
        split <;> rfl
  | withCertificate nid attributes =>
    simp only [step, enroll, enrollWithCertificate, registers]
    cases m.certConfig with
    | none => rfl
    | some cfg =>
      simp only [Option.bind_some]
      rcases matchedRoles cfg attributes with ⟨_ | ⟨role, roles⟩, tid⟩ <;> rfl

theorem getUserIdentity_registerNode_of_ne (r : NodeIdentityRegistry N) {nid other : N}
    (h : other ≠ nid) (userId : String) (roles : List String) (tid : String) :
    (r.registerNode nid userId roles tid).getUserIdentity other =
      r.nodeToUser[other]?.map fun user =>
        if user = userId then (userId, roles, tid)
        else (user, r.rolesOf user, r.tenantOf user) := by
  have huser : (r.registerNode nid userId roles tid).nodeToUser[other]? =
      r.nodeToUser[other]? :=
    (Table.get_insert ..).trans (if_neg h.symm)
  rw [NodeIdentityRegistry.getUserIdentity, huser]
  refine congrArg (r.nodeToUser[other]?.map ·) (funext fun user => ?_)
  simp only [NodeIdentityRegistry.rolesOf, NodeIdentityRegistry.tenantOf,
    NodeIdentityRegistry.registerNode, NodeIdentityRegistry.setTenant,
    NodeIdentityRegistry.setRoles, NodeIdentityRegistry.setUser, Table.get_insert]
  by_cases hu : user = userId
  · subst hu
    simp only [if_pos, Option.getD_some]
  · simp only [if_neg hu, if_neg (Ne.symm hu)]

theorem othersKeepIdentity_iff : m.OthersKeepIdentity pf e ↔ m.Agrees e := by
  unfold OthersKeepIdentity Agrees
  rw [registry_step]
  cases m.registers e with
  | none =>
    constructor
    · intro _ userId roles tid hnone
      cases hnone
    · intro _ nid _ _
      rfl
  | some idn =>
    obtain ⟨userId, roles, tid⟩ := idn
    simp only [Option.elim_some]
    constructor
    · intro hkeep _ _ _ hsome nid hne huser
      cases hsome
      have hsame := hkeep nid hne (by simp [NodeIdentityRegistry.getUserIdentity, huser])
      rw [getUserIdentity_registerNode_of_ne _ hne, NodeIdentityRegistry.getUserIdentity, huser,
        Option.map_some, Option.map_some, if_pos rfl, Option.some.injEq, Prod.mk.injEq,
        Prod.mk.injEq] at hsame
      exact ⟨hsame.2.1.symm, hsame.2.2.symm⟩
    · intro ha nid hne _
      rw [getUserIdentity_registerNode_of_ne _ hne, NodeIdentityRegistry.getUserIdentity]
      cases huser : m.registry.nodeToUser[nid]? with
      | none => rfl
      | some user =>
        rw [Option.map_some, Option.map_some]
        by_cases hu : user = userId
        · subst hu
          obtain ⟨hr, hten⟩ := ha user roles tid rfl nid hne huser
          rw [if_pos rfl, hr, hten]
        · rw [if_neg hu]

/-- Over a sequence of enrolments, no node changes the identity of another exactly if no
    enrolment brings other roles or another tenant for the user of another node. -/
theorem others_keep_identity_iff (pf : Platform) (m : IdentityEnrollmentManager N)
    (es : List (Enrollment N)) :
    Run.Along (step pf) (OthersKeepIdentity pf) m es ↔ Run.Along (step pf) Agrees m es :=
  Run.along_congr (fun _ _ => othersKeepIdentity_iff) m es

end IdentityEnrollmentManager

/-! ## Two nodes of one user -/

namespace IdentityEnrollmentManager

def aliceToken (tokenId : String) (roles : List String) (tenantId : String) : EnrollmentToken :=
  ⟨tokenId, "secret", "alice", roles, tenantId, 100, false, none, 0⟩

def tokensWith (roles : List String) (tenantId : String) : IdentityEnrollmentManager ℕ where
  registry := .new
  tokens := ((∅ : Table String EnrollmentToken).insert "first"
    (aliceToken "first" ["admin"] "acme")).insert "second"
    (aliceToken "second" roles tenantId)
  certConfig := none
  hasStatePath := false

def twoTokens : IdentityEnrollmentManager ℕ := tokensWith ["viewer"] "umbrella"

def atTime (now : ℤ) : EnrollmentEnv ℕ := ⟨now, .ok (), fun nodeId => s!"{nodeId}"⟩

def withBoth : List (Enrollment ℕ) :=
  [.withToken (atTime 1) 1 "first" "secret", .withToken (atTime 2) 2 "second" "secret"]

theorem others_keep_identity_sameRoles :
    Run.Along (step .release) (OthersKeepIdentity .release) (tokensWith ["admin"] "acme") withBoth ∧
      (withBoth.foldl (step .release) (tokensWith ["admin"] "acme")).registry.getUserIdentity 1 =
        some ("alice", ["admin"], "acme") := by
  refine ⟨(others_keep_identity_iff .release _ _).2 ⟨?_, ?_, trivial⟩, by decide +kernel⟩
  · intro userId roles tenantId _ nodeId _ huser
    simp [tokensWith, NodeIdentityRegistry.new] at huser
  intro userId roles tenantId hregisters nodeId _ _
  have hsecond : ((tokensWith ["admin"] "acme").step .release
      (.withToken (atTime 1) 1 "first" "secret")).registers
      (.withToken (atTime 2) 2 "second" "secret") = some ("alice", ["admin"], "acme") := by
    decide +kernel
  rw [hsecond] at hregisters
  cases hregisters
  decide +kernel

/-- The second enrolment takes the admin role of the first node, and moves it to the other
    tenant. -/
theorem identity_changed_by_other :
    ((withBoth.take 1).foldl (step .release) twoTokens).registry.getUserIdentity 1 =
        some ("alice", ["admin"], "acme") ∧
      (withBoth.foldl (step .release) twoTokens).registry.getUserIdentity 1 =
        some ("alice", ["viewer"], "umbrella") ∧
      ¬ Run.Along (step .release) (OthersKeepIdentity .release) twoTokens withBoth := by
  have hbefore : ((withBoth.take 1).foldl (step .release) twoTokens).registry.getUserIdentity 1 =
      some ("alice", ["admin"], "acme") := by decide +kernel
  have hafter : (withBoth.foldl (step .release) twoTokens).registry.getUserIdentity 1 =
      some ("alice", ["viewer"], "umbrella") := by decide +kernel
  refine ⟨hbefore, hafter, fun halong => ?_⟩
  have hsame := halong.2.1 1 (by decide) fun hnone => nomatch hbefore.symm.trans hnone
  exact absurd (hafter.symm.trans (hsame.trans hbefore)) (by decide)

end IdentityEnrollmentManager

end Blixard
