/-
  Enrolment tokens over calls that run at the same time, and over restarts.

  A step of a call is what it does between two awaits; while a file is being written it can have
  any content.  A history is what the calls have answered, the last first.
-/
import Blixard.Enrollment
import Blixard.Lib.Calls

namespace Blixard

open EnrollmentToken IdentityEnrollmentManager List

/-! ## Calls -/

structure TokenRequest where
  userId : String
  roles : List String
  tenantId : String
  validity : ℕ
  multiUse : Bool
  maxUses : Option UInt32

inductive TokenAnswer where
  | generated (token : EnrollmentToken)
  | enrolled (result : EnrollmentResult)
  | revoked (tokenId : String)
  | loaded

/-- What happened to tokens; `removed` is what `revoke_token` does to a token before it
    saves, and `revoked` that it returned `Ok`. -/
inductive TokenEvent (N : Type) where
  | generated (token : EnrollmentToken)
  | registered (tokenId : String) (nodeId : N)
  | removed (tokenId : String)
  | revoked (tokenId : String)
  deriving DecidableEq

def TokenEvent.tokenId {N : Type} : TokenEvent N → String
  | generated token => token.tokenId
  | registered tokenId _ | removed tokenId | revoked tokenId => tokenId

/-- What the calls share, and the history, newest first, which no call reads. -/
structure TokenStore (N : Type) [Ord N] where
  tokens : Table String EnrollmentToken
  writer : Bool
  readers : ℕ
  registry : NodeIdentityRegistry N
  hasStatePath : Bool
  /-- The file, if there is one; its text need not be one that can be parsed. -/
  file : Option (Except BlixardError (Table String EnrollmentToken))
  history : List (TokenEvent N)

inductive TokenCall (N : Type) where
  | notBegun
  /-- These three hold the write lock. -/
  | validated (nodeId : N) (tokenId : String) (token : EnrollmentToken)
  | userSet (nodeId : N) (tokenId : String) (token : EnrollmentToken)
  | rolesSet (nodeId : N) (tokenId : String) (token : EnrollmentToken)
  | saving (answer : TokenAnswer)
  /-- This one holds the lock for reading. -/
  | writing (answer : TokenAnswer)
  | found
  | read (tokens : Table String EnrollmentToken)
  | finished (result : Except Failure TokenAnswer)

inductive TokenStep (N : Type) where
  | generate (request : TokenRequest) (now : ℤ) (uuid secret : String)
  | enroll (nodeId : N) (tokenId tokenSecret : String) (now : ℤ)
  | register
  | revoke (tokenId : String)
  | save
  | write (content : Except BlixardError (Table String EnrollmentToken))
  | failSave (e : BlixardError)
  | load (canStat : Bool)
  | readFile
  | failRead (e : BlixardError)
  | store

def expiresAt (now : ℤ) (validity : ℕ) : Except Failure ℤ :=
  if now + validity < 2 ^ 63 * 10 ^ 9 then .ok (now + validity)
  else .error (.panic "overflow when adding duration to instant")

def newToken (request : TokenRequest) (expiresAt : ℤ) (uuid secret : String) : EnrollmentToken where
  tokenId := s!"enroll_{uuid}"
  secret
  userId := request.userId
  roles := request.roles
  tenantId := request.tenantId
  expiresAt
  multiUse := request.multiUse
  maxUses := request.maxUses
  useCount := 0

namespace TokenStore

variable {N : Type} [Ord N] [Std.TransOrd N] (pf : Platform) (debugNode : N → String)
  (s : TokenStore N)

def Free : Prop := s.writer = false ∧ s.readers = 0

instance : Decidable s.Free := inferInstanceAs (Decidable (_ ∧ _))

def log (event : TokenEvent N) : TokenStore N := { s with history := event :: s.history }

def start (hasStatePath : Bool) (file : Option (Except BlixardError (Table String EnrollmentToken))) :
    TokenStore N :=
  ⟨∅, false, 0, .new, hasStatePath, file, []⟩

def answered (answer : TokenAnswer) : TokenStore N :=
  match answer with
  | .revoked tokenId => s.log (.revoked tokenId)
  | _ => s

def finishEnroll (nodeId : N) (tokenId : String) (token : EnrollmentToken) :
    TokenStore N × TokenCall N :=
  let s := { s with registry := s.registry.setTenant token.userId token.tenantId, writer := false }
  match token.afterUse pf with
  | .error failure => (s, .finished (.error failure))
  | .ok used =>
    ({ s with tokens := setToken s.tokens tokenId used },
      .saving (.enrolled ⟨true, token.userId, token.roles, token.tenantId,
        s!"Successfully enrolled node {debugNode nodeId}"⟩))

def act : TokenCall N → TokenStep N → TokenStore N × TokenCall N
  | .notBegun, .generate request now uuid secret =>
    match expiresAt now request.validity with
    | .error failure => (s, .finished (.error failure))
    | .ok expiresAt =>
      let token := newToken request expiresAt uuid secret
      -- an id is a random number: no call has named it before
      if s.Free ∧ ∀ event ∈ s.history, event.tokenId ≠ token.tokenId then
        ({ s with tokens := s.tokens.insert token.tokenId token }.log (.generated token),
          .saving (.generated token))
      else (s, .notBegun)
  | .notBegun, .enroll nodeId tokenId tokenSecret now =>
    if s.Free then
      match validateToken now s.tokens tokenId tokenSecret with
      | .error e => (s, .finished (.error (.error e)))
      | .ok token => ({ s with writer := true }, .validated nodeId tokenId token)
    else (s, .notBegun)
  | .validated nodeId tokenId token, .register =>
    ({ s with registry := s.registry.setUser nodeId token.userId }.log (.registered tokenId nodeId),
      .userSet nodeId tokenId token)
  | .userSet nodeId tokenId token, .register =>
    ({ s with registry := s.registry.setRoles token.userId token.roles },
      .rolesSet nodeId tokenId token)
  | .rolesSet nodeId tokenId token, .register => s.finishEnroll pf debugNode nodeId tokenId token
  | .notBegun, .revoke tokenId =>
    if s.Free then
      ({ s with tokens := s.tokens.erase tokenId }.log (.removed tokenId),
        .saving (.revoked tokenId))
    else (s, .notBegun)
  | .saving answer, .save =>
    if s.hasStatePath = false then (s.answered answer, .finished (.ok answer))
    else if s.writer then (s, .saving answer)
    else ({ s with readers := s.readers + 1 }, .writing answer)
  | .writing answer, .write content => ({ s with file := some content }, .writing answer)
  | .writing answer, .save =>
    ({ s with file := some (.ok s.tokens), readers := s.readers - 1 }.answered answer,
      .finished (.ok answer))
  | .writing _, .failSave e =>
    ({ s with readers := s.readers - 1 }, .finished (.error (.error e)))
  | .notBegun, .load canStat =>
    if s.hasStatePath ∧ s.file.isSome ∧ canStat then (s, .found)
    else (s, .finished (.ok .loaded))
  | .found, .readFile =>
    match s.file with
    | some (.ok tokens) => (s, .read tokens)
    | some (.error e) => (s, .finished (.error (.error e)))
    | none => (s, .found)
  | .found, .failRead e => (s, .finished (.error (.error e)))
  | .read tokens, .store =>
    if s.Free then ({ s with tokens }, .finished (.ok .loaded)) else (s, .read tokens)
  | call, _ => (s, call)

/-! ## A call without others -/

def runAlone (x : TokenStore N × TokenCall N) (steps : List (TokenStep N)) :
    TokenStore N × TokenCall N :=
  steps.foldl (fun x step => x.1.act pf debugNode x.2 step) x

variable {pf debugNode s}

theorem runAlone_finished (res : Except Failure TokenAnswer) (steps : List (TokenStep N)) :
    runAlone pf debugNode (s, .finished res) steps = (s, .finished res) := by
  induction steps with
  | nil => rfl
  | cons step steps ih =>
    have hstep : s.act pf debugNode (.finished res) step = (s, .finished res) := by
      cases step <;> rfl
    rw [runAlone, foldl_cons, hstep]
    exact ih

omit [Std.TransOrd N] in
theorem answered_eq (ans : TokenAnswer) :
    (s.answered ans).registry = s.registry ∧ (s.answered ans).tokens = s.tokens := by
  cases ans <;> exact ⟨rfl, rfl⟩

theorem runAlone_save (hw : s.writer = false) (ans : TokenAnswer) :
    let done := runAlone pf debugNode (s, .saving ans) [.save, .save]
    done.1.registry = s.registry ∧ done.1.tokens = s.tokens ∧ done.2 = .finished (.ok ans) := by
  by_cases hpath : s.hasStatePath = false
  · have hf : s.act pf debugNode (.saving ans) .save =
        (s.answered ans, .finished (.ok ans)) := if_pos hpath
    simp only [runAlone, foldl_cons, hf]
    exact ⟨(answered_eq ans).1, (answered_eq ans).2, rfl⟩
  have hf : s.act pf debugNode (.saving ans) .save =
      ({ s with readers := s.readers + 1 }, .writing ans) :=
    (if_neg hpath).trans (if_neg (by simp [hw]))
  simp only [runAlone, foldl_cons, hf]
  exact ⟨(answered_eq ans).1, (answered_eq ans).2, rfl⟩

def manager (s : TokenStore N) (certConfig : Option CertificateEnrollmentConfig) :
    IdentityEnrollmentManager N :=
  ⟨s.registry, s.tokens, certConfig, s.hasStatePath⟩

/-- Without other calls, the steps of `enroll_with_token` are those of `enrollWithToken`. -/
theorem runAlone_enroll (hfree : s.Free) (certConfig : Option CertificateEnrollmentConfig)
    (nid : N) (tk sec : String) (now : ℤ) :
    let r := (s.manager certConfig).enrollWithToken pf ⟨now, .ok (), debugNode⟩ nid tk
      sec
    let done := runAlone pf debugNode (s, .notBegun) [.enroll nid tk sec now,
      .register, .register, .register, .save, .save]
    done.1.registry = r.1.registry ∧ done.1.tokens = r.1.tokens ∧
      done.2 = .finished (r.2.map .enrolled) := by
  intro r done
  have hf : s.act pf debugNode .notBegun (.enroll nid tk sec now) = _ :=
    if_pos hfree
  cases hv : validateToken now s.tokens tk sec with
  | error e =>
    have hr : r = (s.manager certConfig, .error (.error e)) := by
      simp only [r, enrollWithToken, manager, hv]
    have hdone : done = (s, .finished (.error (.error e))) := by
      simp only [done, runAlone, foldl_cons, hf, hv]
      exact runAlone_finished _ [.register, .register, .register, .save, .save]
    rw [hr, hdone]
    exact ⟨rfl, rfl, rfl⟩
  | ok token =>
    let reg : TokenStore N := { s with
      registry := (s.registry.setUser nid token.userId).setRoles token.userId token.roles
      writer := true
      history := .registered tk nid :: s.history }
    have hdone : done = runAlone pf debugNode
        (reg.finishEnroll pf debugNode nid tk token) [.save, .save] := by
      simp only [done, runAlone, foldl_cons, hf, hv]
      rfl
    rw [hdone]
    simp only [r, enrollWithToken, finishEnroll, manager, hv]
    cases token.afterUse pf with
    | error fail =>
      rw [runAlone_finished]
      exact ⟨rfl, rfl, rfl⟩
    | ok used =>
      have hsave : ∀ m : IdentityEnrollmentManager N,
          m.saveState ⟨now, .ok (), debugNode⟩ = .ok () :=
        fun _ => ite_self _
      simp only [hsave]
      refine runAlone_save ?_ _
      rfl

def restarted : TokenStore N := { start s.hasStatePath s.file with history := s.history }

end TokenStore

/-- What can happen: a step of a call, or a restart, at any time. -/
inductive TokenMove (N : Type) where
  | call (i : ℕ) (step : TokenStep N)
  | restart

abbrev TokenSystem (N : Type) [Ord N] := Calls.System (TokenStore N) (TokenCall N)

namespace TokenSystem

variable {N : Type} [Ord N] [Std.TransOrd N] (pf : Platform) (debugNode : N → String)

def move (s : TokenSystem N) : TokenMove N → TokenSystem N
  | .call i step => s.step (TokenStore.act pf debugNode) (i, step)
  | .restart => Calls.System.start s.shared.restarted .notBegun

def begin (hasStatePath : Bool) (file : Option (Except BlixardError (Table String EnrollmentToken))) :
    TokenSystem N :=
  Calls.System.start (TokenStore.start hasStatePath file) .notBegun

end TokenSystem

/-! ## Histories -/

/-- A token that was used, as its last use leaves it; if the count overflows it stays. -/
def EnrollmentToken.used (pf : Platform) (token : EnrollmentToken) : Option EnrollmentToken :=
  match token.afterUse pf with
  | .ok used => used
  | .error _ => some token

theorem get_setToken (tks : Table String EnrollmentToken) (tk id : String)
    (token : Option EnrollmentToken) :
    (setToken tks tk token)[id]? = if tk = id then token else tks[id]? := by
  cases token with
  | none => exact Table.get_erase ..
  | some token => exact Table.get_insert ..

section Histories
variable {N : Type} (pf : Platform)

def lastLeft : List (TokenEvent N) → String → Option EnrollmentToken
  | [], _ => none
  | .generated token :: history, tokenId =>
    if token.tokenId = tokenId then some token else lastLeft history tokenId
  | .registered id _ :: history, tokenId =>
    if id = tokenId then (lastLeft history tokenId).bind (·.used pf) else lastLeft history tokenId
  | .removed id :: history, tokenId => if id = tokenId then none else lastLeft history tokenId
  | .revoked _ :: history, tokenId => lastLeft history tokenId

def nodesOf : List (TokenEvent N) → String → List N
  | [], _ => []
  | .registered id nodeId :: history, tokenId =>
    if id = tokenId then nodeId :: nodesOf history tokenId else nodesOf history tokenId
  | _ :: history, tokenId => nodesOf history tokenId

def NoneAfterRevoked : List (TokenEvent N) → Prop
  | [] => True
  | .registered tokenId _ :: history => .revoked tokenId ∉ history ∧ NoneAfterRevoked history
  | _ :: history => NoneAfterRevoked history

instance decidableNoneAfterRevoked [DecidableEq N] :
    (history : List (TokenEvent N)) → Decidable (NoneAfterRevoked history)
  | [] => inferInstanceAs (Decidable True)
  | .registered tokenId _ :: history =>
    haveI := decidableNoneAfterRevoked history
    inferInstanceAs (Decidable (.revoked tokenId ∉ history ∧ NoneAfterRevoked history))
  | .generated _ :: history | .removed _ :: history | .revoked _ :: history =>
    decidableNoneAfterRevoked history

def WithinUses (history : List (TokenEvent N)) (token : EnrollmentToken) : Prop :=
  (token.multiUse = false → (nodesOf history token.tokenId).length ≤ 1) ∧
    ∀ maxUses ∈ token.maxUses, (nodesOf history token.tokenId).length ≤ maxUses.toNat

def TokensBounded (history : List (TokenEvent N)) : Prop :=
  (∀ token, .generated token ∈ history → WithinUses history token) ∧ NoneAfterRevoked history

def EnrollmentToken.Usable (token : EnrollmentToken) : Prop :=
  (token.multiUse = false → token.useCount = 0) ∧
    ∀ maxUses ∈ token.maxUses, token.useCount < maxUses

variable {token : EnrollmentToken}

theorem validateToken_eq_ok {now : ℤ} {tks : Table String EnrollmentToken} {tk sec : String}
    (h : validateToken now tks tk sec = .ok token) : tks[tk]? = some token ∧ token.Usable := by
  unfold validateToken at h
  cases hget : tks[tk]? with
  | none =>
    rw [hget] at h
    cases h
  | some found =>
    simp only [hget] at h
    split_ifs at h with hs hexp hn hl
    cases h
    refine ⟨rfl, fun hm => ?_, fun maxUses hmax => ?_⟩
    · have hc : ¬ 0 < token.useCount := fun hlt => hn ⟨hm, hlt⟩
      exact UInt32.le_zero_iff.1 (UInt32.not_lt.1 hc)
    · exact UInt32.not_le.1 fun hle => hl ⟨maxUses, hmax, hle⟩

def EnrollmentToken.Limited (token : EnrollmentToken) : Prop :=
  token.multiUse = false ∨ token.maxUses.isSome

theorem used_eq_some {left : EnrollmentToken} (h : token.Usable)
    (hused : token.used pf = some left) :
    left.multiUse = token.multiUse ∧ left.maxUses = token.maxUses ∧
      (left.Limited → left.useCount.toNat = token.useCount.toNat + 1) := by
  have hadd : ∀ maxUses ∈ token.maxUses,
      pf.addUnsigned 32 token.useCount.toNat 1 = .ok (token.useCount.toNat + 1) := by
    intro maxUses hmax
    have hlt : token.useCount.toNat < maxUses.toNat := UInt32.lt_iff_toNat_lt.1 (h.2 maxUses hmax)
    exact pf.addUnsigned_of_lt (Nat.lt_of_le_of_lt hlt maxUses.toNat_lt)
  have hs : token.multiUse = false →
      pf.addUnsigned 32 token.useCount.toNat 1 = .ok (token.useCount.toNat + 1) := by
    intro hm
    rw [h.1 hm]
    exact pf.addUnsigned_of_lt (by decide)
  unfold used afterUse at hused
  cases hsum : pf.addUnsigned 32 token.useCount.toNat 1 with
  | error fail =>
    simp only [hsum, Option.some.injEq] at hused
    subst hused
    refine ⟨rfl, rfl, fun hl => ?_⟩
    rcases hl with hm | hmax
    · exact absurd ((hs hm).symm.trans hsum) nofun
    · obtain ⟨maxUses, hmax⟩ := Option.isSome_iff_exists.1 hmax
      exact absurd ((hadd maxUses hmax).symm.trans hsum) nofun
  | ok useCount =>
    simp only [hsum] at hused
    split_ifs at hused with hm
    cases hused
    refine ⟨rfl, rfl, fun hl => ?_⟩
    rcases hl with hnot | hmax
    · exact absurd (hnot.symm.trans hm) nofun
    obtain ⟨maxUses, hmax⟩ := Option.isSome_iff_exists.1 hmax
    have hc := Except.ok.inj ((hadd maxUses hmax).symm.trans hsum)
    have hlt : token.useCount.toNat < maxUses.toNat := UInt32.lt_iff_toNat_lt.1 (h.2 maxUses hmax)
    subst hc
    exact UInt32.toNat_ofNat_of_lt' (Nat.lt_of_le_of_lt hlt maxUses.toNat_lt)

theorem nodesOf_of_new {hist : List (TokenEvent N)} {tk : String}
    (h : ∀ event ∈ hist, event.tokenId ≠ tk) : nodesOf hist tk = [] := by
  induction hist with
  | nil => rfl
  | cons event hist ih =>
    obtain ⟨hne, hrest⟩ := forall_mem_cons.1 h
    cases event with
    | registered id nid => exact (if_neg hne).trans (ih hrest)
    | generated | removed | revoked => exact ih hrest

structure Accounts (history : List (TokenEvent N)) (token : EnrollmentToken) : Prop where
  within : WithinUses history token
  counted : ∀ left, lastLeft pf history token.tokenId = some left →
    left.multiUse = token.multiUse ∧ left.maxUses = token.maxUses ∧
      (left.Limited → left.useCount.toNat = (nodesOf history token.tokenId).length)

structure HistorySound (history : List (TokenEvent N)) : Prop where
  accounts : ∀ token, .generated token ∈ history → Accounts pf history token
  removed : ∀ tokenId, .removed tokenId ∈ history → lastLeft pf history tokenId = none
  revoked : ∀ tokenId, .revoked tokenId ∈ history → .removed tokenId ∈ history
  noneAfter : NoneAfterRevoked history

variable {pf} {history : List (TokenEvent N)} {tokenId : String}

theorem historySound_nil : HistorySound pf ([] : List (TokenEvent N)) where
  accounts := nofun
  removed := nofun
  revoked := nofun
  noneAfter := trivial

theorem HistorySound.bounded (h : HistorySound pf history) : TokensBounded history :=
  ⟨fun token ht => (h.accounts token ht).within, h.noneAfter⟩

theorem Accounts.of_eq {history' : List (TokenEvent N)} (h : Accounts pf history token)
    (hlast : lastLeft pf history' token.tokenId = lastLeft pf history token.tokenId)
    (hn : nodesOf history' token.tokenId = nodesOf history token.tokenId) :
    Accounts pf history' token where
  within := by
    unfold WithinUses
    rw [hn]
    exact h.within
  counted := by
    rw [hlast, hn]
    exact h.counted

theorem HistorySound.generate (h : HistorySound pf history)
    (hnew : ∀ event ∈ history, event.tokenId ≠ token.tokenId) (hc : token.useCount = 0) :
    HistorySound pf (.generated token :: history) where
  accounts := by
    intro other ho
    rcases mem_cons.1 ho with heq | ho
    · cases heq
      have hn : nodesOf (.generated token :: history) token.tokenId = [] :=
        @nodesOf_of_new N history token.tokenId hnew
      refine ⟨?_, fun left hleft => ?_⟩
      · unfold WithinUses
        rw [hn]
        exact ⟨fun _ => Nat.zero_le _, fun _ _ => Nat.zero_le _⟩
      rw [lastLeft, if_pos rfl] at hleft
      cases hleft
      rw [hn, hc]
      exact ⟨rfl, rfl, fun _ => rfl⟩
    · have hne : token.tokenId ≠ other.tokenId := (hnew _ ho).symm
      exact (h.accounts other ho).of_eq (if_neg hne) rfl
  removed := by
    intro id hid
    have hmem : TokenEvent.removed id ∈ history := by simpa using hid
    exact (if_neg (hnew _ hmem).symm).trans (h.removed id hmem)
  revoked := by
    intro id hid
    exact mem_cons_of_mem _ (h.revoked id (by simpa using hid))
  noneAfter := h.noneAfter

theorem HistorySound.register (h : HistorySound pf history)
    (hlast : lastLeft pf history tokenId = some token) (hu : token.Usable) (nid : N) :
    HistorySound pf (.registered tokenId nid :: history) where
  accounts := by
    intro other ho
    have hmem : TokenEvent.generated other ∈ history := by simpa using ho
    have ha := h.accounts other hmem
    by_cases hid : tokenId = other.tokenId
    · subst hid
      obtain ⟨hm, hmax, hc⟩ := ha.counted token hlast
      have hn : (nodesOf (.registered other.tokenId nid :: history) other.tokenId).length =
          (nodesOf history other.tokenId).length + 1 := by
        rw [nodesOf, if_pos rfl, length_cons]
      refine ⟨⟨fun hs => ?_, fun maxUses hx => ?_⟩, fun left hleft => ?_⟩
      · have hs' : token.multiUse = false := hm.trans hs
        have hzero := hc (.inl hs')
        rw [hu.1 hs'] at hzero
        rw [hn, ← hzero]
        exact Nat.le_refl 1
      · have hx' : maxUses ∈ token.maxUses := hmax ▸ hx
        have hl : token.Limited := .inr (Option.isSome_iff_exists.2 ⟨maxUses, hx'⟩)
        rw [hn, ← hc hl]
        exact UInt32.lt_iff_toNat_lt.1 (hu.2 maxUses hx')
      rw [lastLeft, if_pos rfl, hlast, Option.bind_some] at hleft
      obtain ⟨hm', hmax', hc'⟩ := used_eq_some pf hu hleft
      refine ⟨hm'.trans hm, hmax'.trans hmax, fun hl => ?_⟩
      have hl' : token.Limited := by
        unfold EnrollmentToken.Limited at hl ⊢
        rwa [hm', hmax'] at hl
      rw [hn, hc' hl, hc hl']
    · exact ha.of_eq (if_neg hid) (if_neg hid)
  removed := by
    intro id hid
    have hnone := h.removed id (by simpa using hid)
    rw [lastLeft, hnone]
    exact ite_self _
  revoked := by
    intro id hid
    exact mem_cons_of_mem _ (h.revoked id (by simpa using hid))
  noneAfter := by
    refine ⟨fun hr => ?_, h.noneAfter⟩
    exact absurd (hlast.symm.trans (h.removed tokenId (h.revoked tokenId hr))) nofun

theorem HistorySound.remove (h : HistorySound pf history) (tk : String) :
    HistorySound pf (.removed tk :: history) where
  accounts := by
    intro token ht
    have ha := h.accounts token (by simpa using ht)
    by_cases hid : tk = token.tokenId
    · refine ⟨ha.within, fun left hleft => ?_⟩
      rw [lastLeft, if_pos hid] at hleft
      cases hleft
    · exact ha.of_eq (if_neg hid) rfl
  removed := by
    intro id hid
    by_cases heq : tk = id
    · exact if_pos heq
    · refine (if_neg heq).trans (h.removed id ?_)
      simpa [Ne.symm heq] using hid
  revoked := by
    intro id hid
    exact mem_cons_of_mem _ (h.revoked id (by simpa using hid))
  noneAfter := h.noneAfter

theorem HistorySound.revoke (h : HistorySound pf history)
    (hrem : .removed tokenId ∈ history) : HistorySound pf (.revoked tokenId :: history) where
  accounts := by
    intro token ht
    exact (h.accounts token (by simpa using ht)).of_eq rfl rfl
  removed := by
    intro id hid
    exact h.removed id (by simpa using hid)
  revoked := by
    intro id hid
    rcases mem_cons.1 hid with heq | hid
    · cases heq
      exact mem_cons_of_mem _ hrem
    · exact mem_cons_of_mem _ (h.revoked id hid)
  noneAfter := h.noneAfter

end Histories

end Blixard
