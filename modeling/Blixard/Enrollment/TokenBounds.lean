/-
  Uses of enrolment tokens, over all interleavings and restarts.

  No token registers more nodes than it may, and none after it was revoked, if `load_state` only
  stores tokens that are as they were last left (`TokenSystem.tokens_bounded_along`).
-/
import Blixard.Enrollment.Tokens

namespace Blixard

open Calls List TokenCall TokenStore

/-! ## What the calls keep -/

namespace TokenCall

variable {N : Type}

def isRegistering : TokenCall N → Bool
  | validated .. | userSet .. | rolesSet .. => true
  | _ => false

def NotBoth (call call' : TokenCall N) : Prop := ¬ (call.isRegistering ∧ call'.isRegistering)

def hasRegistered (tokenId : String) : TokenCall N → Prop
  | userSet _ id _ | rolesSet _ id _ => id = tokenId
  | _ => False

def Relies [Ord N] [Std.TransOrd N] (pf : Platform) (s : TokenStore N) : TokenCall N → Prop
  | validated _ tokenId token =>
    s.tokens[tokenId]? = some token ∧ lastLeft pf s.history tokenId = some token ∧ token.Usable
  | userSet _ tokenId token | rolesSet _ tokenId token =>
    s.tokens[tokenId]? = some token ∧ lastLeft pf s.history tokenId = token.used pf
  | saving (.revoked tokenId) | writing (.revoked tokenId) => .removed tokenId ∈ s.history
  | _ => True

end TokenCall

namespace TokenSystem

variable {N : Type} [Ord N] [Std.TransOrd N] {pf : Platform} {debugNode : N → String}
  {s : TokenSystem N} {i : ℕ}

/-- Tokens in memory are as they were last left, but for one whose use is not yet counted. -/
structure Sound (pf : Platform) (s : TokenSystem N) : Prop where
  locked : ∀ i, (s.calls i).isRegistering → s.shared.writer = true
  alone : ∀ i j, i ≠ j → (s.calls i).NotBoth (s.calls j)
  relies : ∀ i, (s.calls i).Relies pf s.shared
  memory : ∀ tokenId token, s.shared.tokens[tokenId]? = some token →
    lastLeft pf s.shared.history tokenId = some token ∨ ∃ i, (s.calls i).hasRegistered tokenId
  history : HistorySound pf s.shared.history

def stored (s : TokenSystem N) : TokenMove N → Option (Table String EnrollmentToken)
  | .call i .store =>
    match s.calls i with
    | .read tokens => if s.shared.Free then some tokens else none
    | _ => none
  | _ => none

/-- `load_state` stores only tokens that are as they were last left. -/
def Fresh (pf : Platform) (s : TokenSystem N) (move : TokenMove N) : Prop :=
  ∀ tokens ∈ s.stored move, ∀ x ∈ tokens.toList, lastLeft pf s.shared.history x.1 = some x.2

instance (s : TokenSystem N) (move : TokenMove N) : Decidable (Fresh pf s move) :=
  inferInstanceAs (Decidable (∀ tokens ∈ s.stored move, _))

theorem not_registering_of_free (h : Sound pf s) (hfree : s.shared.Free) (j : ℕ) :
    (s.calls j).isRegistering = false := by
  by_contra hj
  have hw := h.locked j (by simpa using hj)
  exact absurd (hw.symm.trans hfree.1) nofun

variable {token : EnrollmentToken} {tk : String} {c call : TokenCall N} {t : TokenStore N}

theorem relies_of_not_registering (hcall : call.isRegistering = false)
    {store store' : TokenStore N} (h : call.Relies pf store)
    (hsub : store.history ⊆ store'.history) : call.Relies pf store' := by
  cases call with
  | saving ans | writing ans =>
    cases ans with
    | revoked tk => exact hsub h
    | generated | enrolled | loaded => trivial
  | validated | userSet | rolesSet => cases hcall
  | notBegun | found | read | finished => trivial

omit [Ord N] [Std.TransOrd N] in
theorem not_hasRegistered (hcall : call.isRegistering = false)
    (tk : String) : ¬ call.hasRegistered tk := by
  cases call with
  | validated | userSet | rolesSet => cases hcall
  | notBegun | saving | writing | found | read | finished => exact id

theorem Sound.after (h : Sound pf s) (hl : c.isRegistering → t.writer = true)
    (ho : ∀ j, j ≠ i → (s.calls j).isRegistering →
      t.writer = true ∧ c.isRegistering = false)
    (hrel : c.Relies pf t) (hk : ∀ j, j ≠ i → (s.calls j).Relies pf t)
    (hmem : ∀ tk token, t.tokens[tk]? = some token →
      lastLeft pf t.history tk = some token ∨ c.hasRegistered tk ∨
        ∃ j, j ≠ i ∧ (s.calls j).hasRegistered tk)
    (hi : HistorySound pf t.history) : Sound pf (s.put i (t, c)) where
  locked := forall_calls_put (P := fun _ (c : TokenCall N) => c.isRegistering → _)
    hl fun j hj hreg => (ho j hj hreg).1
  alone j k hjk := by
    refine pairwise_calls_put (R := TokenCall.NotBoth)
      (fun _ _ hnot hboth => hnot hboth.symm) (fun j hj hboth => ?_) h.alone hjk
    exact absurd (hboth.1.symm.trans (ho j hj hboth.2).2) nofun
  relies := forall_calls_put (P := fun _ => TokenCall.Relies pf t) hrel hk
  memory tk token hget := by
    rcases hmem tk token hget with hlast | hreg | ⟨j, hj, hreg⟩
    · exact .inl hlast
    · exact .inr ⟨i, put_calls_self.symm ▸ hreg⟩
    · exact .inr ⟨j, (put_calls_of_ne hj).symm ▸ hreg⟩
  history := hi

theorem Sound.exclusive (h : Sound pf s) (hidle : ∀ j, j ≠ i → (s.calls j).isRegistering = false)
    (hl : c.isRegistering → t.writer = true) (hrel : c.Relies pf t)
    (hsub : s.shared.history ⊆ t.history) (hmem : ∀ tk token, t.tokens[tk]? = some token →
      lastLeft pf t.history tk = some token ∨ c.hasRegistered tk)
    (hi : HistorySound pf t.history) : Sound pf (s.put i (t, c)) := by
  refine h.after hl (fun j hj hreg => ?_) hrel (fun j hj => ?_)
    (fun tk token hget => ?_) hi
  · exact absurd (hreg.symm.trans (hidle j hj)) nofun
  · exact relies_of_not_registering (hidle j hj) (h.relies j) hsub
  · rcases hmem tk token hget with hlast | hreg
    · exact .inl hlast
    · exact .inr (.inl hreg)

theorem Sound.aside (h : Sound pf s)
    (hpre : (s.calls i).isRegistering = false) (ha : c.isRegistering = false)
    (ht : t.tokens = s.shared.tokens) (hw : t.writer = s.shared.writer)
    (hsub : s.shared.history ⊆ t.history)
    (hlast : lastLeft pf t.history = lastLeft pf s.shared.history)
    (hr : c.Relies pf t) (hi : HistorySound pf t.history) : Sound pf (s.put i (t, c)) := by
  refine h.after (fun hreg => ?_) (fun j _ hreg => ⟨hw.trans (h.locked j hreg), ha⟩)
    hr (fun j _ => ?_) (fun tk token hget => ?_) hi
  · rw [ha] at hreg
    cases hreg
  · have hrel := h.relies j
    cases hcall : s.calls j with
    | validated | userSet | rolesSet =>
      rw [hcall] at hrel
      simpa only [TokenCall.Relies, ht, hlast] using hrel
    | notBegun | saving | writing | found | read | finished =>
      rw [hcall] at hrel
      exact relies_of_not_registering rfl hrel hsub
  · rw [ht] at hget
    rw [hlast]
    rcases h.memory tk token hget with hleft | ⟨j, hj⟩
    · exact .inl hleft
    have hji : j ≠ i := by
      rintro rfl
      exact not_hasRegistered hpre tk hj
    exact .inr (.inr ⟨j, hji, hj⟩)

theorem Sound.rests (h : Sound pf s)
    (hpre : (s.calls i).isRegistering = false) (ha : c.isRegistering = false)
    (hrel : c.Relies pf s.shared) : Sound pf (s.put i (s.shared, c)) :=
  h.aside hpre ha rfl rfl (List.Subset.refl _) rfl hrel h.history

theorem memory_of_free (h : Sound pf s) (hfree : s.shared.Free)
    (hget : s.shared.tokens[tk]? = some token) : lastLeft pf s.shared.history tk = some token := by
  rcases h.memory tk token hget with hlast | ⟨j, hj⟩
  · exact hlast
  · exact absurd hj (not_hasRegistered (not_registering_of_free h hfree j) tk)

theorem Sound.changes (h : Sound pf s) (hfree : s.shared.Free)
    (ha : c.isRegistering = false) (hrel : c.Relies pf t) (hsub : s.shared.history ⊆ t.history)
    (hmem : ∀ tk token, t.tokens[tk]? = some token →
      lastLeft pf t.history tk = some token)
    (hi : HistorySound pf t.history) : Sound pf (s.put i (t, c)) :=
  h.exclusive (fun j _ => not_registering_of_free h hfree j)
    (fun hreg => absurd (hreg.symm.trans ha) nofun) hrel hsub
    (fun tk token hget => .inl (hmem tk token hget)) hi

theorem others_idle (h : Sound pf s) (hi : (s.calls i).isRegistering = true) (j : ℕ) (hj : j ≠ i) :
    (s.calls j).isRegistering = false := by
  by_contra hreg
  exact h.alone j i hj ⟨by simpa using hreg, hi⟩

theorem memory_of_alone (h : Sound pf s) (hi : (s.calls i).isRegistering = true)
    (hget : s.shared.tokens[tk]? = some token) (hnot : ¬ (s.calls i).hasRegistered tk) :
    lastLeft pf s.shared.history tk = some token := by
  rcases h.memory tk token hget with hlast | ⟨j, hj⟩
  · exact hlast
  have hji : j = i := by
    by_contra hji
    exact not_hasRegistered (others_idle h hi j hji) tk hj
  exact absurd (hji ▸ hj) hnot

section Register
variable {nodeId : N} {tokenId : String} {token : EnrollmentToken}

theorem sound_registerUser (h : Sound pf s) (hi : s.calls i = .validated nodeId tokenId token) :
    Sound pf (s.put i ({ s.shared with
      registry := s.shared.registry.setUser nodeId token.userId }.log (.registered tokenId nodeId),
        .userSet nodeId tokenId token)) := by
  have hreg : (s.calls i).isRegistering = true := by rw [hi]; rfl
  obtain ⟨hget, hlast, hu⟩ : (validated nodeId tokenId token).Relies pf s.shared :=
    hi ▸ h.relies i
  have hused : lastLeft pf (.registered tokenId nodeId :: s.shared.history) tokenId =
      token.used pf := by
    rw [lastLeft, if_pos rfl, hlast, Option.bind_some]
  refine h.exclusive (others_idle h hreg) (fun _ => h.locked i hreg) ⟨hget, hused⟩
    (subset_cons_self _ _)
    (fun id found hf => ?_) (h.history.register hlast hu nodeId)
  by_cases hid : tokenId = id
  · exact .inr hid
  · exact .inl ((if_neg hid).trans (memory_of_alone h hreg hf (by rw [hi]; exact fun h => h)))

theorem sound_finishEnroll (h : Sound pf s) (hi : s.calls i = .rolesSet nodeId tokenId token) :
    Sound pf (s.put i (s.shared.finishEnroll pf debugNode nodeId tokenId token)) := by
  have hreg : (s.calls i).isRegistering = true := by rw [hi]; rfl
  obtain ⟨hget, hlast⟩ : (rolesSet nodeId tokenId token).Relies pf s.shared :=
    hi ▸ h.relies i
  have ho {id : String} {found : EnrollmentToken} (hid : tokenId ≠ id)
      (hf : s.shared.tokens[id]? = some found) :
      lastLeft pf s.shared.history id = some found :=
    memory_of_alone h hreg hf (by rw [hi]; exact hid)
  unfold finishEnroll
  unfold EnrollmentToken.used at hlast
  cases ha : token.afterUse pf with
  | error fail =>
    simp only [ha] at hlast
    refine h.exclusive (others_idle h hreg) (fun hnext => (Bool.false_ne_true hnext).elim) trivial
      (List.Subset.refl _) (fun id found hf => .inl ?_) h.history
    by_cases hid : tokenId = id
    · subst hid
      exact hlast.trans (hget.symm.trans hf)
    · exact ho hid hf
  | ok used =>
    simp only [ha] at hlast
    refine h.exclusive (others_idle h hreg) (fun hnext => (Bool.false_ne_true hnext).elim) trivial
      (List.Subset.refl _) (fun id found hf => .inl ?_) h.history
    rw [show _ = _ from get_setToken ..] at hf
    by_cases hid : tokenId = id
    · subst hid
      exact hlast.trans ((if_pos rfl).symm.trans hf)
    · exact ho hid ((if_neg hid).symm.trans hf)

end Register

theorem Sound.answers (h : Sound pf s) {ans : TokenAnswer}
    (hi : s.calls i = .saving ans ∨ s.calls i = .writing ans)
    (ht : t.tokens = s.shared.tokens) (hw : t.writer = s.shared.writer)
    (hs : t.history = s.shared.history) :
    Sound pf (s.put i (t.answered ans, .finished (.ok ans))) := by
  have hidle : (s.calls i).isRegistering = false := by
    rcases hi with hi | hi <;> rw [hi] <;> rfl
  cases ans with
  | revoked tk =>
    have hrem : .removed tk ∈ s.shared.history := by
      have hrel := h.relies i
      rcases hi with hi | hi <;> rw [hi] at hrel <;> exact hrel
    have hlog : (t.answered (.revoked tk)).history = .revoked tk :: s.shared.history :=
      congrArg (_ :: ·) hs
    refine h.aside hidle rfl ht hw ?_ ?_ trivial ?_
    · rw [hlog]
      exact subset_cons_self _ _
    · rw [hlog]
      rfl
    · rw [hlog]
      exact h.history.revoke hrem
  | generated | enrolled | loaded =>
    refine h.aside hidle rfl ht hw ?_ ?_ trivial ?_
    · exact fun _ hmem => hs.symm ▸ hmem
    · exact congrArg (lastLeft pf) hs
    · exact hs.symm ▸ h.history

theorem sound_call (h : Sound pf s) {step : TokenStep N} (hf : Fresh pf s (.call i step)) :
    Sound pf (s.step (act pf debugNode) (i, step)) := by
  rw [step_eq_put]
  have hrel := h.relies i
  have hself : Sound pf (s.put i (s.shared, s.calls i)) := by rwa [put_self]
  generalize hi : s.calls i = call at hrel hself
  -- the cases are those of `act`, in its order
  fun_cases act pf debugNode s.shared call step with
  | case2 req now uuid secret time hexp token hnew =>
    refine h.changes hnew.1 rfl trivial (subset_cons_self _ _) (fun tk found hget => ?_)
      (h.history.generate hnew.2 rfl)
    rcases Table.get_insert_eq_some.1 hget with ⟨hid, rfl⟩ | ⟨hid, hget⟩
    · exact if_pos hid
    · exact (if_neg hid).trans (memory_of_free h hnew.1 hget)
  | case5 nid tk sec now hfree token hval =>
    obtain ⟨hget, hu⟩ := validateToken_eq_ok hval
    exact h.exclusive (fun j _ => not_registering_of_free h hfree j) (fun _ => rfl)
      ⟨hget, memory_of_free h hfree hget, hu⟩ (List.Subset.refl _)
      (fun _ _ hn => .inl (memory_of_free h hfree hn)) h.history
  | case7 => exact sound_registerUser h hi
  | case8 nid tk token =>
    have hreg : (s.calls i).isRegistering = true := by rw [hi]; rfl
    refine h.exclusive (others_idle h hreg) (fun _ => h.locked i hreg) hrel
      (List.Subset.refl _) (fun id found hn => ?_) h.history
    by_cases hid : tk = id
    · exact .inr hid
    · exact .inl (memory_of_alone h hreg hn (by rw [hi]; exact hid))
  | case9 => exact sound_finishEnroll h hi
  | case10 tk hfree =>
    refine h.changes hfree rfl mem_cons_self (subset_cons_self _ _)
      (fun id token hget => ?_) (h.history.remove tk)
    have hget' : (s.shared.tokens.erase tk)[id]? = some token := hget
    rw [Table.get_erase] at hget'
    split_ifs at hget' with hid
    exact (if_neg hid).trans (memory_of_free h hfree hget')
  | case12 => exact h.answers (.inl hi) rfl rfl rfl
  | case14 ans =>
    have hw : (writing ans).Relies pf s.shared := by cases ans <;> exact hrel
    exact h.aside (by rw [hi]; rfl) rfl rfl rfl (List.Subset.refl _) rfl
      (relies_of_not_registering rfl hw (List.Subset.refl _)) h.history
  | case15 =>
    exact h.aside (by rw [hi]; rfl) rfl rfl rfl (List.Subset.refl _) rfl
      (relies_of_not_registering rfl hrel (List.Subset.refl _)) h.history
  | case16 => exact h.answers (.inr hi) rfl rfl rfl
  | case17 =>
    exact h.aside (by rw [hi]; rfl) rfl rfl rfl (List.Subset.refl _) rfl trivial h.history
  | case24 tks hfree =>
    refine h.changes hfree rfl trivial (List.Subset.refl _) (fun tk token hget => ?_) h.history
    have hs : tks ∈ s.stored (.call i .store) := by
      simp only [stored, hi, if_pos hfree, Option.mem_some]
    exact hf tks hs (tk, token)
      (Std.ExtTreeMap.mem_toList_iff_getElem?_eq_some.2 hget)
  | case1 | case4 | case18 | case19 | case20 | case21 | case23 =>
    exact h.rests (by rw [hi]; rfl) rfl trivial
  | case3 | case6 | case11 | case13 | case22 | case25 | case26 => exact hself

theorem sound_begin (ht : t.tokens = ∅)
    (hi : HistorySound pf t.history) : Sound pf (Calls.System.start t .notBegun) where
  locked := nofun
  alone := fun _ _ _ hboth => nomatch hboth.1
  relies := fun _ => trivial
  memory := by
    intro tk token hget
    simp [Calls.System.start, ht] at hget
  history := hi

theorem sound_move (s : TokenSystem N) (x : TokenMove N) (h : Sound pf s) (hf : Fresh pf s x) :
    Sound pf (s.move pf debugNode x) := by
  cases x with
  | call i step => exact sound_call h hf
  | restart => exact sound_begin rfl h.history

/-- If `load_state` stores only tokens that are as they were last left, no token registers more
    nodes than it may, and none after it was revoked, over any calls and restarts. -/
theorem tokens_bounded_along (pf : Platform) (debugNode : N → String) (hasStatePath : Bool)
    (file : Option (Except BlixardError (Table String EnrollmentToken)))
    (moves : List (TokenMove N))
    (hfresh : Run.Along (move pf debugNode) (Fresh pf) (begin hasStatePath file) moves) :
    ∀ s ∈ moves.scanl (move pf debugNode) (begin hasStatePath file),
      TokensBounded s.shared.history := by
  intro s hs
  have hsound := Run.invariant sound_move (sound_begin rfl historySound_nil) hfresh s hs
  exact hsound.history.bounded

/-! ## Runs with a restart -/

def aliceRequest (multiUse : Bool) (maxUses : Option UInt32) : TokenRequest :=
  ⟨"alice", ["viewer"], "acme", 100, multiUse, maxUses⟩

def generating (i : ℕ) (request : TokenRequest) : List (TokenMove ℕ) :=
  [.call i (.generate request 0 "a" "secret"), .call i .save, .call i .save]

def registering (i nodeId : ℕ) : List (TokenMove ℕ) :=
  [.call i (.enroll nodeId "enroll_a" "secret" 1), .call i .register, .call i .register,
    .call i .register]

def saving (i : ℕ) : List (TokenMove ℕ) := [.call i .save, .call i .save]

def restarting (i : ℕ) : List (TokenMove ℕ) :=
  [.restart, .call i (.load true), .call i .readFile, .call i .store]

/-- A token for two uses is used once, the process restarts, and it is used two more times. -/
def twoUses : List (TokenMove ℕ) :=
  generating 0 (aliceRequest true (some 2)) ++ registering 1 1 ++ saving 1 ++ restarting 2 ++
    registering 3 2 ++ saving 3 ++ registering 4 3

def noFile : TokenSystem ℕ := begin true none

theorem tokens_bounded_twoUses :
    Run.Along (move .release toString) (Fresh .release) noFile twoUses ∧
      (∀ s ∈ twoUses.scanl (move .release toString) noFile, TokensBounded s.shared.history) ∧
      nodesOf (twoUses.foldl (move .release toString) noFile).shared.history "enroll_a" =
        [2, 1] := by
  have halong : Run.Along (move .release toString) (Fresh .release) noFile twoUses := by
    decide +kernel
  exact ⟨halong, tokens_bounded_along .release toString true none twoUses halong, by decide +kernel⟩

/-- A token for one use is used, and the process ends before the tokens are saved. -/
def crash : List (TokenMove ℕ) :=
  generating 0 (aliceRequest false none) ++ registering 1 1 ++ restarting 2 ++ registering 3 2

/-- `load_state` reads the file, a token is revoked, and then `load_state` stores what it
    read. -/
def overlap : List (TokenMove ℕ) :=
  generating 0 (aliceRequest true none) ++ [.call 1 (.load true), .call 1 .readFile] ++
    [.call 2 (.revoke "enroll_a")] ++ saving 2 ++ [.call 1 .store] ++ registering 3 1

/-- After the crash the token registers a second node; after the revocation it registers
    one. -/
theorem registered_beyond_bounds :
    let history := (crash.foldl (move .release toString) noFile).shared.history
    let history' := (overlap.foldl (move .release toString) noFile).shared.history
    (nodesOf history "enroll_a" = [2, 1] ∧ ¬ TokensBounded history) ∧
      ¬ NoneAfterRevoked history' ∧ ¬ TokensBounded history' := by
  intro history history'
  have hnodes : nodesOf history "enroll_a" = [2, 1] := by decide +kernel
  have hgenerated : .generated (newToken (aliceRequest false none) 100 "a" "secret") ∈ history := by
    decide +kernel
  have hrevoked : ¬ NoneAfterRevoked history' := by decide +kernel
  refine ⟨⟨hnodes, fun hbounded => ?_⟩, hrevoked, fun hbounded => hrevoked hbounded.2⟩
  have hone : (nodesOf history "enroll_a").length ≤ 1 := (hbounded.1 _ hgenerated).1 rfl
  rw [hnodes] at hone
  exact absurd hone (by decide)

end TokenSystem

end Blixard
