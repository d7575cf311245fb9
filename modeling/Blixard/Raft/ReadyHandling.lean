/-
  The two handlers of a `Ready` value compared: `on_ready`, and the block of
  `handle_raft_message` that runs right after a message (`raft/core.rs`).

  What a handler does is the list of its actions, and performing the list is the handler
  (`consumeInline_eq`, `onReady_eq`, `same_effect_iff`).
-/
import Blixard.Raft.Core

namespace Blixard

open List Run

/-! ## Messages and actions -/

structure Message where
  sender : ℕ
  receiver : ℕ
  body : Bytes

/-- Where a message comes from: those of a `Ready` go out at once or after it is stored,
    and `advance` returns more. -/
inductive MessageKind where
  | immediate | persisted | light

structure ReadyMessages where
  messages : List Message
  persisted : List Message
  light : List Message

def fixSender (nodeId : ℕ) (m : Message) : Message :=
  if m.sender = 0 then { m with sender := nodeId } else m

def sendRaftMessage (nodeId : ℕ) (m : Message) : Message := fixSender nodeId m

theorem sendRaftMessage_fixSender (nid : ℕ) (m : Message) :
    sendRaftMessage nid (fixSender nid m) = sendRaftMessage nid m := by
  unfold sendRaftMessage fixSender
  by_cases h : m.sender = 0
  · simp only [h, if_true]
    split <;> rfl
  · simp only [h, if_false]

inductive ReadyAction where
  | applySnapshot (snapshot : Snapshot)
  | append (entries : List Entry)
  | saveHardState (hs : HardState)
  | send (kind : MessageKind) (message : Message)
  | apply (entry : Entry)

def ReadyAction.Stores : ReadyAction → Prop
  | append _ | saveHardState _ => True
  | _ => False

/-- What actions have done: the snapshots and entries and hard states they stored, the
    messages they sent, and the committed entries they applied. -/
structure Effects where
  snapshots : List Snapshot := []
  entries : List Entry := []
  hardStates : List HardState := []
  sent : List (MessageKind × Message) := []
  applied : List Entry := []

namespace Effects

instance : Append Effects where
  append a b := ⟨a.snapshots ++ b.snapshots, a.entries ++ b.entries,
    a.hardStates ++ b.hardStates, a.sent ++ b.sent, a.applied ++ b.applied⟩

theorem append_def (a b : Effects) :
    a ++ b = ⟨a.snapshots ++ b.snapshots, a.entries ++ b.entries,
      a.hardStates ++ b.hardStates, a.sent ++ b.sent, a.applied ++ b.applied⟩ := rfl

theorem append_assoc (a b c : Effects) : a ++ b ++ c = a ++ (b ++ c) := by
  simp only [append_def, List.append_assoc]

def ofAction : ReadyAction → Effects
  | .applySnapshot s => { snapshots := [s] }
  | .append es => { entries := es }
  | .saveHardState hs => { hardStates := [hs] }
  | .send kind m => { sent := [(kind, m)] }
  | .apply e => { applied := [e] }

def ofActions : List ReadyAction → Effects
  | [] => {}
  | a :: as => ofAction a ++ ofActions as

theorem ofActions_append (as bs : List ReadyAction) :
    ofActions (as ++ bs) = ofActions as ++ ofActions bs := by
  induction as with
  | nil => rfl
  | cons a as ih => rw [cons_append, ofActions, ofActions, ih, append_assoc]

def hardState (e : Effects) : Option HardState := e.hardStates.getLast?

end Effects

/-- Persisted messages go out only after the entries and the hard state are stored. -/
def PersistedAfterStores (as : List ReadyAction) : Prop :=
  as.Pairwise fun a b => (∃ m, a = .send .persisted m) → ¬ b.Stores

structure SameEffect (as bs : List ReadyAction) : Prop where
  snapshots : (Effects.ofActions as).snapshots = (Effects.ofActions bs).snapshots
  entries : (Effects.ofActions as).entries = (Effects.ofActions bs).entries
  hardState : (Effects.ofActions as).hardState = (Effects.ofActions bs).hardState
  sent : (Effects.ofActions as).sent.Perm (Effects.ofActions bs).sent
  order : PersistedAfterStores as ∧ PersistedAfterStores bs
  applied : (Effects.ofActions as).applied = (Effects.ofActions bs).applied

namespace RaftManager

variable {R : Type} (d : Deployment) (lib : Libraries R) (envs : ℕ → ℕ → Env)

/-! ## The actions of the handlers -/

def storeActions (r : Round R) : List ReadyAction :=
  (if r.entries = [] then [] else [.append r.entries]) ++ r.hardState.toList.map .saveHardState

def sendActions (nodeId : ℕ) (kind : MessageKind) (ms : List Message) : List ReadyAction :=
  ms.map fun m => .send kind (sendRaftMessage nodeId m)

def known (es : List Entry) : List Entry := es.filter fun e => e.kind ≠ .entryConfChangeV2

def confChanges (es : List Entry) : List Entry := es.filter fun e => e.kind = .entryConfChange

/-- The inline block of `handle_raft_message`, which fixes the sender of its messages
    once more. -/
def inlineActions (nodeId : ℕ) (r : Round R) (ms : ReadyMessages) : List ReadyAction :=
  storeActions r ++
  sendActions nodeId .immediate (ms.messages.map (fixSender nodeId)) ++
  sendActions nodeId .persisted (ms.persisted.map (fixSender nodeId)) ++
  (confChanges r.committedEntries).map .apply

def newlyCommitted (db : Database) (r : Round R) : List Entry :=
  let lastAppliedIndex := lastApplied r.committedEntries
  let currentApplied := if 0 < lastAppliedIndex then lastAppliedIndex else r.applied
  if r.commitIndex.isSome ∧ currentApplied < r.committed then
    match db.entries (currentApplied + 1) (r.committed + 1) none with
    | .error _ => []
    | .ok entries => entries
  else []

def onReadyActions (n : RaftManager R) (r : Round R) (ms : ReadyMessages) : List ReadyAction :=
  r.snapshot.toList.map .applySnapshot ++
  storeActions r ++
  sendActions n.nodeId .immediate ms.messages ++
  (known r.committedEntries).map .apply ++
  sendActions n.nodeId .light ms.light ++
  r.commitIndex.toList.map (fun commit => .saveHardState { r.hardStateAfter with commit }) ++
  (known (newlyCommitted (saveReady lib n.machine.database r).1 r)).map .apply

def perform (r : Round R) (n : RaftManager R) : ReadyAction → RaftManager R × Except Failure Unit
  | .applySnapshot s =>
    match processSnapshot lib n.machine.database { r with snapshot := some s } with
    | (db, result) => (n.withDatabase db, result.mapError .error)
  | .append entries => (n.withDatabase (n.machine.database.append entries), .ok ())
  | .saveHardState hs => (n.withDatabase (n.machine.database.saveHardState hs), .ok ())
  | .send _ _ => (n, .ok ())
  | .apply entry => n.processEntry d lib envs entry

variable {d lib envs} {n : RaftManager R} {r : Round R}

/-! ## Performing the actions is the handler -/

theorem attempt_storeActions : attempt (perform d lib envs r) n (storeActions r) =
      (n.withDatabase (saveEntries n.machine.database r), .ok ()) := by
  unfold storeActions saveEntries
  by_cases hes : r.entries = []
  · cases hhs : r.hardState with
    | none | some => simp only [hes, if_true]; rfl
  · cases hhs : r.hardState with
    | none | some => simp only [hes, if_false]; rfl

variable (es : List Entry) (nid : ℕ)

theorem attempt_sendActions (kind : MessageKind) (ms : List Message) :
    attempt (perform d lib envs r) n (sendActions nid kind ms) = (n, .ok ()) := by
  unfold sendActions
  induction ms with
  | nil => rfl
  | cons m ms ih => exact ih

theorem attempt_known : attempt (perform d lib envs r) n ((known es).map .apply) =
      attempt (processEntry d lib envs) n es := by
  have hsame : ∀ (n : RaftManager R), ∀ e ∈ known es,
      perform d lib envs r n (.apply e) = n.processEntry d lib envs e := fun _ _ _ => rfl
  rw [attempt_map _ (known es) hsame, known, attempt_filter]
  intro n e hkind
  simp only [ne_eq, decide_not, Bool.not_eq_false', decide_eq_true_eq] at hkind
  simp only [processEntry, hkind]

theorem attempt_confChanges : attempt (perform d lib envs r) n ((confChanges es).map .apply) =
      attempt (processInline lib) n es := by
  have hsame : ∀ (n : RaftManager R), ∀ e ∈ confChanges es,
      perform d lib envs r n (.apply e) = n.processInline lib e := by
    intro n e he
    have hkind : e.kind = .entryConfChange := by simpa using (mem_filter.1 he).2
    simp only [perform, processEntry, processInline, hkind]
  rw [attempt_map _ (confChanges es) hsame, confChanges, attempt_filter]
  intro n e hkind
  simp only [decide_eq_false_iff_not] at hkind
  unfold processInline
  split
  · contradiction
  · rfl

/-- **The inline block performs its actions.** -/
theorem consumeInline_eq (n : RaftManager R) (r : Round R) (ms : ReadyMessages) :
    n.consumeInline lib r = attempt (perform d lib envs r) { n with raft := r.raft }
        (inlineActions n.nodeId r ms) := by
  simp only [inlineActions, attempt_append, attempt_storeActions, attempt_sendActions,
    attempt_confChanges]
  rfl

theorem attempt_snapshot (hsave : (saveReady lib n.machine.database r).2 = .ok ()) :
    attempt (perform d lib envs r) n (r.snapshot.toList.map .applySnapshot ++ storeActions r) =
      (n.withDatabase (saveReady lib n.machine.database r).1, .ok ()) := by
  unfold saveReady at hsave ⊢
  have hp : attempt (perform d lib envs r) n (r.snapshot.toList.map .applySnapshot) =
      (n.withDatabase (processSnapshot lib n.machine.database r).1,
        (processSnapshot lib n.machine.database r).2.mapError .error) := by
    cases hs : r.snapshot with
    | none => simp only [processSnapshot, hs]; rfl
    | some s =>
      have hr : { r with snapshot := some s } = r := by rw [← hs]
      simp only [Option.toList_some, map_cons, map_nil, attempt, perform, hr]
      rcases processSnapshot lib n.machine.database r with ⟨db, e | ⟨⟩⟩ <;> rfl
  rw [attempt_append, hp]
  rcases hsnap : processSnapshot lib n.machine.database r with ⟨db, e | ⟨⟩⟩ <;> rw [hsnap] at hsave
  · cases hsave
  · exact attempt_storeActions

theorem entries_congr {db db' : Database} (h : db.raftLog = db'.raftLog) (low high : ℕ) :
    db.entries low high none = db'.entries low high none := by
  unfold Database.entries
  rw [h]

def saveCommit (n : RaftManager R) (r : Round R) : RaftManager R :=
  match r.commitIndex with
  | none => n
  | some commit =>
    n.withDatabase (n.machine.database.saveHardState { r.hardStateAfter with commit })

theorem attempt_commit : attempt (perform d lib envs r) n (r.commitIndex.toList.map fun commit =>
          .saveHardState { r.hardStateAfter with commit }) = (n.saveCommit r, .ok ()) := by
  unfold saveCommit
  cases r.commitIndex <;> rfl

theorem handleNewlyCommittedEntries_eq {db : Database}
    (hlog : n.machine.database.raftLog = db.raftLog) :
    ∃ applied, n.handleNewlyCommittedEntries d lib envs r (lastApplied r.committedEntries) =
      match attempt (processEntry d lib envs) (n.saveCommit r) (newlyCommitted db r) with
      | (n, .error failure) => (n, .error failure)
      | (n, .ok ()) => (n, .ok applied) := by
  cases hc : r.commitIndex with
  | none =>
    simp only [handleNewlyCommittedEntries, newlyCommitted, saveCommit, hc,
      Option.isSome_none, Bool.false_eq_true, false_and, if_false]
    exact ⟨r.applied, rfl⟩
  | some commit =>
    obtain ⟨n', hn'⟩ : ∃ n', n' = n.withDatabase
      (n.machine.database.saveHardState { r.hardStateAfter with commit }) := ⟨_, rfl⟩
    have hlog' : n'.machine.database.raftLog = db.raftLog := by rw [hn']; exact hlog
    simp only [handleNewlyCommittedEntries, newlyCommitted, saveCommit, hc,
      Option.isSome_some, true_and, ← hn', entries_congr hlog']
    by_cases hnew : (if 0 < lastApplied r.committedEntries then lastApplied r.committedEntries
        else r.applied) < r.committed
    · simp only [hnew, if_true]
      cases db.entries _ _ none with
      | error e => exact ⟨r.applied, rfl⟩
      | ok es =>
        dsimp only
        rcases attempt (processEntry d lib envs) n' es with ⟨n'', e | ⟨⟩⟩
        · exact ⟨0, rfl⟩
        · exact ⟨_, rfl⟩
    · simp only [hnew, if_false]
      exact ⟨r.applied, rfl⟩

/-- **`on_ready` performs its actions** and then sees to the compaction of the log; if the `Ready`
    cannot be saved, it does nothing else. -/
theorem onReady_eq (n : RaftManager R) (r : Round R) (ms : ReadyMessages) :
    ∃ applied, n.onReady d lib envs r =
      match saveReady lib n.machine.database r with
      | (db, .error e) => (n.withDatabase db, .error (.error e))
      | (_, .ok ()) =>
        match attempt (perform d lib envs r) { n with raft := r.raft }
          (onReadyActions lib n r ms) with
        | (n, .error failure) => (n, .error failure)
        | (n, .ok ()) => n.compactLog d lib applied := by
  unfold onReady
  rcases hdb : saveReady lib n.machine.database r with ⟨db, e | ⟨⟩⟩
  · exact ⟨0, rfl⟩
  have hs := @attempt_snapshot R d lib envs { n with raft := r.raft } r (by rw [hdb])
  simp only [onReadyActions, attempt_append _ _ (_ ++ _), hs, attempt_sendActions,
    attempt_known, attempt_commit, hdb]
  obtain ⟨n₀, hn₀⟩ : ∃ n₀, n₀ = { n with raft := r.raft }.withDatabase db := ⟨_, rfl⟩
  simp only [← hn₀]
  obtain ⟨-, -, -, hlog, -⟩ := @attempt_processEntry R d lib envs n₀ r.committedEntries
  rcases hloop : attempt (processEntry d lib envs) n₀ r.committedEntries with ⟨n₁, e | ⟨⟩⟩ <;>
    rw [hloop] at hlog
  · exact ⟨0, rfl⟩
  · have hlog₁ : n₁.machine.database.raftLog = db.raftLog := by rw [hlog, hn₀]; rfl
    obtain ⟨applied, hnew⟩ := @handleNewlyCommittedEntries_eq R d lib envs n₁ r db hlog₁
    refine ⟨applied, ?_⟩
    simp only [hnew]
    rcases attempt (processEntry d lib envs) (n₁.saveCommit r) (newlyCommitted db r) with
      ⟨n₂, e | ⟨⟩⟩ <;> rfl

/-! ## What the handlers store, send and apply -/

variable {ms : ReadyMessages} {nodeId : ℕ} {kind : MessageKind}

theorem effects_storeActions (r : Round R) : Effects.ofActions (storeActions r) =
      { entries := r.entries, hardStates := r.hardState.toList } := by
  unfold storeActions
  by_cases hes : r.entries = [] <;> cases r.hardState <;>
    simp [hes, Effects.ofActions, Effects.ofAction, Effects.append_def]

theorem effects_sendActions (ms : List Message) : Effects.ofActions (sendActions nodeId kind ms) =
      { sent := ms.map fun m => (kind, sendRaftMessage nodeId m) } := by
  unfold sendActions
  induction ms with
  | nil => rfl
  | cons m ms ih =>
    rw [map_cons, Effects.ofActions, ih]
    rfl

theorem effects_apply : Effects.ofActions (es.map .apply) = { applied := es } := by
  induction es with
  | nil => rfl
  | cons e es ih =>
    rw [map_cons, Effects.ofActions, ih]
    rfl

theorem effects_snapshot (snap : Option Snapshot) :
    Effects.ofActions (snap.toList.map .applySnapshot) = { snapshots := snap.toList } := by
  cases snap <;> rfl

theorem effects_commit (commitIndex : Option ℕ) (hs : HardState) :
    Effects.ofActions (commitIndex.toList.map fun commit => .saveHardState { hs with commit }) =
      { hardStates := commitIndex.toList.map fun commit => { hs with commit } } := by
  cases commitIndex <;> rfl

theorem effects_inlineActions (nid : ℕ) (r : Round R) (ms : ReadyMessages) :
    Effects.ofActions (inlineActions nid r ms) =
      { entries := r.entries
        hardStates := r.hardState.toList
        sent := ms.messages.map (fun m => (.immediate, sendRaftMessage nid m)) ++
          ms.persisted.map fun m => (.persisted, sendRaftMessage nid m)
        applied := confChanges r.committedEntries } := by
  simp only [inlineActions, Effects.ofActions_append, effects_storeActions, effects_sendActions,
    effects_apply, Effects.append_def, map_map, Function.comp_def,
    sendRaftMessage_fixSender, append_nil, nil_append]

theorem effects_onReadyActions (n : RaftManager R) (r : Round R) (ms : ReadyMessages) :
    Effects.ofActions (onReadyActions lib n r ms) =
      { snapshots := r.snapshot.toList
        entries := r.entries
        hardStates := r.hardState.toList ++
          r.commitIndex.toList.map fun commit => { r.hardStateAfter with commit }
        sent := ms.messages.map (fun m => (.immediate, sendRaftMessage n.nodeId m)) ++
          ms.light.map fun m => (.light, sendRaftMessage n.nodeId m)
        applied := known r.committedEntries ++
          known (newlyCommitted (saveReady lib n.machine.database r).1 r) } := by
  simp only [onReadyActions, Effects.ofActions_append, effects_snapshot, effects_storeActions,
    effects_sendActions, effects_apply, effects_commit, Effects.append_def, append_nil,
    nil_append]

theorem persistedAfterStores_append {as bs : List ReadyAction}
    (has : ∀ a ∈ as, ∀ m, a ≠ .send .persisted m) (hbs : ∀ b ∈ bs, ¬ b.Stores) :
    PersistedAfterStores (as ++ bs) := by
  unfold PersistedAfterStores
  rw [pairwise_append]
  refine ⟨?_, ?_, ?_⟩
  · rw [pairwise_iff_forall_sublist]
    rintro a b hab ⟨m, rfl⟩
    exact absurd rfl (has _ (hab.subset mem_cons_self) m)
  · rw [pairwise_iff_forall_sublist]
    intro a b hab _
    exact hbs b (hab.subset (by simp))
  · intro a _ b hb _
    exact hbs b hb

theorem storeActions_ne_persisted (r : Round R) :
    ∀ a ∈ storeActions r, ∀ m, a ≠ .send .persisted m := by
  rintro a ha m rfl
  unfold storeActions at ha
  by_cases hes : r.entries = [] <;> cases hhs : r.hardState <;> simp [hes, hhs] at ha

theorem persistedAfterStores_inlineActions (r : Round R) (ms : ReadyMessages) :
    PersistedAfterStores (inlineActions nid r ms) := by
  unfold inlineActions
  rw [append_assoc, append_assoc]
  apply persistedAfterStores_append (storeActions_ne_persisted r)
  intro b hb hs
  simp only [sendActions, mem_append, mem_map] at hb
  rcases hb with ⟨m, -, rfl⟩ | ⟨m, -, rfl⟩ | ⟨e, -, rfl⟩ <;> exact hs

theorem persistedAfterStores_onReadyActions (n : RaftManager R) (r : Round R)
    (ms : ReadyMessages) : PersistedAfterStores (onReadyActions lib n r ms) := by
  rw [← append_nil (onReadyActions lib n r ms)]
  refine persistedAfterStores_append ?_ (by simp)
  rintro a ha m rfl
  simp only [onReadyActions, sendActions, mem_append, mem_map, reduceCtorEq, and_false,
    exists_false, or_false, ReadyAction.send.injEq, false_or, false_and] at ha
  exact storeActions_ne_persisted r _ ha m rfl

/-! ## When the two agree -/

/-- A `Ready` that has only what both handlers treat alike. -/
structure TreatedAlike (lib : Libraries R) (n : RaftManager R) (r : Round R) (ms : ReadyMessages) :
    Prop where
  noSnapshot : r.snapshot = none
  noPersisted : ms.persisted = []
  noLight : ms.light = []
  noNormal : normals r.committedEntries = []
  /-- The hard state of the `Ready` has the commit index of the `LightReady`. -/
  commitSaved : ∀ commit, r.commitIndex = some commit →
    r.hardState = some { r.hardStateAfter with commit }
  nothingNew : known (newlyCommitted (saveReady lib n.machine.database r).1 r) = []

theorem known_length : (known es).length = (normals es).length + (confChanges es).length := by
  induction es with
  | nil => rfl
  | cons e es ih =>
    simp only [known, normals, confChanges, filter_cons, ne_eq, decide_not] at ih ⊢
    cases e.kind <;> simp <;> omega

theorem known_of_no_normals {es : List Entry} (h : normals es = []) :
    known es = confChanges es := by
  unfold known confChanges
  apply filter_congr
  intro e he
  have hkind : e.kind ≠ .entryNormal := by
    intro hkind
    have : e ∈ normals es := mem_filter.2 ⟨he, by simp [hkind]⟩
    rw [h] at this
    cases this
  cases hk : e.kind <;> simp_all

theorem applied_eq_iff {es new : List Entry} :
    known es ++ new = confChanges es ↔ normals es = [] ∧ new = [] := by
  constructor
  · intro h
    have hlen := congrArg length h
    rw [length_append, known_length] at hlen
    exact ⟨length_eq_zero_iff.1 (by omega), length_eq_zero_iff.1 (by omega)⟩
  · rintro ⟨hn, rfl⟩
    rw [append_nil, known_of_no_normals hn]

theorem sent_perm_iff {f g : Message → MessageKind × Message} {ms ms' : List Message}
    (h : ∀ m m', f m ≠ g m') (as : List (MessageKind × Message)) :
    (as ++ ms.map f).Perm (as ++ ms'.map g) ↔ ms = [] ∧ ms' = [] := by
  rw [perm_append_left_iff]
  constructor
  · intro hperm
    have he : ms = [] := by
      by_contra hne
      obtain ⟨m, hm⟩ := exists_mem_of_ne_nil _ hne
      obtain ⟨m', -, heq⟩ := mem_map.1 (hperm.mem_iff.1 (mem_map_of_mem hm))
      exact h m m' heq.symm
    subst he
    exact ⟨rfl, map_eq_nil_iff.1 hperm.nil_eq.symm⟩
  · rintro ⟨rfl, rfl⟩
    exact .refl _

/-- **When the two handlers have the same effect**: exactly without a snapshot, a normal entry, a
    persisted message, a message or a new commit index of the `LightReady`, and an entry to fetch
    after it.  The lists are what the handlers set out to do; an error cuts both of them short. -/
theorem same_effect_iff (lib : Libraries R) (n : RaftManager R) (r : Round R) (ms : ReadyMessages) :
    SameEffect (onReadyActions lib n r ms) (inlineActions n.nodeId r ms) ↔
      TreatedAlike lib n r ms := by
  have hsnap : r.snapshot.toList = [] ↔ r.snapshot = none := by cases r.snapshot <;> simp
  have hhard : (r.hardState.toList ++
      r.commitIndex.toList.map fun commit => { r.hardStateAfter with commit }).getLast? =
        r.hardState.toList.getLast? ↔
      ∀ commit, r.commitIndex = some commit →
        r.hardState = some { r.hardStateAfter with commit } := by
    cases r.commitIndex with
    | none => simp
    | some commit => cases r.hardState <;> simp [eq_comm]
  constructor
  · rintro ⟨h1, -, h3, h4, -, h6⟩
    simp only [Effects.hardState, effects_onReadyActions, effects_inlineActions] at h1 h3 h4 h6
    obtain ⟨hlight, hpersisted⟩ := (sent_perm_iff (by simp) _).1 h4
    obtain ⟨hnormals, hnew⟩ := applied_eq_iff.1 h6
    exact ⟨hsnap.1 h1, hpersisted, hlight, hnormals, hhard.1 h3, hnew⟩
  rintro ⟨h1, h2, h3, h4, h5, h6⟩
  refine ⟨?_, ?_, ?_, ?_, ⟨persistedAfterStores_onReadyActions n r ms,
    persistedAfterStores_inlineActions n.nodeId r ms⟩, ?_⟩ <;>
    simp only [Effects.hardState, effects_onReadyActions, effects_inlineActions]
  · exact hsnap.2 h1
  · exact hhard.2 h5
  · rw [h2, h3]
    exact .refl _
  · rw [h6]
    exact applied_eq_iff.2 ⟨h4, rfl⟩

def voteRound : Round Unit where
  raft := ()
  snapshot := none
  entries := []
  hardState := some ⟨2, 3, 0⟩
  committedEntries := []
  light := []
  commitIndex := none
  hardStateAfter := ⟨2, 3, 0⟩
  applied := 0
  committed := 0

/-- The answer to a vote request of node 3, which may go out once the vote is stored. -/
def voteAnswer : ReadyMessages := ⟨[], [⟨1, 3, [0]⟩], []⟩

/-- The follower grants its vote; through `on_ready` the answer is never sent. -/
theorem on_ready_drops_persisted_messages :
    ¬ ∀ (lib : Libraries Unit) (n : RaftManager Unit) (r : Round Unit) (ms : ReadyMessages),
      SameEffect (onReadyActions lib n r ms) (inlineActions n.nodeId r ms) := by
  intro h
  have hsent := (h (.only (.removeWorker 1) [0] SnapshotCodec.refusing) (nodeOne []) voteRound
    voteAnswer).sent
  exact absurd hsent.length_eq (by decide)

end RaftManager

end Blixard
