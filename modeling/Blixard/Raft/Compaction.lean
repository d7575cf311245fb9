/-
  Compaction of the log (`raft/snapshot.rs`).

  The manager compacts the log once the applied index is past 1000 and more than 500 past the
  last compaction, with an index that the storage caps at its last one (`compaction_is_safe`).
-/
import Blixard.Raft.Delivery

namespace Blixard

open Database Run

namespace Database

def Contiguous (db : Database) : Prop :=
  ∀ i j k, i ∈ db.raftLog → k ∈ db.raftLog → i ≤ j → j ≤ k → j ∈ db.raftLog

variable {db : Database}

theorem Contiguous.compactLogBefore (h : db.Contiguous) (index : ℕ) :
    (db.compactLogBefore index).Contiguous := by
  intro i j k hi hk hij hjk
  rw [mem_compactLogBefore] at hi hk ⊢
  exact ⟨h i j k hi.1 hk.1 hij hjk, hi.2.trans hij⟩

theorem Contiguous.append (h : db.Contiguous) {es : List Entry} {k : ℕ} (hes : Consecutive k es)
    (hk : db.raftLog = ∅ ∨ db.firstIndex ≤ k ∧ k ≤ db.lastIndex + 1) :
    (db.append es).Contiguous := by
  have hr : ∀ i, i ∈ es.map Entry.index ↔ k ≤ i ∧ i < k + es.length := by
    intro i
    rw [show es.map Entry.index = _ from hes, List.mem_range'_1]
  intro i j m hi hm hij hjm
  rw [mem_append_iff, hr] at hi hm ⊢
  by_cases hj : k ≤ j ∧ j < k + es.length
  · exact .inr hj
  left
  rcases hk with he | ⟨hf, hlast⟩
  · have hnot : ∀ l, l ∉ db.raftLog := by
      intro l
      rw [he]
      exact Std.ExtTreeMap.not_mem_empty
    have hi' := hi.resolve_left (hnot i)
    have hm' := hm.resolve_left (hnot m)
    omega
  · rcases hi with hi | hi
    · rcases hm with hm | hm
      · exact h i j m hi hm hij hjm
      -- before the appended entries the old log goes on to its end
      have hle := le_lastIndex hi
      by_cases hzero : db.lastIndex = 0
      · have hij' : i = j := by omega
        exact hij' ▸ hi
      · exact h i j _ hi (lastIndex_mem hzero) hij (by omega)
    · rcases hm with hm | hm
      · obtain ⟨hmem, -⟩ := firstIndex_le hm
        exact h _ j m hmem hm (by omega) hjm
      · omega

theorem snapshot_index {codec : SnapshotCodec} {requestIndex : ℕ} {s : Snapshot}
    (h : db.snapshot codec requestIndex = .ok s) :
    s.metadata.index = min requestIndex db.lastIndex := by
  obtain ⟨confState, -, h⟩ := bind_eq_ok h
  dsimp only at h
  split at h
  · obtain ⟨term, -, h⟩ := bind_eq_ok h
    cases h
    rfl
  · cases h
    rfl

end Database

namespace RaftManager

variable {R : Type} (d : Deployment) (lib : Libraries R) (envs : ℕ → ℕ → Env)

/-- What `on_ready` does before it checks for a compaction; the result has the applied
    index at that point. -/
def settle (n : RaftManager R) (r : Round R) : RaftManager R × Except Failure ℕ :=
  match saveReady lib n.machine.database r with
  | (db, .error e) => (n.withDatabase db, .error (.error e))
  | (db, .ok ()) =>
    match Run.attempt (processEntry d lib envs) ({ n with raft := r.raft }.withDatabase db)
      r.committedEntries with
    | (n, .error failure) => (n, .error failure)
    | (n, .ok ()) => n.handleNewlyCommittedEntries d lib envs r (lastApplied r.committedEntries)

variable {d lib envs} {n : RaftManager R}

theorem onReady_eq_settle (n : RaftManager R) (r : Round R) : n.onReady d lib envs r =
      match n.settle d lib envs r with
      | (n, .error failure) => (n, .error failure)
      | (n, .ok applied) => n.compactLog d lib applied := by
  unfold onReady settle
  rcases saveReady lib n.machine.database r with ⟨db, e | ⟨⟩⟩
  · rfl
  · dsimp only
    rcases attempt (processEntry d lib envs) _ r.committedEntries with ⟨n, e | ⟨⟩⟩ <;> rfl

/-! ## What stays until the compaction -/

theorem respond_lastCompactionIndex (ctx : Bytes) (res : Except BlixardError Unit) :
    (n.respond ctx res).lastCompactionIndex = n.lastCompactionIndex := by
  unfold respond
  split
  · rfl
  · split <;> rfl

theorem processConfChangeEntry_lastCompactionIndex (entry : Entry) :
    (n.processConfChangeEntry lib entry).1.lastCompactionIndex = n.lastCompactionIndex := by
  unfold processConfChangeEntry
  split
  · exact respond_lastCompactionIndex _ _
  · rfl

theorem processEntry_lastCompactionIndex (n : RaftManager R) (entry : Entry) :
    (n.processEntry d lib envs entry).1.lastCompactionIndex = n.lastCompactionIndex := by
  unfold processEntry
  split
  · unfold processNormalEntry
    dsimp only
    split
    · exact respond_lastCompactionIndex _ _
    · exact respond_lastCompactionIndex _ _
    · rfl
  · exact processConfChangeEntry_lastCompactionIndex entry
  · rfl

/-- The log and the last compaction, which the loops over entries leave alone. -/
def compactionState (n : RaftManager R) : Table ℕ Bytes × Option ℕ :=
  (n.machine.database.raftLog, n.lastCompactionIndex)

theorem attempt_processEntry_compactionState (n : RaftManager R) (es : List Entry) :
    (attempt (processEntry d lib envs) n es).1.compactionState = n.compactionState := by
  refine attempt_keeps (P := fun n' : RaftManager R =>
    n'.compactionState = n.compactionState) _ ?_ rfl es
  intro n' entry hn'
  rw [← hn']
  exact Prod.ext (processEntry_frame n' entry).2 (processEntry_lastCompactionIndex n' entry)

theorem attempt_processInline_compactionState (n : RaftManager R) (es : List Entry) :
    (attempt (processInline lib) n es).1.compactionState = n.compactionState := by
  refine attempt_keeps (P := fun n' : RaftManager R =>
    n'.compactionState = n.compactionState) _ ?_ rfl es
  intro n' entry hn'
  rw [← hn']
  unfold processInline
  split
  · exact Prod.ext (processConfChangeEntry_frame entry).2
      (processConfChangeEntry_lastCompactionIndex entry)
  · rfl

theorem handleNewlyCommittedEntries_compactionState (n : RaftManager R) (r : Round R) (last : ℕ) :
    (n.handleNewlyCommittedEntries d lib envs r last).1.compactionState = n.compactionState := by
  unfold handleNewlyCommittedEntries
  cases r.commitIndex with
  | none => simp
  | some commit =>
    dsimp only
    generalize (if 0 < last then last else r.applied) = currentApplied
    split
    · split
      · rfl
      · exact attempt_processEntry_compactionState _ _
    · rfl

theorem settle_compactionState (n : RaftManager R) (r : Round R) :
    (n.settle d lib envs r).1.compactionState =
      ((saveReady lib n.machine.database r).1.raftLog, n.lastCompactionIndex) := by
  unfold settle
  rcases hsave : saveReady lib n.machine.database r with ⟨db, e | ⟨⟩⟩
  · rfl
  have hloop := @attempt_processEntry_compactionState R d lib envs
    ({ n with raft := r.raft }.withDatabase db) r.committedEntries
  dsimp only
  rcases hrun : attempt (processEntry d lib envs) ({ n with raft := r.raft }.withDatabase db)
    r.committedEntries with ⟨n', e | ⟨⟩⟩ <;> rw [hrun] at hloop <;> simp only [hrun]
  · exact hloop
  · exact (handleNewlyCommittedEntries_compactionState n' r _).trans hloop

/-! ## One compaction -/

/-- What a check for a compaction at an applied index leaves of the log. -/
structure SafeCompaction (n n' : RaftManager R) (applied : ℕ) : Prop where
  /-- The subtraction of the last compaction index does not underflow. -/
  distance : ∀ last, n.lastCompactionIndex = some last → last ≤ applied
  removed : ∀ i ∈ n.machine.database.raftLog, i ∉ n'.machine.database.raftLog → i < applied
  kept : ∀ i ∈ n'.machine.database.raftLog,
    n'.machine.database.raftLog[i]? = n.machine.database.raftLog[i]?
  nonempty : (∃ i ∈ n.machine.database.raftLog, i ≤ applied) →
    ∃ i, i ∈ n'.machine.database.raftLog
  contiguous : n.machine.database.Contiguous → n'.machine.database.Contiguous

/-- A check for a compaction leaves the manager as it is, or compacts the log before the
    applied index or its last index. -/
theorem compactLog_cases (n : RaftManager R) (applied : ℕ) : (n.compactLog d lib applied).1 = n ∨
    ∃ index, index = min applied n.machine.database.lastIndex ∧
      (n.compactLog d lib applied).1 =
        { n.withDatabase (n.machine.database.compactLogBefore index) with
          lastCompactionIndex := some index } := by
  unfold compactLog
  split
  · exact .inl rfl
  · exact .inl rfl
  split
  · exact .inl rfl
  · rename_i s hs
    exact .inr ⟨_, snapshot_index hs, rfl⟩

theorem safeCompaction_compactLog {applied : ℕ}
    (hlast : ∀ last, n.lastCompactionIndex = some last → last ≤ applied) :
    SafeCompaction n (n.compactLog d lib applied).1 applied := by
  rcases @compactLog_cases R d lib n applied with hsame | ⟨index, hind, hc⟩
  · rw [hsame]
    exact ⟨hlast, fun i hi hnot => absurd hi hnot, fun _ _ => rfl, fun ⟨i, hi, _⟩ => ⟨i, hi⟩, id⟩
  rw [hc]
  refine ⟨hlast, fun i hi hnot => ?_, fun i hi => ?_, ?_, fun h => h.compactLogBefore index⟩
  · have hb : ¬ index ≤ i :=
      fun hle => hnot ((mem_compactLogBefore _ index i).2 ⟨hi, hle⟩)
    omega
  · have hle := ((mem_compactLogBefore _ index i).1 hi).2
    exact (get_compactLogBefore _ index i).trans (if_neg (Nat.not_lt.2 hle))
  -- the last entry stays, since the index is not beyond it
  rintro ⟨i, hi, -⟩
  have hle := le_lastIndex hi
  have hmem : n.machine.database.lastIndex ∈ n.machine.database.raftLog := by
    by_cases hzero : n.machine.database.lastIndex = 0
    · have hi0 : i = 0 := by omega
      rw [hzero, ← hi0]
      exact hi
    · exact lastIndex_mem hzero
  exact ⟨_, (mem_compactLogBefore _ index _).2 ⟨hmem, by omega⟩⟩

theorem compactLog_lastCompactionIndex {applied : ℕ}
    (hlast : ∀ last, n.lastCompactionIndex = some last → last ≤ applied) :
    ∀ last, (n.compactLog d lib applied).1.lastCompactionIndex = some last → last ≤ applied := by
  rcases @compactLog_cases R d lib n applied with hsame | ⟨index, hind, hc⟩
  · rw [hsame]
    exact hlast
  rw [hc]
  intro last h
  obtain rfl := Option.some.inj h
  omega

end RaftManager

/-! ## Runs -/

structure CompactionRun (R : Type) where
  session : Session R
  applied : ℕ

namespace CompactionRun

open RaftManager

variable {R : Type} (d : Deployment) (lib : Libraries R) (envs : ℕ → ℕ → Env)

def new (n : RaftManager R) : CompactionRun R :=
  ⟨Session.new { n with lastCompactionIndex := none }, 0⟩

def database (c : CompactionRun R) : Database := c.session.manager.machine.database

def step (c : CompactionRun R) (x : ReadyPath × Round R) : CompactionRun R :=
  ⟨c.session.step d lib envs x,
    if c.session.running then
      match x.1 with
      | .inline => c.applied
      | .onReady => ((c.session.manager.settle d lib envs x.2).2.toOption).getD c.applied
    else c.applied⟩

/-- A check for a compaction in the round: the manager at that point, and the applied
    index that the check reads. -/
def Checks (c : CompactionRun R) (x : ReadyPath × Round R) (n : RaftManager R) (applied : ℕ) :
    Prop :=
  c.session.running = true ∧ x.1 = .onReady ∧
    c.session.manager.settle d lib envs x.2 = (n, .ok applied)

def AppliedGrows (c : CompactionRun R) (x : ReadyPath × Round R) : Prop :=
  ∀ n applied, Checks d lib envs c x n applied → c.applied ≤ applied

/-- The check of the round, if it has one, is safe and does not fail. -/
def SafeRound (c : CompactionRun R) (x : ReadyPath × Round R) : Prop :=
  ∀ n applied, Checks d lib envs c x n applied →
    SafeCompaction n (n.compactLog d lib applied).1 applied ∧
    (n.compactLog d lib applied).2 = .ok ()

/-- The entries of the round are consecutive, and continue or overwrite the log that the
    snapshot of the round has left. -/
def Continues (c : CompactionRun R) (x : ReadyPath × Round R) : Prop :=
  let db := match x.1 with
    | .inline => c.database
    | .onReady => (processSnapshot lib c.database x.2).1
  ∃ k, Consecutive k x.2.entries ∧
    (db.raftLog = ∅ ∨ db.firstIndex ≤ k ∧ k ≤ db.lastIndex + 1)

variable {d lib envs} {c : CompactionRun R} {x : ReadyPath × Round R}

/-- The last compaction was not beyond the applied index. -/
def Behind (c : CompactionRun R) : Prop :=
  ∀ last, c.session.manager.lastCompactionIndex = some last → last ≤ c.applied

theorem behind_of_checks (h : c.Behind) (hg : AppliedGrows d lib envs c x)
    {n : RaftManager R} {applied : ℕ} (hc : Checks d lib envs c x n applied) :
    ∀ last, n.lastCompactionIndex = some last → last ≤ applied := by
  intro last hlast
  have hs := @settle_compactionState R d lib envs c.session.manager x.2
  rw [hc.2.2] at hs
  have hsame : n.lastCompactionIndex = c.session.manager.lastCompactionIndex :=
    congrArg Prod.snd hs
  exact (h last (hsame ▸ hlast)).trans (hg n applied hc)

theorem safeRound_of_behind (h : c.Behind) (hg : AppliedGrows d lib envs c x) :
    SafeRound d lib envs c x := by
  intro n applied hc
  have hlast := behind_of_checks h hg hc
  refine ⟨safeCompaction_compactLog hlast, ?_⟩
  have hd : ∃ b, n.shouldCompact d applied = .ok b := by
    unfold shouldCompact
    split
    · cases hn : n.lastCompactionIndex with
      | none => exact ⟨true, rfl⟩
      | some last =>
        have hle := hlast last hn
        have hsub : d.subUnsigned 64 applied last = .ok ((applied + 2 ^ 64 - last) % 2 ^ 64) := by
          unfold Platform.subUnsigned
          rw [if_neg]
          rintro ⟨-, hlt⟩
          omega
        simp only [hsub]
        exact ⟨_, rfl⟩
    · exact ⟨false, rfl⟩
  obtain ⟨b, hb⟩ := hd
  unfold compactLog
  rw [hb]
  cases b with
  | false => rfl
  | true => dsimp only; split <;> rfl

theorem behind_step (h : c.Behind) (hg : AppliedGrows d lib envs c x) :
    (c.step d lib envs x).Behind := by
  obtain ⟨path, r⟩ := x
  intro last hlast
  by_cases hrun : c.session.running = true
  · cases path with
    | inline =>
      have hs : (c.session.manager.consumeInline lib r).1.lastCompactionIndex =
          c.session.manager.lastCompactionIndex :=
        congrArg Prod.snd (attempt_processInline_compactionState _ r.committedEntries)
      simp only [step, Session.step, hrun, if_true, hs] at hlast ⊢
      exact h last hlast
    | onReady =>
      simp only [step, Session.step, hrun, if_true, onReady_eq_settle] at hlast ⊢
      rcases ht : c.session.manager.settle d lib envs r with ⟨n, e | applied⟩
      · have hs := @settle_compactionState R d lib envs c.session.manager r
        rw [ht] at hs hlast
        have hsame : n.lastCompactionIndex = c.session.manager.lastCompactionIndex :=
          congrArg Prod.snd hs
        exact h last (hsame ▸ hlast)
      · rw [ht] at hlast
        exact compactLog_lastCompactionIndex
          (behind_of_checks h hg ⟨hrun, rfl, ht⟩) last hlast
  · simp only [step, Session.step, hrun] at hlast ⊢
    exact h last hlast

/-! ## Holes -/

theorem contiguous_congr {db db' : Database} (hlog : db.raftLog = db'.raftLog) :
    db.Contiguous ↔ db'.Contiguous := by
  unfold Database.Contiguous
  rw [hlog]

theorem contiguous_saveEntries {db : Database} {r : Round R} (h : db.Contiguous) {k : ℕ}
    (hk : Consecutive k r.entries)
    (hcont : db.raftLog = ∅ ∨ db.firstIndex ≤ k ∧ k ≤ db.lastIndex + 1) :
    (saveEntries db r).Contiguous := by
  have ha : (db.append r.entries).Contiguous := h.append hk hcont
  have hlog : (saveEntries db r).raftLog = (if r.entries = [] then db else
      db.append r.entries).raftLog := by
    unfold saveEntries
    cases r.hardState <;> rfl
  rw [contiguous_congr hlog]
  split_ifs
  · exact h
  · exact ha

theorem contiguous_processSnapshot {db : Database} (h : db.Contiguous) (r : Round R) :
    (processSnapshot lib db r).1.Contiguous := by
  have hr : ∀ (db : Database) (data : Bytes),
      (db.restoreFromSnapshot lib.snapshotCodec data).1.raftLog = db.raftLog := by
    intro db data
    unfold restoreFromSnapshot
    split <;> rfl
  have ha : ∀ s, (db.applySnapshot lib.snapshotCodec s).1.Contiguous := by
    intro s
    have hv : ((db.saveConfState s.metadata.confState).saveHardState
        ⟨s.metadata.term, 0, s.metadata.index⟩).Contiguous := h
    unfold applySnapshot
    by_cases hdata : s.data = []
    · simp only [hdata, if_true]
      exact hv.compactLogBefore _
    simp only [hdata, if_false]
    have hlog := hr ((db.saveConfState s.metadata.confState).saveHardState
      ⟨s.metadata.term, 0, s.metadata.index⟩) s.data
    split <;> rename_i heq <;> rw [heq] at hlog
    · exact (contiguous_congr hlog).2 hv
    · exact Database.Contiguous.compactLogBefore ((contiguous_congr hlog).2 hv) _
  unfold processSnapshot
  split
  · exact h
  · rename_i s _
    have hs := ha s
    rcases hl : db.applySnapshot lib.snapshotCodec s with ⟨db', e | ⟨⟩⟩ <;>
      rw [hl] at hs
    · exact hs
    · dsimp only
      split_ifs
      · exact hs
      · split <;> exact hs

theorem contiguous_step (h : c.database.Contiguous) (hcont : Continues lib c x) :
    (c.step d lib envs x).database.Contiguous := by
  obtain ⟨path, r⟩ := x
  obtain ⟨k, hk, hlog⟩ := hcont
  by_cases hrun : c.session.running = true
  · cases path with
    | inline =>
      have hs : (c.session.manager.consumeInline lib r).1.machine.database.raftLog =
          (saveEntries c.database r).raftLog :=
        congrArg Prod.fst (attempt_processInline_compactionState _ r.committedEntries)
      simp only [database, step, Session.step, hrun, if_true]
      exact (contiguous_congr hs).2 (contiguous_saveEntries h hk hlog)
    | onReady =>
      have hv : (saveReady lib c.database r).1.Contiguous := by
        have hp := @contiguous_processSnapshot R lib c.database h r
        unfold saveReady
        rcases hr : processSnapshot lib c.database r with ⟨db, e | ⟨⟩⟩ <;>
          rw [hr] at hp
        · exact hp
        · rw [hr] at hlog
          exact contiguous_saveEntries hp hk hlog
      have hs := @settle_compactionState R d lib envs c.session.manager r
      simp only [database, step, Session.step, hrun, if_true, onReady_eq_settle]
      rcases ht : c.session.manager.settle d lib envs r with ⟨n, e | applied⟩ <;>
        rw [ht] at hs
      · exact (contiguous_congr (congrArg Prod.fst hs)).2 hv
      · have hn : n.machine.database.Contiguous :=
          (contiguous_congr (congrArg Prod.fst hs)).2 hv
        rcases @compactLog_cases R d lib n applied with hsame | ⟨index, -, hc⟩
        · simp only [hsame]
          exact hn
        · simp only [hc]
          exact hn.compactLogBefore index
  · simp only [database, step, Session.step, hrun]
    exact h

/-- **Compaction loses nothing that is needed**: if the applied index does not decrease, every check
    for a compaction is safe in its state; and a log without holes to which entries are appended in
    turn never gets one. -/
theorem compaction_is_safe (d : Deployment) (lib : Libraries R) (envs : ℕ → ℕ → Env)
    (n : RaftManager R) (rounds : List (ReadyPath × Round R))
    (hgrows : Run.Along (step d lib envs) (AppliedGrows d lib envs) (new n) rounds) :
    Run.Along (step d lib envs) (SafeRound d lib envs) (new n) rounds ∧
    (n.machine.database.Contiguous →
      Run.Along (step d lib envs) (fun c x => Continues lib c x) (new n) rounds →
      ∀ c ∈ rounds.scanl (step d lib envs) (new n), c.database.Contiguous) := by
  constructor
  · have hnew : (new n).Behind := by
      intro last hlast
      cases hlast
    exact Run.along_of_invariant (fun _ _ => behind_step) (fun _ _ => safeRound_of_behind) hnew
      hgrows
  · intro hstart hcont
    exact Run.invariant (fun _ _ => contiguous_step) hstart hcont

def idleRound (applied : ℕ) : Round Unit where
  raft := ()
  snapshot := none
  entries := []
  hardState := none
  committedEntries := []
  light := []
  commitIndex := none
  hardStateAfter := {}
  applied
  committed := applied

theorem compaction_removes_one :
    let n := nodeOne [Database.emptyEntry 1500 1, Database.emptyEntry 1501 1,
      Database.emptyEntry 1502 1]
    let lib := Libraries.only (.updateWorkerStatus 1 .busy) [] .refusing
    let rounds := [(ReadyPath.onReady, idleRound 1501), (.onReady, idleRound 1502)]
    let step := step .raftManager lib fun _ _ => .still 0
    (rounds.foldl step (new n)).database.raftLog.keys = [1501, 1502] ∧
    Run.Along step (SafeRound .raftManager lib fun _ _ => .still 0) (new n) rounds ∧
    ∀ c ∈ rounds.scanl step (new n), c.database.Contiguous := by
  intro n lib rounds step
  have hgrows : Run.Along step (AppliedGrows .raftManager lib fun _ _ => .still 0) (new n)
      rounds := by
    refine ⟨fun _ applied _ => Nat.zero_le applied, fun n applied h => ?_, trivial⟩
    have happlied : Except.ok 1502 = Except.ok applied := congrArg Prod.snd h.2.2
    obtain rfl := Except.ok.inj happlied
    show 1501 ≤ 1502
    decide
  obtain ⟨hsafe, hcont⟩ := compaction_is_safe .raftManager lib (fun _ _ => .still 0) n rounds hgrows
  have hempty : Database.Contiguous {} := fun i _ _ hi => absurd hi Std.ExtTreeMap.not_mem_empty
  have hlog : n.machine.database.Contiguous := hempty.append (k := 1500) rfl (.inl rfl)
  refine ⟨by decide +kernel, hsafe,
    hcont hlog ⟨⟨1500, rfl, .inr ?_⟩, ⟨1501, rfl, .inr ?_⟩, trivial⟩⟩
  · decide +kernel
  · decide +kernel

end CompactionRun

end Blixard
