/-
  Which committed entries reach the state machine.

  Every delivered normal entry is handed over once and in order in runs where the inline block
  meets none, and where `onReady` fetches after `advance` what the `LightReady` holds
  (`handed_exactly_once`).
-/
import Blixard.Raft.Core

namespace Blixard

open Consecutive List

namespace RaftManager

variable {R : Type} {d : Deployment} {lib : Libraries R} {envs : ℕ → ℕ → Env} {n : RaftManager R}

/-! ## What a `Ready` hands over -/

theorem withDatabase_handed (db : Database) : (n.withDatabase db).handed = n.handed := rfl

/-- After a light ready: if its entries reach the commit index they are fetched again from the
    store; if the commit index did not move, nothing is. -/
theorem handleNewlyCommittedEntries_cases {r : Round R} {last : ℕ}
    (hlast : (if 0 < last then last else r.applied) = r.applied)
    (hs : n.machine.database.entries (r.applied + 1) (r.applied + 1 + r.light.length) none =
      .ok r.light) (hc : if r.commitIndex.isSome then r.committed = r.applied + r.light.length
      else normals r.light = []) :
    ∃ done, done <+: r.light ∧
      (n.handleNewlyCommittedEntries d lib envs r last).1.handed = n.handed ++ normals done ∧
      ∀ applied, (n.handleNewlyCommittedEntries d lib envs r last).2 = .ok applied →
        normals done = normals r.light := by
  unfold handleNewlyCommittedEntries
  cases hm : r.commitIndex with
  | none =>
    rw [hm] at hc
    exact ⟨[], nil_prefix, by simp [normals], fun _ _ => hc.symm⟩
  | some commit =>
    rw [hm] at hc
    replace hc : r.committed = r.applied + r.light.length := hc
    simp only [hlast, Option.isSome_some, true_and]
    split
    · have hread : (n.withDatabase (n.machine.database.saveHardState
          { r.hardStateAfter with commit })).machine.database.entries (r.applied + 1)
          (r.committed + 1) none = .ok r.light := by
        rw [hc, Nat.add_right_comm]
        exact hs
      rw [hread]
      dsimp only
      obtain ⟨done, hdone, hn, -, hall⟩ := @attempt_processEntry R d lib envs
        (n.withDatabase (n.machine.database.saveHardState { r.hardStateAfter with commit })) r.light
      refine ⟨done, hdone, hn, fun applied hok => ?_⟩
      rw [hall]
      cases hr : (Run.attempt (processEntry d lib envs) _ r.light).2 with
      | error e => rw [hr] at hok; cases hok
      | ok _ => rfl
    · -- nothing was committed after the entries of the `Ready`
      have he : r.light = [] := length_eq_zero_iff.1 (by omega)
      exact ⟨[], nil_prefix, by simp [normals, withDatabase_handed],
        fun _ _ => by rw [he]⟩

theorem compactLog_handed (applied : ℕ) : (n.compactLog d lib applied).1.handed = n.handed := by
  unfold compactLog
  split
  · rfl
  · rfl
  · split <;> rfl

/-- What `onReady` hands over: an initial part of the delivered normal entries, and all
    of them if it succeeds. -/
theorem onReady_cases {r : Round R}
    (hlast : (if 0 < lastApplied r.committedEntries then lastApplied r.committedEntries
      else r.applied) = r.applied)
    (hs : (saveReady lib n.machine.database r).1.entries (r.applied + 1)
      (r.applied + 1 + r.light.length) none = .ok r.light)
    (hc : if r.commitIndex.isSome then r.committed = r.applied + r.light.length
      else normals r.light = []) :
    ∃ handed, handed <+: normals (r.committedEntries ++ r.light) ∧
      (n.onReady d lib envs r).1.handed = n.handed ++ handed ∧
      ((n.onReady d lib envs r).2 = .ok () → handed = normals (r.committedEntries ++ r.light)) := by
  have hpre : ∀ {es es' : List Entry}, es <+: es' → normals es <+: normals es' :=
    fun h => h.filter _
  unfold onReady
  rcases hsave : saveReady lib n.machine.database r with ⟨db, e | ⟨⟩⟩
  · exact ⟨[], nil_prefix, (append_nil _).symm, fun h => by cases h⟩
  rw [hsave] at hs
  obtain ⟨n₀, hn₀⟩ : ∃ n₀, n₀ = { n with raft := r.raft }.withDatabase db := ⟨_, rfl⟩
  have hhanded₀ : n₀.handed = n.handed := by rw [hn₀]; rfl
  have hdb₀ : n₀.machine.database = db := by rw [hn₀]; rfl
  simp only [← hn₀]
  obtain ⟨done, hdone, hn, hlog, hall⟩ := @attempt_processEntry R d lib envs n₀
    r.committedEntries
  rw [hhanded₀] at hn
  rw [hdb₀] at hlog
  rcases hloop : Run.attempt (processEntry d lib envs) n₀ r.committedEntries with ⟨n₁, e | ⟨⟩⟩ <;>
    rw [hloop] at hn hlog hall
  · refine ⟨normals done, ?_, hn, fun h => by cases h⟩
    exact hpre (hdone.trans (prefix_append _ _))
  -- all committed entries of the `Ready` were processed, and the log is the saved one
  obtain rfl := hall rfl
  have hstored₁ :
      n₁.machine.database.entries (r.applied + 1) (r.applied + 1 + r.light.length) none =
        .ok r.light := by
    unfold Database.entries at hs ⊢
    rw [hlog]
    exact hs
  obtain ⟨done, hdone', hn', hall'⟩ := @handleNewlyCommittedEntries_cases R d lib envs n₁ r _
    hlast hstored₁ hc
  dsimp only at hn
  rcases hnew : n₁.handleNewlyCommittedEntries d lib envs r (lastApplied r.committedEntries) with
    ⟨n₂, e | applied⟩ <;> rw [hnew] at hn' hall' <;> simp only [hnew]
  · refine ⟨normals r.committedEntries ++ normals done, ?_, ?_, fun h => by cases h⟩
    · rw [normals_append]
      exact prefix_append_right_inj _ |>.2 (hpre hdone')
    · rw [← append_assoc, ← hn]; exact hn'
  refine ⟨normals r.committedEntries ++ normals done, ?_, ?_, fun _ => ?_⟩
  · rw [normals_append]
    exact prefix_append_right_inj _ |>.2 (hpre hdone')
  · rw [compactLog_handed, ← append_assoc, ← hn]; exact hn'
  · rw [normals_append, hall' applied rfl]

end RaftManager

/-! ## Sessions -/

inductive ReadyPath where
  | inline | onReady

/-- The manager between two `Ready` values, whether its loop still runs, and the
    committed entries that the library delivered so far. -/
structure Session (R : Type) where
  manager : RaftManager R
  running : Bool
  delivered : List Entry

namespace Session

open RaftManager

variable {R : Type} (d : Deployment) (lib : Libraries R) (envs : ℕ → ℕ → Env)

def new (n : RaftManager R) : Session R := ⟨{ n with handed := [] }, true, []⟩

/-- The next `Ready`.  An error from either path ends the loop of the manager. -/
def step (s : Session R) (x : ReadyPath × Round R) : Session R :=
  if s.running then
    let result := match x.1 with
      | .inline => s.manager.consumeInline lib x.2
      | .onReady => s.manager.onReady d lib envs x.2
    ⟨result.1, result.2.isOk, s.delivered ++ (x.2.committedEntries ++ x.2.light)⟩
  else s

/-- What the library promises: committed entries once and in order from `start + 1` on; `advance`
    leaves as applied what was delivered; the store has the entries of a `LightReady` once the
    `Ready` is saved. -/
structure Delivers (start : ℕ) (s : Session R) (x : ReadyPath × Round R) : Prop where
  consecutive : Consecutive (start + 1 + s.delivered.length) (x.2.committedEntries ++ x.2.light)
  applied : x.2.applied = start + s.delivered.length + x.2.committedEntries.length
  stored : x.1 = .onReady → (saveReady lib s.manager.machine.database x.2).1.entries
    (x.2.applied + 1) (x.2.applied + 1 + x.2.light.length) none = .ok x.2.light

/-- The inline block meets no normal entry.  For `onReady`, the `LightReady` reaches the
    commit index if that moved, and has no normal entries otherwise. -/
def Covered (x : ReadyPath × Round R) : Prop :=
  match x.1 with
  | .inline => normals (x.2.committedEntries ++ x.2.light) = []
  | .onReady =>
    if x.2.commitIndex.isSome then x.2.committed = x.2.applied + x.2.light.length
    else normals x.2.light = []

/-- Every delivered normal entry was handed to `apply_entry` exactly once and in
    increasing order; if the loop has ended, this holds for an initial part of them. -/
def HandedOnce (s : Session R) : Prop :=
  (s.running = true → s.manager.handed = normals s.delivered) ∧
  s.manager.handed <+: normals s.delivered ∧ s.manager.handed.Pairwise (·.index < ·.index)

variable {d lib envs} {start : ℕ} {s : Session R}

/-- The state of a session that the induction carries. -/
structure Good (start : ℕ) (s : Session R) : Prop where
  consecutive : Consecutive (start + 1) s.delivered
  handed : s.manager.handed <+: normals s.delivered
  running : s.running = true → s.manager.handed = normals s.delivered

theorem Good.handedOnce (h : Good start s) : s.HandedOnce :=
  ⟨h.running, h.handed,
    h.consecutive.pairwise_lt.sublist (h.handed.sublist.trans filter_sublist)⟩

variable {x : ReadyPath × Round R}

theorem Delivers.currentApplied (h : Delivers lib start s x) :
    (if 0 < lastApplied x.2.committedEntries then lastApplied x.2.committedEntries
      else x.2.applied) = x.2.applied := by
  have hidx := (append_iff.1 h.consecutive).1
  have ha := h.applied
  have hlast : lastApplied x.2.committedEntries =
      if x.2.committedEntries.length = 0 then 0 else x.2.applied := by
    rw [lastApplied, ← getLast?_map, hidx, getLast?_range']
    split
    · rfl
    · rw [Option.getD_some]; omega
  rw [hlast]
  split_ifs <;> simp_all

theorem good_step (hs : Good start s) (hdel : Delivers lib start s x)
    (hcov : Covered x) : Good start (s.step d lib envs x) := by
  unfold step
  by_cases hrun : s.running = true
  · rw [if_pos hrun]
    have hcons : Consecutive (start + 1) (s.delivered ++ (x.2.committedEntries ++ x.2.light)) :=
      append_iff.2 ⟨hs.consecutive, hdel.consecutive⟩
    obtain ⟨path, r⟩ := x
    cases path with
    | inline =>
      have hn : (s.manager.consumeInline lib r).1.handed = normals s.delivered :=
        (attempt_processInline _ _).trans (hs.running hrun)
      have hall : (s.manager.consumeInline lib r).1.handed =
          normals (s.delivered ++ (r.committedEntries ++ r.light)) := by
        rw [hn, normals_append, show normals (r.committedEntries ++ r.light) = [] from hcov,
          append_nil]
      exact ⟨hcons, ⟨[], (append_nil _).trans hall⟩, fun _ => hall⟩
    | onReady =>
      obtain ⟨handed, hpre, hn, hall⟩ := @onReady_cases R d lib envs s.manager r
        hdel.currentApplied (hdel.stored rfl) hcov
      rw [hs.running hrun] at hn
      refine ⟨hcons, ?_, fun hok => ?_⟩
      · show (s.manager.onReady d lib envs r).1.handed <+: _
        rw [hn, normals_append, prefix_append_right_inj]
        exact hpre
      show (s.manager.onReady d lib envs r).1.handed = _
      rw [hn, normals_append, hall]
      cases hr : (s.manager.onReady d lib envs r).2 with
      | ok _ => rfl
      | error e =>
        simp only [hr] at hok
        cases hok
  · rw [if_neg hrun]
    exact hs

/-- **Committed entries reach the state machine once**: throughout a run along the library's
    promises whose `Ready` values are covered, the delivered normal entries are handed on once each,
    in increasing order. -/
theorem handed_exactly_once (d : Deployment) (lib : Libraries R) (envs : ℕ → ℕ → Env) (start : ℕ)
    (n : RaftManager R) (rounds : List (ReadyPath × Round R))
    (hdelivers : Run.Along (step d lib envs) (Delivers lib start) (new n) rounds)
    (hcovered : Run.Along (step d lib envs) (fun _ => Covered) (new n) rounds) :
    ∀ s ∈ rounds.scanl (step d lib envs) (new n), s.HandedOnce := by
  intro s hs
  have hnew : Good start (new n) := ⟨rfl, List.prefix_rfl, fun _ => rfl⟩
  have hkeep : ∀ (s : Session R) (x : ReadyPath × Round R), Good start s →
      Delivers lib start s x ∧ Covered x → Good start (s.step d lib envs x) :=
    fun _ _ hs hx => good_step hs hx.1 hx.2
  exact (Run.invariant hkeep hnew (Run.along_and hdelivers hcovered) s hs).handedOnce

def busyEntry : Entry where
  entryType := 0
  term := 1
  index := 1
  data := Bytes.leBytes 4 4 ++ Bytes.leBytes 8 1 ++ Bytes.leBytes 4 1

def busyLibraries : Libraries Unit :=
  .only (.updateWorkerStatus 1 .busy) busyEntry.data .refusing

def leaderRound : Round Unit where
  raft := ()
  snapshot := none
  entries := [busyEntry]
  hardState := some { term := 1, vote := 1, commit := 0 }
  committedEntries := []
  light := [busyEntry]
  commitIndex := some 1
  hardStateAfter := { term := 1, vote := 1, commit := 1 }
  applied := 0
  committed := 1

theorem leader_hands_over :
    (step .raftManager busyLibraries (fun _ _ => .still 0) (new (nodeOne []))
      (.onReady, leaderRound)).manager.handed = [busyEntry] ∧
    ∀ s ∈ [(ReadyPath.onReady, leaderRound)].scanl
      (step .raftManager busyLibraries fun _ _ => .still 0) (new (nodeOne [])), s.HandedOnce := by
  refine ⟨by decide +kernel, handed_exactly_once _ _ _ 0 _ _ ⟨⟨rfl, rfl, fun _ => ?_⟩, trivial⟩
    ⟨rfl, trivial⟩⟩
  decide +kernel

def heartbeatRound : Round Unit where
  raft := ()
  snapshot := none
  entries := []
  hardState := some { term := 1, vote := 0, commit := 1 }
  committedEntries := [busyEntry]
  light := []
  commitIndex := none
  hardStateAfter := { term := 1, vote := 0, commit := 1 }
  applied := 1
  committed := 1

/-- The inline block drops the entry: the follower never applies it. -/
theorem heartbeat_drops_entry :
    ¬ ∀ (d : Deployment) (lib : Libraries Unit) (envs : ℕ → ℕ → Env) (start : ℕ)
      (n : RaftManager Unit) (rounds : List (ReadyPath × Round Unit)),
      Run.Along (step d lib envs) (Delivers lib start) (new n) rounds →
      ∀ s ∈ rounds.scanl (step d lib envs) (new n), s.HandedOnce := by
  intro h
  have hhanded := (h .raftManager busyLibraries (fun _ _ => .still 0) 0 (nodeOne [busyEntry])
    [(.inline, heartbeatRound)] ⟨⟨rfl, rfl, fun h => by cases h⟩, trivial⟩ _
    (Run.foldl_mem_scanl _ _)).1 rfl
  revert hhanded
  decide +kernel

end Session

end Blixard
