/-
  Restarts: a node stops after some entries of its log and applies the log again from its
  beginning, over the tables that the first entries left on disk (`replay_restores_tables`).
-/
import Blixard.Raft.Rows

namespace Blixard

open List

variable (d : Deployment) (decode : Bytes → Except String ProposalData)

def Replica.run (r : Replica) (log : List (Entry × (ℕ → Env))) : Replica :=
  log.foldl (fun r x => r.step d decode x.1 x.2) r

def Replica.fresh (quotaManager : Option QuotaManager) : Replica := ⟨⟨{}, .new, quotaManager⟩, true⟩

/-- The tables are kept and the pools are new; what the quota manager starts with does
    not matter below. -/
def Replica.restart (r : Replica) (quotaManager : Option QuotaManager) : Replica :=
  ⟨⟨r.machine.database, .new, quotaManager⟩, true⟩

/-- An entry of a log, and the surroundings in which it is applied by a node that does not
    stop, by one that will stop, and by that one after its restart. -/
structure LogEntry where
  entry : Entry
  once : ℕ → Env
  before : ℕ → Env
  again : ℕ → Env

/-! ## Outlines -/

/-- A replica as far as its log decides it. -/
structure Outline where
  rows : RowKey → Option Row
  ipPoolManager : IpPoolManager
  running : Bool

namespace Outline

def step (o : Outline) (entry : Entry) : Outline :=
  if o.running then
    let course := courseEntry d decode o.ipPoolManager o.rows entry
    ⟨Replay.run course.writes o.rows, course.ipPoolManager, !endsTask course.result⟩
  else o

def run (o : Outline) (entries : List Entry) : Outline := entries.foldl (step d decode) o

theorem run_of_absolute {es : List Entry}
    (h : ∀ entry ∈ es, EntryOf decode ProposalData.IsAbsolute entry) (pools : IpPoolManager)
    (running : Bool) :
    ∃ (ws : List TableWrite) (pools' : IpPoolManager) (running' : Bool), ∀ rows,
      run d decode ⟨rows, pools, running⟩ es = ⟨Replay.run ws rows, pools', running'⟩ := by
  induction es generalizing pools running with
  | nil => exact ⟨[], pools, running, fun _ => rfl⟩
  | cons entry es ih =>
    have hrest : ∀ e ∈ es, EntryOf decode ProposalData.IsAbsolute e :=
      fun e he => h e (mem_cons_of_mem entry he)
    cases running with
    | false =>
      obtain ⟨ws, pools', running', hw⟩ := ih hrest pools false
      exact ⟨ws, pools', running', hw⟩
    | true =>
      have hc := courseEntry_eq (d := d) (h entry mem_cons_self) pools
      obtain ⟨course, hf⟩ : ∃ course, ∀ rows, courseEntry d decode pools rows entry = course :=
        ⟨_, fun rows => hc rows fun _ => none⟩
      obtain ⟨ws, pools', running', hw⟩ :=
        ih hrest course.ipPoolManager (!endsTask course.result)
      refine ⟨course.writes ++ ws, pools', running', fun rows => ?_⟩
      have hstep : step d decode ⟨rows, pools, true⟩ entry =
          ⟨Replay.run course.writes rows, course.ipPoolManager, !endsTask course.result⟩ := by
        simp only [step, if_true, hf]
      rw [run, foldl_cons, hstep, Replay.run_append]
      exact hw _

/-- **A replay of absolute entries** over what they left does not show. -/
theorem run_run {entries : List Entry}
    (h : ∀ entry ∈ entries, EntryOf decode ProposalData.IsAbsolute entry)
    (rows : RowKey → Option Row) :
    run d decode ⟨(run d decode ⟨rows, .new, true⟩ entries).rows, .new, true⟩ entries =
      run d decode ⟨rows, .new, true⟩ entries := by
  obtain ⟨writes, pools, running, hw⟩ := run_of_absolute d decode h .new true
  rw [hw, hw, Replay.run_run VmChange.idempotent]

end Outline

structure Keeps (r : Replica) (o : Outline) : Prop where
  rows : r.machine.database.rows = o.rows
  pools : r.machine.ipPoolManager = o.ipPoolManager
  running : r.running = o.running
  tidy : r.machine.database.Tidy

section
variable {d decode} {r : Replica} {o : Outline}

theorem Keeps.step (h : Keeps r o) {entry : Entry} (hent : EntryOf decode (Determined d) entry)
    (envs : ℕ → Env) : Keeps (r.step d decode entry envs) (o.step d decode entry) := by
  unfold Replica.step Outline.step
  rw [h.running]
  cases o.running with
  | false => exact h
  | true =>
    have hf := Machine.applyEntry_follows envs h.tidy hent
    rw [h.pools, h.rows] at hf
    refine ⟨?_, hf.pools, congrArg (!endsTask ·) hf.result, hf.tidy⟩
    exact hf.rows.trans (congrArg _ h.rows)

theorem Keeps.run (h : Keeps r o) {log : List LogEntry} (surroundings : LogEntry → ℕ → Env)
    (hlog : ∀ x ∈ log, EntryOf decode (Determined d) x.entry) :
    Keeps (r.run d decode (log.map fun x => (x.entry, surroundings x)))
      (o.run d decode (log.map LogEntry.entry)) := by
  induction log generalizing r o with
  | nil => exact h
  | cons x log ih =>
    have hx := h.step (hlog x mem_cons_self) (surroundings x)
    exact ih hx fun y hy => hlog y (mem_cons_of_mem x hy)

end

theorem keeps_start {db : Database} (hdb : db.Tidy) (quotaManager : Option QuotaManager) :
    Keeps ⟨⟨db, .new, quotaManager⟩, true⟩ ⟨db.rows, .new, true⟩ :=
  ⟨rfl, rfl, rfl, hdb⟩

theorem tidy_empty : ({} : Database).Tidy := by
  constructor
  · intro name bytes h
    simp at h
  · rfl

/-- **Restart equivalence**: a node that stops after `k` entries, none an update of a usage, and
    then applies the whole log again has the tables of one that applied it once. -/
theorem replay_restores_tables (d : Deployment) (decode : Bytes → Except String ProposalData)
    (quotas quotasBefore quotasAgain : Option QuotaManager) (log : List LogEntry) (k : ℕ)
    (hlog : ∀ x ∈ log, EntryOf decode (Determined d) x.entry)
    (hfirst : ∀ x ∈ log.take k, EntryOf decode ProposalData.IsAbsolute x.entry) :
    let once := (Replica.fresh quotas).run d decode (log.map fun x => (x.entry, x.once))
    let stopped :=
      (Replica.fresh quotasBefore).run d decode ((log.take k).map fun x => (x.entry, x.before))
    let again :=
      (stopped.restart quotasAgain).run d decode (log.map fun x => (x.entry, x.again))
    again.machine.database.rows = once.machine.database.rows := by
  intro once stopped again
  have honce := (keeps_start tidy_empty quotas).run LogEntry.once hlog
  have htake : ∀ x ∈ log.take k, EntryOf decode (Determined d) x.entry :=
    fun x hx => hlog x (mem_of_mem_take hx)
  have hstopped := (keeps_start tidy_empty quotasBefore).run LogEntry.before htake
  have hagain := (keeps_start hstopped.tidy quotasAgain).run LogEntry.again hlog
  have habsolute : ∀ entry ∈ (log.take k).map LogEntry.entry,
      EntryOf decode ProposalData.IsAbsolute entry := by
    intro entry hentry
    obtain ⟨x, hx, rfl⟩ := mem_map.1 hentry
    exact hfirst x hx
  -- the first entries lead both nodes to the same place, and the others go on from there
  have hsplit : ∀ o : Outline, o.run d decode (log.map LogEntry.entry) =
      (o.run d decode ((log.take k).map LogEntry.entry)).run d decode
        ((log.drop k).map LogEntry.entry) := by
    intro o
    rw [Outline.run, Outline.run, Outline.run, ← foldl_append, ← map_append,
      take_append_drop]
  rw [hstopped.rows, hsplit, Outline.run_run d decode habsolute, ← hsplit] at hagain
  exact hagain.rows.trans honce.rows.symm

def startVmOne : ProposalData := .batch [createVmOne, .createVm (.start "vm1")]

def startVmOneEntry : Entry where
  entryType := 0
  term := 1
  index := 1
  data := Bytes.leBytes 4 15 ++ Bytes.leBytes 8 2 ++ createVmOneEntry.data ++
    (Bytes.leBytes 4 6 ++ Bytes.leBytes 4 1 ++ encodeString "vm1")

theorem replay_restores_machine :
    let decode := decodeOnly startVmOne startVmOneEntry.data
    let run (r : Replica) (time : ℤ) :=
      r.run .raftManager decode [(startVmOneEntry, fun _ => Env.still time)]
    (run ((run (.fresh none) 1).restart (some ⟨∅, ∅⟩)) 2).machine.database.rows =
      (run (.fresh none) 0).machine.database.rows := by
  have hentry : ∀ {P : ProposalData → Prop}, P createVmOne → P (.createVm (.start "vm1")) →
      EntryOf (decodeOnly startVmOne startVmOneEntry.data) P startVmOneEntry := by
    intro P hcreate hstart _ p hp
    rw [decodeOnly, if_pos rfl] at hp
    cases hp
    simpa [startVmOne, ProposalData.Each] using ⟨hcreate, hstart⟩
  refine replay_restores_tables .raftManager _ none none (some ⟨∅, ∅⟩)
    [⟨startVmOneEntry, fun _ => .still 0, fun _ => .still 1, fun _ => .still 2⟩] 1 ?_ ?_
  · intro x hx
    obtain rfl := mem_singleton.1 hx
    exact hentry (by simp [createVmOne, Determined, Deployment.raftManager]) trivial
  · intro x hx
    obtain rfl := mem_singleton.1 hx
    exact hentry trivial trivial

def countMachine : ProposalData := .updateTenantUsage "acme" ⟨1, 1, 1024, 10, .create, 0⟩ 0

def countMachineEntry : Entry where
  entryType := 0
  term := 1
  index := 1
  data := Bytes.leBytes 4 13 ++ encodeString "acme" ++ Bytes.leBytes 4 1 ++ Bytes.leBytes 4 1 ++
    Bytes.leBytes 8 1024 ++ Bytes.leBytes 8 10 ++ Bytes.leBytes 4 0 ++
    encodeString "1970-01-01T00:00:00Z" ++ Bytes.leBytes 8 16 ++ replicate 16 0

def Row.activeVms : Row → Option ℕ
  | .tenantUsage (.value view) => some view.usage.vmUsage.activeVms
  | _ => none

/-- A node that stops after it has counted a machine counts it again. -/
theorem replay_counts_twice :
    ¬ ∀ (d : Deployment) (decode : Bytes → Except String ProposalData)
      (quotas quotasBefore quotasAgain : Option QuotaManager) (log : List LogEntry) (k : ℕ),
      let once := (Replica.fresh quotas).run d decode (log.map fun x => (x.entry, x.once))
      let stopped :=
        (Replica.fresh quotasBefore).run d decode ((log.take k).map fun x => (x.entry, x.before))
      let again :=
        (stopped.restart quotasAgain).run d decode (log.map fun x => (x.entry, x.again))
      again.machine.database.rows = once.machine.database.rows := by
  intro h
  have hrows := h .raftManager (decodeOnly countMachine countMachineEntry.data) none none none
    [⟨countMachineEntry, fun _ => .still 0, fun _ => .still 0, fun _ => .still 0⟩] 1
  have hcount := congrArg (fun rows => (rows (.tenantUsage "acme")).bind Row.activeVms) hrows
  revert hcount
  decide +kernel

end Blixard
