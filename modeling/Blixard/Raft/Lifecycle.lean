/-
  The rows about workers and tasks over runs of proposals (`raft/state_machine.rs`).

  A status update does not look whether the node is registered (`sameKeys_iff`), and a
  reassignment not at the old node (`lifecycle_iff`).
-/
import Blixard.Scheduler

namespace Blixard

open Machine Table WorkerProposal

/-! ## Workers -/

namespace Registry

def SameKeys (db : Database) : Prop :=
  ∀ k, (k ∈ db.workerStatus ↔ k ∈ db.workers) ∧ (k ∈ db.nodeTopology ↔ k ∈ db.workers)

/-- A status update is for a node that is registered. -/
def ForRegistered (m : Machine) : Env × WorkerProposal → Prop
  | (_, .updateStatus nodeId _) => key nodeId ∈ m.database.workers
  | _ => True

variable (d : Deployment)

variable (m : Machine)

theorem sameKeys_apply (event : Env × WorkerProposal) (h : SameKeys m.database)
    (he : ForRegistered m event) : SameKeys (apply d m event).database := by
  obtain ⟨env, p⟩ := event
  intro k
  obtain ⟨hs, ht⟩ := h k
  cases p with
  | register nid addr caps topology =>
    simp only [apply, proposal, applyOne, applyRegisterWorker,
      commit, mem_insert, hs, ht, and_self]
  | updateStatus nid st =>
    refine ⟨?_, ht⟩
    change k ∈ m.database.workerStatus.insert (key nid) _ ↔ k ∈ m.database.workers
    rw [mem_insert, hs]
    constructor
    · rintro (rfl | hk)
      · exact he
      · exact hk
    · exact .inr
  | remove nid =>
    simp only [apply, proposal, applyOne, applyRemoveWorker,
      commit, mem_erase, hs, ht, and_self]

theorem not_sameKeys_apply (event : Env × WorkerProposal) (he : ¬ ForRegistered m event) :
    ¬ SameKeys (apply d m event).database := by
  obtain ⟨env, p⟩ := event
  intro h
  cases p with
  | register | remove => exact he trivial
  | updateStatus nid st =>
    have hrow : key nid ∈ m.database.workerStatus.insert (key nid) [st.toByte] :=
      mem_insert.2 (.inl rfl)
    exact he ((h (key nid)).1.1 hrow)

/-- **When the tables about workers agree**: in every state of a run that starts with
    equal key sets, exactly if every status update is for a node that is registered. -/
theorem sameKeys_iff (d : Deployment) (m : Machine) (hm : SameKeys m.database)
    (events : List (Env × WorkerProposal)) :
    (∀ s ∈ events.scanl (apply d) m, SameKeys s.database) ↔
      Run.Along (apply d) ForRegistered m events :=
  Run.holds_iff_along (sameKeys_apply d) (fun _ h => h)
    (fun m event _ => not_sameKeys_apply d m event) hm

theorem sameKeys_of_worker_one : SameKeys Machine.new.database ∧
      ∀ s ∈ ([(.still 0, workerOne), (.still 1, .updateStatus 1 .busy), (.still 2, .remove 1)] :
        List (Env × WorkerProposal)).scanl (apply .raftManager) .new, SameKeys s.database := by
  have hnew : SameKeys Machine.new.database := fun k => by simp [Machine.new]
  refine ⟨hnew, (sameKeys_iff .raftManager .new hnew _).2 ⟨trivial, ?_, trivial, trivial⟩⟩
  exact Std.ExtTreeMap.mem_insert_self

/-- Worker 1 is removed, and then a status that was sent before arrives. -/
theorem late_status_is_left_behind :
    let s := ([(.still 0, workerOne), (.still 1, .remove 1), (.still 2, .updateStatus 1 .offline)] :
      List (Env × WorkerProposal)).foldl (apply .raftManager) .new
    ¬ SameKeys s.database ∧
      key 1 ∈ s.database.workerStatus ∧ key 1 ∉ s.database.workers := by
  intro s
  have hstatus : key 1 ∈ s.database.workerStatus := Std.ExtTreeMap.mem_insert_self
  have hworker : key 1 ∉ s.database.workers := fun h => (Table.mem_erase.1 h).1 rfl
  exact ⟨fun h => hworker ((h (key 1)).1.1 hstatus), hstatus, hworker⟩

end Registry

/-! ## Tasks -/

inductive TaskProposal where
  | assign (taskId : String) (nodeId : UInt64) (task : TaskSpec)
  | complete (taskId : String) (result : TaskResult)
  | reassign (taskId : String) (fromNode toNode : UInt64)

def TaskProposal.proposal : TaskProposal → ProposalData
  | assign taskId nodeId task => .assignTask taskId nodeId.toNat task
  | complete taskId result => .completeTask taskId result
  | reassign taskId fromNode toNode => .reassignTask taskId fromNode.toNat toNode.toNat

/-- A machine, and the tasks that were completed and not assigned since. -/
structure TaskRun where
  machine : Machine
  completed : Set String

namespace TaskRun

def record (completed : Set String) : TaskProposal → Set String
  | .assign taskId _ _ => completed \ {taskId}
  | .complete taskId _ => insert taskId completed
  | .reassign _ _ _ => completed

variable (d : Deployment)

def step (s : TaskRun) (event : Env × TaskProposal) : TaskRun where
  machine := (s.machine.applyOne d event.1 event.2.proposal).1
  completed := record s.completed event.2

def assignment (nodeId : UInt64) : Bytes := Bytes.leBytes 8 nodeId.toNat

/-- Assigned tasks have a specification, and completed tasks are not assigned. -/
structure Lifecycle (s : TaskRun) : Prop where
  specified : ∀ taskId ∈ s.machine.database.taskAssignments,
    ∃ task, s.machine.database.tasks[taskId]? = some (.value task)
  released : ∀ taskId ∈ s.completed, taskId ∉ s.machine.database.taskAssignments

/-- A reassignment changes the assignment only of a task that is assigned to the node that
    it takes the task from. -/
def Respects (s : TaskRun) (event : Env × TaskProposal) : Prop :=
  ∀ taskId fromNode toNode, event.2 = .reassign taskId fromNode toNode →
    (s.step d event).machine.database.taskAssignments[taskId]? ≠
      s.machine.database.taskAssignments[taskId]? →
    s.machine.database.taskAssignments[taskId]? = some (assignment fromNode)

/-- A reassignment finds its task at the node that it takes the task from, or already at
    the node that it gives the task to. -/
def FindsTask (s : TaskRun) : Env × TaskProposal → Prop
  | (_, .reassign taskId fromNode toNode) =>
    s.machine.database.taskAssignments[taskId]? = some (assignment fromNode) ∨
      s.machine.database.taskAssignments[taskId]? = some (assignment toNode)
  | _ => True

variable {s : TaskRun}

theorem respects_iff (event : Env × TaskProposal) : s.Respects d event ↔ s.FindsTask event := by
  obtain ⟨env, p⟩ := event
  cases p with
  | assign | complete => exact iff_of_true (fun _ _ _ h => by cases h) trivial
  | reassign tsk fromNode toNode =>
    have ha : (s.machine.database.taskAssignments.insert tsk (assignment toNode))[tsk]? =
        some (assignment toNode) := Std.ExtTreeMap.getElem?_insert_self
    constructor
    · intro h
      by_cases hsame : s.machine.database.taskAssignments[tsk]? = some (assignment toNode)
      · exact .inr hsame
      · exact .inl (h tsk fromNode toNode rfl fun heq => hsame (heq.symm.trans ha))
    · rintro h _ _ _ ⟨⟩ hc
      exact h.resolve_right fun hsame => hc (ha.trans hsame.symm)

theorem lifecycle_assign (h : s.Lifecycle) (env : Env) (tsk : String) (nid : UInt64)
    (task : TaskSpec) : (s.step d (env, .assign tsk nid task)).Lifecycle where
  specified t ht := by
    change t ∈ s.machine.database.taskAssignments.insert tsk (assignment nid) at ht
    change ∃ task', (s.machine.database.tasks.insert tsk (.value task))[t]? = _
    rw [mem_insert] at ht
    rw [get_insert]
    split_ifs with heq
    · exact ⟨task, rfl⟩
    · exact h.specified t (ht.resolve_left heq)
  released t ht := by
    obtain ⟨hdone, hne⟩ := ht
    change t ∉ s.machine.database.taskAssignments.insert tsk (assignment nid)
    rw [mem_insert]
    rintro (rfl | hin)
    · exact hne rfl
    · exact h.released t hdone hin

theorem lifecycle_complete (h : s.Lifecycle) (env : Env) (tsk : String) (res : TaskResult) :
    (s.step d (env, .complete tsk res)).Lifecycle where
  specified t ht := h.specified t (mem_erase.1 ht).2
  released t ht := by
    change t ∉ s.machine.database.taskAssignments.erase tsk
    rcases ht with rfl | ht
    · exact fun hin => (mem_erase.1 hin).1 rfl
    · exact fun hin => h.released t ht (mem_erase.1 hin).2

theorem lifecycle_reassign (h : s.Lifecycle) {env : Env} {tsk : String}
    {fromNode toNode : UInt64} (hf : s.FindsTask (env, .reassign tsk fromNode toNode)) :
    (s.step d (env, .reassign tsk fromNode toNode)).Lifecycle := by
  have ha : tsk ∈ s.machine.database.taskAssignments := by
    rw [mem_iff]
    rcases hf with hrow | hrow
    · exact ⟨_, hrow⟩
    · exact ⟨_, hrow⟩
  have hmem : ∀ t, t ∈ s.machine.database.taskAssignments.insert tsk (assignment toNode) →
      t ∈ s.machine.database.taskAssignments := by
    intro t ht
    rw [mem_insert] at ht
    rcases ht with rfl | ht
    · exact ha
    · exact ht
  exact ⟨fun t ht => h.specified t (hmem t ht), fun t ht hin => h.released t ht (hmem t hin)⟩

theorem lifecycle_step (s : TaskRun) (event : Env × TaskProposal) (h : s.Lifecycle)
    (hf : s.FindsTask event) : (s.step d event).Lifecycle := by
  obtain ⟨env, p⟩ := event
  cases p with
  | assign tsk nid task => exact lifecycle_assign d h env tsk nid task
  | complete tsk res => exact lifecycle_complete d h env tsk res
  | reassign tsk fromNode toNode => exact lifecycle_reassign d h hf

/-- **When tasks keep to their life cycle**: assigned tasks have a specification, completed ones are
    not assigned, and reassignments respect their source, exactly if every reassignment finds its
    task. -/
theorem lifecycle_iff (d : Deployment) (s : TaskRun) (hs : s.Lifecycle)
    (events : List (Env × TaskProposal)) :
    ((∀ t ∈ events.scanl (step d) s, t.Lifecycle) ∧ Run.Along (step d) (Respects d) s events) ↔
      Run.Along (step d) FindsTask s events := by
  rw [Run.along_congr fun s event => respects_iff d event]
  exact ⟨And.right, fun h => ⟨Run.invariant (lifecycle_step d) hs h, h⟩⟩

def start : TaskRun := ⟨.new, ∅⟩

theorem lifecycle_start : start.Lifecycle where
  specified t ht := by simp [start, new] at ht
  released t ht := ht.elim

def noResources : ResourceRequirements := ⟨0, 0, 0, []⟩

def assignOne : TaskProposal := .assign "t1" 1 ⟨"true", [], noResources, 60⟩

def completeOne : TaskProposal := .complete "t1" ⟨true, "", none, 5⟩

theorem moved_task_completes :
    let events := [(.still 0, assignOne), (.still 1, .reassign "t1" 1 2), (.still 2, completeOne)]
    start.Lifecycle ∧ (∀ t ∈ events.scanl (step .raftManager) start, t.Lifecycle) ∧
      Run.Along (step .raftManager) (Respects .raftManager) start events := by
  intro events
  refine ⟨lifecycle_start, ?_⟩
  refine (lifecycle_iff .raftManager start lifecycle_start events).2
    ⟨trivial, .inl ?_, trivial, trivial⟩
  exact Std.ExtTreeMap.getElem?_insert_self

/-- The task is completed, and then a reassignment that was sent before arrives: the
    completed task is assigned again, to node 2. -/
theorem late_reassignment_revives_task :
    let s := ([(.still 0, assignOne), (.still 1, completeOne), (.still 2, .reassign "t1" 1 2)] :
      List (Env × TaskProposal)).foldl (step .raftManager) start
    ¬ s.Lifecycle ∧ "t1" ∈ s.completed ∧
      s.machine.database.taskAssignments["t1"]? = some (assignment 2) := by
  intro s
  have hdone : "t1" ∈ s.completed := Set.mem_insert _ _
  have hrow : s.machine.database.taskAssignments["t1"]? = some (assignment 2) :=
    Std.ExtTreeMap.getElem?_insert_self
  refine ⟨fun h => h.released "t1" hdone ?_, hdone, hrow⟩
  exact (Table.mem_iff _ _).2 ⟨_, hrow⟩

end TaskRun

end Blixard
