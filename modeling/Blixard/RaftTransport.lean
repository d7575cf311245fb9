/-
  Draining the buffer of Raft messages (`transport/iroh_raft_transport.rs`).

  A round groups the messages it takes from the queue of a peer by priority in a hash map, and
  sends the groups in the order of the map; a message that cannot be sent ends its group
  (`round_delivered_iff`).  A peer is gone through as it was at the beginning of the round, since
  the buffer is locked.  The counters are left out.
-/
import Blixard.Error
import Blixard.Lib.Grouping
import Blixard.Lib.Table
import Mathlib.Data.List.Induction

namespace Blixard

open Grouping List

/-! ## Types -/

inductive RaftMessagePriority where
  | election | heartbeat | logAppend | snapshot
  deriving DecidableEq

/-- A smaller number is more urgent. -/
def RaftMessagePriority.asU8 : RaftMessagePriority → ℕ
  | election => 0
  | heartbeat => 1
  | logAppend => 2
  | snapshot => 3

structure BufferedRaftMessage (M : Type) where
  message : M
  priority : RaftMessagePriority
  timestamp : ℕ
  deriving DecidableEq

structure IrohRaftTransport (M : Type) where
  messageBuffer : Table ℕ (List (BufferedRaftMessage M))
  connections : Table ℕ Unit

inductive SendOutcome where
  | sent
  | serializeFailed (error : BlixardError)
  | openFailed (source : String)
  | payloadFailed (error : BlixardError)
  | writeFailed (error : BlixardError)
  | finishFailed (source : String)

def SendOutcome.result : SendOutcome → Except BlixardError Unit
  | sent => .ok ()
  | serializeFailed error | payloadFailed error | writeFailed error => .error error
  | openFailed source => .error (.internal s!"Failed to open bi stream: {source}")
  | finishFailed source => .error (.internal s!"Failed to finish send stream: {source}")

structure PeerRound where
  connect : Except BlixardError Unit
  clock : ℕ → ℕ
  order : List RaftMessagePriority
  perm : order.Perm [.election, .heartbeat, .logAppend, .snapshot]
  outcome : RaftMessagePriority → ℕ → SendOutcome

/-- What a round meets: the order in which the peers are gone through, and the peers. -/
structure RoundEnvironment where
  order : List ℕ → List ℕ
  perm : ∀ peers, (order peers).Perm peers
  peer : ℕ → PeerRound

theorem PeerRound.nodup_order (env : PeerRound) : env.order.Nodup := env.perm.nodup_iff.2 (by decide)

theorem PeerRound.mem_order (env : PeerRound) (prio : RaftMessagePriority) : prio ∈ env.order :=
  env.perm.mem_iff.2 (by cases prio <;> decide)

namespace IrohRaftTransport

variable {M : Type}

/-! ## A round -/

def isOld (now : ℕ) (m : BufferedRaftMessage M) : Bool := 30 * 10 ^ 9 < now - m.timestamp

/-- The loop over a queue from the `n`-th message on, with `count` messages taken so far: the
    messages taken, and the queue that is left. -/
def drain (clock : ℕ → ℕ) (n count : ℕ) : List (BufferedRaftMessage M) →
    List (BufferedRaftMessage M) × List (BufferedRaftMessage M)
  | [] => ([], [])
  | m :: queue =>
    if isOld (clock n) m then drain clock (n + 1) count queue
    else if 100 ≤ count + 1 then ([m], queue)
    else
      let (taken, rest) := drain clock (n + 1) (count + 1) queue
      (m :: taken, rest)

def sendMessageBatch (outcome : ℕ → SendOutcome) (k : ℕ) : List (BufferedRaftMessage M) →
    List (BufferedRaftMessage M) × Except BlixardError Unit
  | [] => ([], .ok ())
  | m :: batch =>
    match (outcome k).result with
    | .error error => ([], .error error)
    | .ok () =>
      let (sent, result) := sendMessageBatch outcome (k + 1) batch
      (m :: sent, result)

/-- The groups are sent one after another, whether or not one fails. -/
def sendBatches (env : PeerRound) (taken : List (BufferedRaftMessage M)) :
    List (BufferedRaftMessage M) :=
  let byPriority := Grouping.groupBy BufferedRaftMessage.priority taken
  env.order.flatMap fun priority =>
    (sendMessageBatch (env.outcome priority) 0 (byPriority priority)).1

/-- The round of one peer: whether it has a connection then, its queue and what is sent. -/
def processPeer (env : PeerRound) (connected : Bool) (queue : List (BufferedRaftMessage M)) :
    Bool × List (BufferedRaftMessage M) × List (BufferedRaftMessage M) :=
  if queue.isEmpty then (connected, queue, [])
  else
    match if connected then .ok () else env.connect with
    | .error _ => (connected, queue, [])
    | .ok () =>
      let (taken, rest) := drain env.clock 0 0 queue
      (true, rest, sendBatches env taken)

def visit (env : RoundEnvironment)
    (s : IrohRaftTransport M × List (ℕ × BufferedRaftMessage M)) (peer : ℕ) :
    IrohRaftTransport M × List (ℕ × BufferedRaftMessage M) :=
  match s.1.messageBuffer[peer]? with
  | none => s
  | some queue =>
    let (connected, rest, sent) :=
      processPeer (env.peer peer) (peer ∈ s.1.connections) queue
    (⟨s.1.messageBuffer.insert peer rest,
        if connected then s.1.connections.insert peer () else s.1.connections⟩,
      s.2 ++ sent.map (peer, ·))

def processMessageBatches (env : RoundEnvironment) (t : IrohRaftTransport M) :
    IrohRaftTransport M × List (ℕ × BufferedRaftMessage M) :=
  (env.order t.messageBuffer.keys).foldl (visit env) (t, [])

/-- The messages among the first ones of a queue that are not too old when they are looked
    at, the first of them as the `n`-th. -/
def young (clock : ℕ → ℕ) (n : ℕ) : List (BufferedRaftMessage M) → List (BufferedRaftMessage M)
  | [] => []
  | m :: ms => if isOld (clock n) m then young clock (n + 1) ms else m :: young clock (n + 1) ms

def ofPriority (priority : RaftMessagePriority) (ms : List (BufferedRaftMessage M)) :
    List (BufferedRaftMessage M) := ms.filter fun m => m.priority = priority

/-- Young messages are removed only if they are sent, the more urgent ones first and those of
    one priority in the order of the queue. -/
def Delivered (clock : ℕ → ℕ) (queue rest sent : List (BufferedRaftMessage M)) : Prop :=
  ∃ removed, queue = removed ++ rest ∧ (young clock 0 removed).Subperm sent ∧
    (sent.Pairwise fun m m' => m.priority.asU8 ≤ m'.priority.asU8) ∧
    ∀ priority, (ofPriority priority sent).Sublist (ofPriority priority (young clock 0 removed))

def AllSent (env : PeerRound) (taken : List (BufferedRaftMessage M)) : Prop :=
  ∀ priority k, k < (ofPriority priority taken).length → env.outcome priority k = .sent

/-- No send fails, and the map is gone through in the order of the priorities it holds. -/
structure InOrder (env : PeerRound) (taken : List (BufferedRaftMessage M)) : Prop where
  sent : AllSent env taken
  sorted : (env.order.filter fun priority => !(ofPriority priority taken).isEmpty).Pairwise
    fun p p' => p.asU8 ≤ p'.asU8

/-- There is no connection, or the messages taken are sent in order. -/
def Undisturbed (env : PeerRound) (connected : Bool) (queue : List (BufferedRaftMessage M)) :
    Prop :=
  (connected = false ∧ ∃ error, env.connect = .error error) ∨
    InOrder env (drain env.clock 0 0 queue).1

def sentTo (peer : ℕ) (sent : List (ℕ × BufferedRaftMessage M)) : List (BufferedRaftMessage M) :=
  (sent.filter fun x => x.1 = peer).map Prod.snd

/-! ## Buffering -/

/-- `pop_back` while the queue is too long. -/
def popBack (max : ℕ) (queue : List (BufferedRaftMessage M)) : List (BufferedRaftMessage M) :=
  if max < queue.length then popBack max queue.dropLast else queue
termination_by queue.length
decreasing_by
  simp only [List.length_dropLast]
  omega

def queueOf (t : IrohRaftTransport M) (peer : ℕ) : List (BufferedRaftMessage M) :=
  t.messageBuffer[peer]?.getD []

/-- The limit is read when the message is in the queue. -/
def bufferMessage (t : IrohRaftTransport M) (peer : ℕ) (message : M) (priority : RaftMessagePriority)
    (now : ℕ) (maxBuffered : Except BlixardError ℕ) :
    IrohRaftTransport M × Except BlixardError Unit :=
  let queue := Grouping.insertByKey (fun m => m.priority.asU8) (t.queueOf peer)
    ⟨message, priority, now⟩
  match maxBuffered with
  | .error e => ({ t with messageBuffer := t.messageBuffer.insert peer queue }, .error e)
  | .ok max => ({ t with messageBuffer := t.messageBuffer.insert peer (popBack max queue) }, .ok ())

theorem popBack_eq_take (max : ℕ) (queue : List (BufferedRaftMessage M)) :
    popBack max queue = queue.take max := by
  fun_induction popBack max queue with
  | case1 queue hlong ih => rw [ih, dropLast_eq_take, take_take, Nat.min_eq_left (by omega)]
  | case2 queue hs => rw [take_of_length_le (Nat.le_of_not_lt hs)]

def bufferAll (connections : Table ℕ Unit) (peer max : ℕ) (ms : List (BufferedRaftMessage M)) :
    IrohRaftTransport M :=
  ms.foldl (fun t m => (t.bufferMessage peer m.message m.priority m.timestamp (.ok max)).1)
    ⟨∅, connections⟩

variable (conns : Table ℕ Unit) (out : ℕ → SendOutcome) (clock : ℕ → ℕ)
  {rem rest : List (BufferedRaftMessage M)}

theorem queueOf_bufferAll_concat (peer max : ℕ)
    (ms : List (BufferedRaftMessage M)) (m : BufferedRaftMessage M) :
    (bufferAll conns peer max (ms ++ [m])).queueOf peer = (insertByKey (fun m => m.priority.asU8)
        ((bufferAll conns peer max ms).queueOf peer) m).take max := by
  simp [bufferAll, queueOf, bufferMessage, popBack_eq_take]

theorem pairwise_bufferAll (peer max : ℕ) (ms : List (BufferedRaftMessage M)) :
    ((bufferAll conns peer max ms).queueOf peer).Pairwise
      fun m m' => m.priority.asU8 ≤ m'.priority.asU8 := by
  induction ms using reverseRecOn with
  | nil => simp [bufferAll, queueOf]
  | append_singleton ms m ih =>
    rw [queueOf_bufferAll_concat]
    exact (pairwise_insertByKey ih m).sublist (take_sublist _ _)

theorem ofPriority_eq (prio : RaftMessagePriority) (ms : List (BufferedRaftMessage M)) :
    ofPriority prio ms = ms.filter fun m => m.priority.asU8 = prio.asU8 := by
  refine filter_congr fun m _ => ?_
  cases m.priority <;> cases prio <;> rfl

/-- **The queue of a peer** is sorted by priority, in order of arrival within one. With the next
    message it is what a stable sort has first, and one is dropped only for `max` that are as
    urgent. -/
theorem buffered_by_priority (connections : Table ℕ Unit) (peer max : ℕ)
    (ms : List (BufferedRaftMessage M)) :
    let queue := (bufferAll connections peer max ms).queueOf peer
    (queue.Pairwise fun m m' => m.priority.asU8 ≤ m'.priority.asU8) ∧
    (∀ priority, (ofPriority priority queue).Sublist (ofPriority priority ms)) ∧
    ∀ m, let sorted := (queue ++ [m]).mergeSort fun m m' => m.priority.asU8 ≤ m'.priority.asU8
      let queue' := (bufferAll connections peer max (ms ++ [m])).queueOf peer
      queue' = sorted.take max ∧ ∀ dropped ∈ sorted.drop max,
        max ≤ queue'.countP fun kept => kept.priority.asU8 ≤ dropped.priority.asU8 := by
  have hsorted := pairwise_bufferAll connections peer max ms
  refine ⟨hsorted, fun priority => ?_, fun m => ?_⟩
  · induction ms using List.reverseRecOn with
    | nil => simp [bufferAll, queueOf]
    | append_singleton ms m ih =>
      have hbefore := pairwise_bufferAll connections peer max ms
      rw [queueOf_bufferAll_concat]
      refine ((List.take_sublist _ _).filter _).trans ?_
      rw [ofPriority_eq, ofPriority_eq] at ih
      rw [← ofPriority, ofPriority_eq, Grouping.filter_insertByKey hbefore, ofPriority_eq,
        List.filter_append, List.filter_append]
      exact (ih hbefore).append_right _
  · have hnext : (bufferAll connections peer max (ms ++ [m])).queueOf peer = _ :=
      (queueOf_bufferAll_concat connections peer max ms m).trans
        (congrArg (List.take max) (Grouping.insertByKey_eq_mergeSort hsorted m))
    refine ⟨hnext, fun dropped hdropped => ?_⟩
    have hall := Grouping.pairwise_insertByKey hsorted m
    rw [Grouping.insertByKey_eq_mergeSort hsorted, ← List.take_append_drop max (List.mergeSort _ _),
      List.pairwise_append] at hall
    rw [hnext, List.countP_eq_length.2 fun kept hkept =>
      decide_eq_true (hall.2.2 kept hkept dropped hdropped), List.length_take]
    have hlong := List.length_pos_of_mem hdropped
    rw [List.length_drop] at hlong
    omega

/-! ## One peer -/

variable {env : PeerRound} {queue taken : List (BufferedRaftMessage M)}

theorem drain_spec (n count : ℕ) (queue : List (BufferedRaftMessage M)) :
    ∃ removed, queue = removed ++ (drain clock n count queue).2 ∧
      (drain clock n count queue).1 = young clock n removed := by
  induction queue generalizing n count with
  | nil => exact ⟨[], rfl, rfl⟩
  | cons m queue ih =>
    unfold drain
    by_cases hold : isOld (clock n) m = true
    · obtain ⟨removed, hq, ht⟩ := ih (n + 1) count
      refine ⟨m :: removed, ?_, ?_⟩
      · rw [if_pos hold, cons_append, ← hq]
      · rw [if_pos hold, young, if_pos hold, ht]
    by_cases hfull : 100 ≤ count + 1
    · refine ⟨[m], ?_, ?_⟩
      · rw [if_neg hold, if_pos hfull]
        rfl
      · rw [if_neg hold, if_pos hfull, young, if_neg hold]
        rfl
    obtain ⟨removed, hq, ht⟩ := ih (n + 1) (count + 1)
    refine ⟨m :: removed, ?_, ?_⟩
    · rw [if_neg hold, if_neg hfull]
      exact congrArg (m :: ·) hq
    · rw [if_neg hold, if_neg hfull, young, if_neg hold, ← ht]

theorem sendMessageBatch_beginning (k : ℕ)
    (batch : List (BufferedRaftMessage M)) : (sendMessageBatch out k batch).1 <+: batch := by
  induction batch generalizing k with
  | nil => exact prefix_rfl
  | cons m batch ih =>
    unfold sendMessageBatch
    cases (out k).result with
    | error => exact nil_prefix
    | ok => exact (prefix_cons_inj m).2 (ih (k + 1))

theorem result_eq_ok_iff {out : SendOutcome} : out.result = .ok () ↔ out = .sent := by
  cases out <;> simp [SendOutcome.result]

theorem sendMessageBatch_eq_iff (k : ℕ) (batch : List (BufferedRaftMessage M)) :
    (sendMessageBatch out k batch).1 = batch ↔
      ∀ n < batch.length, out (k + n) = .sent := by
  induction batch generalizing k with
  | nil => simp [sendMessageBatch]
  | cons m batch ih =>
    have hall : (∀ n < (m :: batch).length, out (k + n) = .sent) ↔
        out k = .sent ∧ ∀ n < batch.length, out (k + 1 + n) = .sent := by
      rw [length_cons, Nat.forall_lt_succ_left]
      simp only [Nat.add_zero, Nat.add_right_comm k 1, Nat.add_assoc]
    rw [hall, ← ih (k + 1), ← result_eq_ok_iff, sendMessageBatch]
    cases (out k).result with
    | error => simp
    | ok => simp

theorem ofPriority_sendBatches (env : PeerRound) (taken : List (BufferedRaftMessage M))
    (prio : RaftMessagePriority) : ofPriority prio (sendBatches env taken) =
      (sendMessageBatch (env.outcome prio) 0 (ofPriority prio taken)).1 := by
  have hg (p : RaftMessagePriority) (m : BufferedRaftMessage M)
      (hm : m ∈ (sendMessageBatch (env.outcome p) 0
        (groupBy BufferedRaftMessage.priority taken p)).1) : m.priority = p := by
    have hmem := (sendMessageBatch_beginning _ _ _).subset hm
    rw [groupBy_apply] at hmem
    simpa using (mem_filter.1 hmem).2
  rw [ofPriority, sendBatches, filter_flatMap env.nodup_order hg,
    if_pos (env.mem_order prio), groupBy_apply]
  rfl

theorem delivered_iff {clock : ℕ → ℕ} {queue sent : List (BufferedRaftMessage M)}
    (hq : queue = rem ++ rest) : Delivered clock queue rest sent ↔
      (young clock 0 rem).Subperm sent ∧
      (sent.Pairwise fun m m' => m.priority.asU8 ≤ m'.priority.asU8) ∧
      ∀ prio, (ofPriority prio sent).Sublist (ofPriority prio (young clock 0 rem)) := by
  constructor
  · rintro ⟨removed', hq', h⟩
    rwa [append_cancel_right (hq.symm.trans hq')]
  · exact fun h => ⟨rem, hq, h⟩

theorem allSent_iff : AllSent env taken ↔ ∀ prio,
    (sendMessageBatch (env.outcome prio) 0 (ofPriority prio taken)).1 = ofPriority prio taken := by
  refine forall_congr' fun prio => ?_
  rw [sendMessageBatch_eq_iff]
  simp only [Nat.zero_add]

theorem sendBatches_of_allSent (h : AllSent env taken) : sendBatches env taken =
    env.order.flatMap (groupBy BufferedRaftMessage.priority taken) := by
  refine flatMap_congr fun prio _ => ?_
  rw [groupBy_apply]
  exact allSent_iff.1 h prio

theorem subperm_sendBatches_iff : taken.Subperm (sendBatches env taken) ↔ AllSent env taken := by
  constructor
  · intro hs
    refine allSent_iff.2 fun prio => ?_
    have hlen := (hs.filter fun m => m.priority = prio).length_le
    rw [← ofPriority, ← ofPriority, ofPriority_sendBatches] at hlen
    exact (sendMessageBatch_beginning _ _ _).eq_of_length_le hlen
  intro hall
  rw [sendBatches_of_allSent hall]
  exact (flatMap_groupBy_perm env.nodup_order
    fun m _ => env.mem_order m.priority).symm.subperm

theorem pairwise_sendBatches_iff (h : AllSent env taken) :
    ((sendBatches env taken).Pairwise fun m m' => m.priority.asU8 ≤ m'.priority.asU8) ↔
      (env.order.filter fun prio => !(ofPriority prio taken).isEmpty).Pairwise
        fun p p' => p.asU8 ≤ p'.asU8 := by
  have hg (p : RaftMessagePriority) (m : BufferedRaftMessage M)
      (hm : m ∈ groupBy BufferedRaftMessage.priority taken p) : m.priority = p := by
    rw [groupBy_apply] at hm
    simpa using (mem_filter.1 hm).2
  rw [sendBatches_of_allSent h,
    pairwise_flatMap_iff (r := fun p p' => p.asU8 ≤ p'.asU8) (fun _ => le_rfl) hg]
  simp only [groupBy_apply, ofPriority]

/-- One queue is drained without loss and by priority exactly if no send fails and the map
    is gone through by priority. -/
theorem delivered_sendBatches_iff {clock : ℕ → ℕ}
    (hq : queue = rem ++ rest) (ht : taken = young clock 0 rem) :
    Delivered clock queue rest (sendBatches env taken) ↔ InOrder env taken := by
  rw [delivered_iff hq, ← ht, subperm_sendBatches_iff]
  constructor
  · rintro ⟨hsent, hs, -⟩
    exact ⟨hsent, (pairwise_sendBatches_iff hsent).1 hs⟩
  rintro ⟨hsent, hs⟩
  refine ⟨hsent, (pairwise_sendBatches_iff hsent).2 hs, fun prio => ?_⟩
  rw [ofPriority_sendBatches]
  exact (sendMessageBatch_beginning _ _ _).sublist

theorem delivered_nothing (queue : List (BufferedRaftMessage M)) : Delivered clock queue queue [] :=
  ⟨[], rfl, List.Subperm.refl _, .nil, fun _ => List.Sublist.refl _⟩

theorem delivered_processPeer_iff (env : PeerRound) (connected : Bool)
    (queue : List (BufferedRaftMessage M)) :
    Delivered env.clock queue (processPeer env connected queue).2.1
      (processPeer env connected queue).2.2 ↔ Undisturbed env connected queue := by
  unfold processPeer Undisturbed
  cases queue with
  | nil =>
    refine iff_of_true (delivered_nothing _ _) (.inr ⟨fun _ _ hk => ?_, ?_⟩)
    · cases hk
    · simp [drain, ofPriority]
  | cons m queue =>
    obtain ⟨removed, hq, ht⟩ := drain_spec env.clock 0 0 (m :: queue)
    have hd : Delivered env.clock (m :: queue) _ (sendBatches env _) ↔ InOrder env _ :=
      delivered_sendBatches_iff hq ht
    cases connected with
    | true => simpa using hd
    | false =>
      cases hc : env.connect with
      | ok => simpa [hc] using hd
      | error error => exact iff_of_true (delivered_nothing _ _) (.inl ⟨rfl, error, rfl⟩)

/-! ## All peers -/

variable {env : RoundEnvironment}
  {s : IrohRaftTransport M × List (ℕ × BufferedRaftMessage M)} {peer other : ℕ}

theorem sentTo_append (peer : ℕ) (sent more : List (ℕ × BufferedRaftMessage M)) :
    sentTo peer (sent ++ more) = sentTo peer sent ++ sentTo peer more := by
  simp [sentTo]

theorem sentTo_map (peer other : ℕ) (sent : List (BufferedRaftMessage M)) :
    sentTo peer (sent.map (other, ·)) = if other = peer then sent else [] := by
  unfold sentTo
  split_ifs with h
  · simp [filter_map, Function.comp_def, h]
  · simp [filter_map, Function.comp_def, h]

/-- What a round does for a peer depends on nothing else. -/
structure SameFor (peer : ℕ) (s s' : IrohRaftTransport M × List (ℕ × BufferedRaftMessage M)) :
    Prop where
  buffer : s'.1.messageBuffer[peer]? = s.1.messageBuffer[peer]?
  connected : peer ∈ s'.1.connections ↔ peer ∈ s.1.connections
  sent : sentTo peer s'.2 = sentTo peer s.2

theorem sameFor_visit (h : other ≠ peer) : SameFor peer s (visit env s other) := by
  unfold visit
  cases s.1.messageBuffer[other]? with
  | none => exact ⟨rfl, Iff.rfl, rfl⟩
  | some queue =>
    constructor
    · simp [Table.get_insert, h]
    · dsimp only
      split_ifs
      · simp [h]
      · rfl
    · simp [sentTo_append, sentTo_map, h]

theorem sameFor_foldl_visit {order : List ℕ} (h : peer ∉ order) :
    SameFor peer s (order.foldl (visit env) s) := by
  induction order generalizing s with
  | nil => exact ⟨rfl, Iff.rfl, rfl⟩
  | cons other order ih =>
    obtain ⟨hne, hrest⟩ := ne_and_not_mem_of_not_mem_cons h
    have hf : SameFor peer s (visit env s other) := sameFor_visit (Ne.symm hne)
    have hl := ih (s := visit env s other) hrest
    exact ⟨hl.buffer.trans hf.buffer, hl.connected.trans hf.connected,
      hl.sent.trans hf.sent⟩

theorem visit_self {queue : List (BufferedRaftMessage M)}
    (hq : s.1.messageBuffer[peer]? = some queue) :
    let r := processPeer (env.peer peer) (peer ∈ s.1.connections) queue
    (visit env s peer).1.messageBuffer[peer]? = some r.2.1 ∧
      sentTo peer (visit env s peer).2 = sentTo peer s.2 ++ r.2.2 := by
  unfold visit
  rw [hq]
  constructor
  · simp
  · rw [sentTo_append, sentTo_map, if_pos rfl]

theorem foldl_visit {order : List ℕ} (hn : order.Nodup) (hpeer : peer ∈ order)
    {queue : List (BufferedRaftMessage M)} (hq : s.1.messageBuffer[peer]? = some queue) :
    let r := processPeer (env.peer peer) (peer ∈ s.1.connections) queue
    (order.foldl (visit env) s).1.messageBuffer[peer]? = some r.2.1 ∧
      sentTo peer (order.foldl (visit env) s).2 = sentTo peer s.2 ++ r.2.2 := by
  induction order generalizing s with
  | nil => cases hpeer
  | cons other order ih =>
    obtain ⟨ht, hn⟩ := nodup_cons.1 hn
    rw [foldl_cons]
    by_cases ho : other = peer
    · subst ho
      have hl : SameFor other _ (order.foldl (visit env) (visit env s other)) :=
        sameFor_foldl_visit ht
      rw [hl.buffer, hl.sent]
      exact visit_self hq
    have hf : SameFor peer s (visit env s other) := sameFor_visit ho
    have hmem : peer ∈ order := (mem_cons.1 hpeer).resolve_left (Ne.symm ho)
    have hrest := ih hn hmem (hf.buffer.trans hq)
    simp only [hf.connected, hf.sent] at hrest
    exact hrest

/-- A round delivers what it takes from every queue, by priority and in order, exactly if it is
    undisturbed at every peer. -/
theorem round_delivered_iff (env : RoundEnvironment) (t : IrohRaftTransport M) :
    (∀ peer queue, t.messageBuffer[peer]? = some queue →
      ∃ rest, (processMessageBatches env t).1.messageBuffer[peer]? = some rest ∧
        Delivered (env.peer peer).clock queue rest (sentTo peer (processMessageBatches env t).2)) ↔
      ∀ peer queue, t.messageBuffer[peer]? = some queue →
        Undisturbed (env.peer peer) (peer ∈ t.connections) queue := by
  refine forall_congr' fun peer => forall_congr' fun queue => forall_congr' fun hqueue => ?_
  have hnodup : (env.order t.messageBuffer.keys).Nodup :=
    (env.perm _).nodup_iff.2 Std.ExtTreeMap.nodup_keys
  have hpeer : peer ∈ env.order t.messageBuffer.keys := by
    rw [(env.perm _).mem_iff, Std.ExtTreeMap.mem_keys, Table.mem_iff]
    exact ⟨queue, hqueue⟩
  obtain ⟨hrest, hsent⟩ := @foldl_visit M env (t, []) peer _ hnodup hpeer queue hqueue
  rw [← delivered_processPeer_iff, processMessageBatches, hrest, hsent]
  constructor
  · rintro ⟨rest, hsome, hdelivered⟩
    cases hsome
    exact hdelivered
  · exact fun h => ⟨_, rfl, h⟩

/-- A vote and a heartbeat, as `buffer_message` leaves them. -/
def electionFirst : List (BufferedRaftMessage ℕ) := [⟨1, .election, 0⟩, ⟨2, .heartbeat, 0⟩]

def onePeer : IrohRaftTransport ℕ := ⟨{(7, electionFirst)}, {(7, ())}⟩

def everywhere (order : List RaftMessagePriority)
    (perm : order.Perm [.election, .heartbeat, .logAppend, .snapshot])
    (outcome : SendOutcome) : RoundEnvironment :=
  ⟨id, fun _ => .rfl, fun _ => ⟨.ok (), fun _ => 0, order, perm, fun _ _ => outcome⟩⟩

def noStream : RoundEnvironment :=
  everywhere [.election, .heartbeat, .logAppend, .snapshot] .rfl (.openFailed "closed")

def heartbeatsFirst : RoundEnvironment :=
  everywhere [.heartbeat, .election, .logAppend, .snapshot] (.swap _ _ _) .sent

/-- Messages that cannot be sent are lost, and a heartbeat can be sent before a vote. -/
theorem failed_send_is_lost :
    ((processMessageBatches noStream onePeer).1.messageBuffer[7]? = some [] ∧
      (processMessageBatches noStream onePeer).2 = [] ∧
      ¬ Delivered (fun _ => 0) electionFirst []
        (sentTo 7 (processMessageBatches noStream onePeer).2)) ∧
    (processMessageBatches heartbeatsFirst onePeer).1.messageBuffer[7]? = some [] ∧
      sentTo 7 (processMessageBatches heartbeatsFirst onePeer).2 = electionFirst.reverse ∧
      ¬ Delivered (fun _ => 0) electionFirst []
        (sentTo 7 (processMessageBatches heartbeatsFirst onePeer).2) := by
  have hnone : (processMessageBatches noStream onePeer).2 = [] := by decide +kernel
  have hboth : sentTo 7 (processMessageBatches heartbeatsFirst onePeer).2 = electionFirst.reverse := by
    decide +kernel
  refine ⟨⟨by decide +kernel, hnone, fun h => ?_⟩, by decide +kernel, hboth, fun h => ?_⟩
  · obtain ⟨hsent, -⟩ := (delivered_iff (List.append_nil electionFirst).symm).1 h
    rw [hnone] at hsent
    exact absurd hsent.length_le (by decide)
  · obtain ⟨-, hsorted, -⟩ := (delivered_iff (List.append_nil electionFirst).symm).1 h
    rw [hboth] at hsorted
    exact absurd hsorted (by decide)

end IrohRaftTransport

end Blixard
