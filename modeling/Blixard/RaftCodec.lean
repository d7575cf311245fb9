/-
  Log entries, hard states and membership states of the Raft library, and the byte format the
  storage keeps them in (`raft_codec.rs`).

  The writers truncate; an encoding decodes to the value it was made from exactly when the value
  `Fits`.
-/
import Blixard.Error
import Blixard.Lib.Bytes

namespace Blixard

open Bytes List

/-! ## Values -/

inductive EntryType where
  | entryNormal | entryConfChange | entryConfChangeV2
  deriving DecidableEq

/-- A log entry.  The library keeps the entry type as a number (`i32`). -/
structure Entry where
  entryType : ℤ
  term : ℕ
  index : ℕ
  data : Bytes
  context : Bytes := []
  syncLog : Bool := false
  deriving DecidableEq

/-- `Entry::entry_type()`: unknown numbers read as the default, a normal entry. -/
def Entry.kind (e : Entry) : EntryType :=
  if e.entryType = 1 then .entryConfChange
  else if e.entryType = 2 then .entryConfChangeV2
  else .entryNormal

structure HardState where
  term : ℕ := 0
  vote : ℕ := 0
  commit : ℕ := 0

structure ConfState where
  voters : List ℕ := []
  learners : List ℕ := []
  votersOutgoing : List ℕ := []
  learnersNext : List ℕ := []
  autoLeave : Bool := false
  deriving DecidableEq

structure Entry.Fits (e : Entry) : Prop where
  type_nonneg : 0 ≤ e.entryType
  type_lt : e.entryType < 256
  term_lt : e.term < 2 ^ 64
  index_lt : e.index < 2 ^ 64
  data_lt : e.data.length < 2 ^ 32
  context_lt : e.context.length < 2 ^ 32

instance (e : Entry) : Decidable e.Fits :=
  decidable_of_iff (0 ≤ e.entryType ∧ e.entryType < 256 ∧ e.term < 2 ^ 64 ∧ e.index < 2 ^ 64 ∧
      e.data.length < 2 ^ 32 ∧ e.context.length < 2 ^ 32)
    ⟨fun ⟨h0, h1, h2, h3, h4, h5⟩ => ⟨h0, h1, h2, h3, h4, h5⟩,
      fun ⟨h0, h1, h2, h3, h4, h5⟩ => ⟨h0, h1, h2, h3, h4, h5⟩⟩

structure HardState.Fits (hs : HardState) : Prop where
  term_lt : hs.term < 2 ^ 64
  vote_lt : hs.vote < 2 ^ 64
  commit_lt : hs.commit < 2 ^ 64

def IdsFit (ids : List ℕ) : Prop := ids.length < 2 ^ 32 ∧ ∀ i ∈ ids, i < 2 ^ 64

structure ConfState.Fits (cs : ConfState) : Prop where
  voters : IdsFit cs.voters
  learners : IdsFit cs.learners
  votersOutgoing : IdsFit cs.votersOutgoing
  learnersNext : IdsFit cs.learnersNext

def flagByte (b : Bool) : Bytes := [if b then 1 else 0]

def serializeEntry (e : Entry) : Bytes :=
  leBytes 8 e.index ++ (leBytes 8 e.term ++ (leBytes 1 (e.entryType % 256).toNat ++
    (leBytes 4 e.data.length ++ (e.data ++ (leBytes 4 e.context.length ++ (e.context ++
      flagByte e.syncLog))))))

def serializeHardState (hs : HardState) : Bytes :=
  leBytes 8 hs.term ++ (leBytes 8 hs.vote ++ leBytes 8 hs.commit)

def serializeIds (ids : List ℕ) : Bytes := leBytes 4 ids.length ++ ids.flatMap (leBytes 8)

def serializeConfState (cs : ConfState) : Bytes :=
  serializeIds cs.voters ++ (serializeIds cs.learners ++ (serializeIds cs.votersOutgoing ++
    (serializeIds cs.learnersNext ++ flagByte cs.autoLeave)))

/-! ## Readers -/

def need {α : Type} (operation source : String) : Option α → Except BlixardError α
  | some a => .ok a
  | none => .error (.serialization operation source)

@[simp] theorem need_some {α : Type} (op src : String) (a : α) :
    need op src (some a) = .ok a := rfl

def deserializeEntry (data : Bytes) : Except BlixardError Entry := do
  -- 26 = 8 + 8 + 1 + 4 + 4 + 1, the shortest encoding
  if data.length < 26 then
    throw (.serialization "deserialize entry (Entry)" "insufficient data")
  let (index, rest) ← need "deserialize entry index (u64)" "could not convert slice to array"
    (takeLe 8 data)
  let (term, rest) ← need "deserialize entry term (u64)" "could not convert slice to array"
    (takeLe 8 rest)
  let (entryType, rest) ← need "deserialize entry (Entry)" "insufficient data" (takeLe 1 rest)
  let (dataLen, rest) ← need "deserialize entry (Entry)" "insufficient data for data length"
    (takeLe 4 rest)
  let (entryData, rest) ← need "deserialize entry (Entry)"
    s!"insufficient data for entry data: need {21 + dataLen} bytes, have {data.length}"
    (takeBytes dataLen rest)
  let (contextLen, rest) ← need "deserialize entry" "insufficient data for context length"
    (takeLe 4 rest)
  let (context, rest) ← need "deserialize entry"
    s!"insufficient data for context: need {25 + dataLen + contextLen} bytes, have {data.length}"
    (takeBytes contextLen rest)
  let (syncLog, _) ← need "deserialize entry" "insufficient data for sync_log" (takeLe 1 rest)
  return { entryType := entryType, term, index, data := entryData, context,
           syncLog := syncLog ≠ 0 }

def deserializeHardState (data : Bytes) : Except BlixardError HardState := do
  if data.length ≠ 24 then
    throw (.serialization "deserialize hard state" "invalid data length")
  let (term, rest) ← need "deserialize hard state" "failed to read term bytes" (takeLe 8 data)
  let (vote, rest) ← need "deserialize hard state" "failed to read vote bytes" (takeLe 8 rest)
  let (commit, _) ← need "deserialize hard state" "failed to read commit bytes" (takeLe 8 rest)
  return { term, vote, commit }

def takeIds (source : String) : ℕ → Bytes → Except BlixardError (List ℕ × Bytes)
  | 0, rest => .ok ([], rest)
  | n + 1, rest => do
    let (id, rest) ← need "deserialize conf state" source (takeLe 8 rest)
    let (ids, rest) ← takeIds source n rest
    return (id :: ids, rest)

def deserializeIds (lengthSource idSource : String) (rest : Bytes) :
    Except BlixardError (List ℕ × Bytes) := do
  let (n, rest) ← need "deserialize conf state" lengthSource (takeLe 4 rest)
  takeIds idSource n rest

def deserializeConfState (data : Bytes) : Except BlixardError ConfState := do
  if data.length < 16 then
    throw (.serialization "deserialize conf state" "insufficient data")
  let (voters, rest) ← deserializeIds "insufficient data for voters length"
    "insufficient data for voter" data
  let (learners, rest) ← deserializeIds "insufficient data for learners length"
    "insufficient data for learner" rest
  let (votersOutgoing, rest) ← deserializeIds "insufficient data for voters_outgoing length"
    "insufficient data for voter_outgoing" rest
  let (learnersNext, rest) ← deserializeIds "insufficient data for learners_next length"
    "insufficient data for learner_next" rest
  -- a missing flag byte reads as `false`
  return { voters, learners, votersOutgoing, learnersNext,
           autoLeave := ofLe (rest.take 1) ≠ 0 }

/-! ## Round trips -/

theorem takeLe_flagByte (b : Bool) : takeLe 1 (flagByte b) = some (if b then 1 else 0, []) := by
  cases b <;> rfl

theorem flag_ne_zero (b : Bool) : decide ((if b then 1 else 0 : ℕ) ≠ 0) = b := by
  cases b <;> rfl

theorem length_serializeEntry (e : Entry) :
    (serializeEntry e).length = 26 + e.data.length + e.context.length := by
  simp only [serializeEntry, flagByte, length_append, length_leBytes, length_cons,
    length_nil]
  omega

variable {bs : Bytes} {e : Entry}

theorem deserializeEntry_serializeEntry (h : e.Fits) :
    deserializeEntry (serializeEntry e) = .ok e := by
  obtain ⟨h0, h1, h2, h3, h4, h5⟩ := h
  have hlen : ¬ (serializeEntry e).length < 26 := by rw [length_serializeEntry]; omega
  have hty : ((e.entryType % 256).toNat : ℤ) = e.entryType := by omega
  have hty' : (e.entryType % 256).toNat < 256 ^ 1 := by omega
  unfold deserializeEntry
  rw [if_neg hlen]
  simp only [serializeEntry, takeLe_of_lt (w := 8) h2, takeLe_of_lt (w := 8) h3,
    takeLe_of_lt hty', takeLe_of_lt (w := 4) h4, takeLe_of_lt (w := 4) h5, takeBytes_append,
    takeLe_flagByte, need_some, bind, Except.bind, pure, Except.pure, hty, flag_ne_zero]

theorem need_eq_ok {α : Type} {op src : String} {r : Option α} {a : α}
    (h : need op src r = .ok a) : r = some a := by
  cases r with
  | none => cases h
  | some b => cases h; rfl

theorem deserializeEntry_ok (h : deserializeEntry bs = .ok e) :
    26 ≤ bs.length ∧ ∃ index r1 term r2 type r3 dataLen r4 data r5 contextLen r6 ctx r7 flag r8,
      takeLe 8 bs = some (index, r1) ∧ takeLe 8 r1 = some (term, r2) ∧
      takeLe 1 r2 = some (type, r3) ∧ takeLe 4 r3 = some (dataLen, r4) ∧
      takeBytes dataLen r4 = some (data, r5) ∧ takeLe 4 r5 = some (contextLen, r6) ∧
      takeBytes contextLen r6 = some (ctx, r7) ∧ takeLe 1 r7 = some (flag, r8) ∧
      e = ⟨type, term, index, data, ctx, flag ≠ 0⟩ := by
  unfold deserializeEntry at h
  split at h
  · cases h
  · next hmin =>
    obtain ⟨⟨index, r1⟩, h1, h⟩ := bind_eq_ok h
    obtain ⟨⟨term, r2⟩, h2, h⟩ := bind_eq_ok h
    obtain ⟨⟨type, r3⟩, h3, h⟩ := bind_eq_ok h
    obtain ⟨⟨dataLen, r4⟩, h4, h⟩ := bind_eq_ok h
    obtain ⟨⟨data, r5⟩, h5, h⟩ := bind_eq_ok h
    obtain ⟨⟨contextLen, r6⟩, h6, h⟩ := bind_eq_ok h
    obtain ⟨⟨ctx, r7⟩, h7, h⟩ := bind_eq_ok h
    obtain ⟨⟨flag, r8⟩, h8, h⟩ := bind_eq_ok h
    cases h
    exact ⟨Nat.not_lt.1 hmin, index, r1, term, r2, type, r3, dataLen, r4, data, r5, contextLen, r6,
      ctx, r7, flag, r8, need_eq_ok h1, need_eq_ok h2, need_eq_ok h3, need_eq_ok h4,
      need_eq_ok h5, need_eq_ok h6, need_eq_ok h7, need_eq_ok h8, rfl⟩

theorem deserializeEntry_fits (h : deserializeEntry bs = .ok e) : e.Fits := by
  obtain ⟨-, index, r1, term, r2, type, r3, dataLen, r4, data, r5, contextLen, r6, context, r7,
    flag, r8, h1, h2, h3, h4, h5, h6, h7, -, rfl⟩ := deserializeEntry_ok h
  have htype : type < 256 := takeLe_lt h3
  refine ⟨Int.natCast_nonneg _, ?_, takeLe_lt h2, takeLe_lt h1, ?_, ?_⟩
  · show (type : ℤ) < 256
    exact_mod_cast htype
  · exact (takeBytes_eq_some h5).2 ▸ takeLe_lt h4
  · exact (takeBytes_eq_some h7).2 ▸ takeLe_lt h6

theorem deserializeHardState_serializeHardState {hs : HardState} (h : hs.Fits) :
    deserializeHardState (serializeHardState hs) = .ok hs := by
  have hlen : ¬ (serializeHardState hs).length ≠ 24 := by
    simp only [serializeHardState, length_append, length_leBytes, ne_eq, not_true_eq_false,
      not_false_eq_true]
  have hlast := takeLe_of_lt (w := 8) h.commit_lt []
  rw [append_nil] at hlast
  unfold deserializeHardState
  rw [if_neg hlen]
  simp only [serializeHardState, takeLe_of_lt (w := 8) h.term_lt, takeLe_of_lt (w := 8) h.vote_lt,
    hlast, need_some, bind, Except.bind, pure, Except.pure]

theorem takeIds_flatMap (src : String) (ids : List ℕ) (ys : Bytes) (h : ∀ i ∈ ids, i < 2 ^ 64) :
    takeIds src ids.length (ids.flatMap (leBytes 8) ++ ys) = .ok (ids, ys) := by
  induction ids with
  | nil => rfl
  | cons i ids ih =>
    have hi : i < 256 ^ 8 := h i mem_cons_self
    rw [flatMap_cons, length_cons, takeIds, append_assoc, takeLe_of_lt hi]
    simp only [need_some, bind, Except.bind,
      ih fun j hj => h j (mem_cons_of_mem i hj)]
    rfl

theorem deserializeIds_serializeIds (lengthSource idSource : String) {ids : List ℕ}
    (h : IdsFit ids) (ys : Bytes) :
    deserializeIds lengthSource idSource (serializeIds ids ++ ys) = .ok (ids, ys) := by
  have hlen : ids.length < 256 ^ 4 := h.1
  simp only [deserializeIds, serializeIds, append_assoc, takeLe_of_lt hlen, need_some, bind,
    Except.bind, takeIds_flatMap idSource ids ys h.2]

theorem deserializeConfState_serializeConfState {cs : ConfState} (h : cs.Fits) :
    deserializeConfState (serializeConfState cs) = .ok cs := by
  have hlen : ¬ (serializeConfState cs).length < 16 := by
    simp only [serializeConfState, serializeIds, length_append, length_leBytes]
    omega
  have hflag : ofLe ((flagByte cs.autoLeave).take 1) = if cs.autoLeave then 1 else 0 := by
    cases cs.autoLeave <;> rfl
  unfold deserializeConfState
  rw [if_neg hlen]
  simp only [serializeConfState, deserializeIds_serializeIds _ _ h.voters,
    deserializeIds_serializeIds _ _ h.learners, deserializeIds_serializeIds _ _ h.votersOutgoing,
    deserializeIds_serializeIds _ _ h.learnersNext, bind, Except.bind, pure, Except.pure, hflag,
    flag_ne_zero]

end Blixard
