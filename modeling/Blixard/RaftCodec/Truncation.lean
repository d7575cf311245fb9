/-
  Truncated encodings (`raft_codec.rs`).

  A log entry is rejected wherever its encoding is cut, and no position outside the bytes is read.
  Of a membership state only the flag at the end can be missing, and then it reads as `false`.
-/
import Blixard.RaftCodec

namespace Blixard

open Bytes Failure List

/-! ## Positions -/

namespace Cursor

/-- `data[start..stop]`, which panics outside the bytes. -/
def slice (data : Bytes) (start stop : ℕ) : Except Failure Bytes :=
  if stop < start then .error (.panic s!"slice index starts at {start} but ends at {stop}")
  else if data.length < stop then .error (.panic
    s!"range end index {stop} out of range for slice of length {data.length}")
  else .ok ((data.drop start).take (stop - start))

def byteAt (data : Bytes) (i : ℕ) : Except Failure UInt8 :=
  match data[i]? with
  | none => .error (.panic
      s!"index out of bounds: the len is {data.length} but the index is {i}")
  | some b => .ok b

def ensure (enough : Bool) (operation source : String) : Except Failure Unit :=
  if enough then .ok () else .error (.error (.serialization operation source))

def deserializeEntry (data : Bytes) : Except Failure Entry := do
  ensure (26 ≤ data.length) "deserialize entry (Entry)" "insufficient data"
  let cursor := 0
  let index ← slice data cursor (cursor + 8)
  let cursor := cursor + 8
  let term ← slice data cursor (cursor + 8)
  let cursor := cursor + 8
  let entryType ← byteAt data cursor
  let cursor := cursor + 1
  ensure (cursor + 4 ≤ data.length) "deserialize entry (Entry)" "insufficient data for data length"
  let dataLen := ofLe (← slice data cursor (cursor + 4))
  let cursor := cursor + 4
  ensure (cursor + dataLen ≤ data.length) "deserialize entry (Entry)"
    s!"insufficient data for entry data: need {cursor + dataLen} bytes, have {data.length}"
  let entryData ← slice data cursor (cursor + dataLen)
  let cursor := cursor + dataLen
  ensure (cursor + 4 ≤ data.length) "deserialize entry" "insufficient data for context length"
  let contextLen := ofLe (← slice data cursor (cursor + 4))
  let cursor := cursor + 4
  ensure (cursor + contextLen ≤ data.length) "deserialize entry"
    s!"insufficient data for context: need {cursor + contextLen} bytes, have {data.length}"
  let context ← slice data cursor (cursor + contextLen)
  let cursor := cursor + contextLen
  ensure (cursor < data.length) "deserialize entry" "insufficient data for sync_log"
  let syncLog ← byteAt data cursor
  return { entryType := entryType.toNat, term := ofLe term, index := ofLe index,
           data := entryData, context, syncLog := syncLog.toNat ≠ 0 }

theorem slice_of_le {data : Bytes} {i w : ℕ} (h : i + w ≤ data.length) :
    slice data i (i + w) = .ok ((data.drop i).take w) := by
  rw [slice, if_neg (by omega), if_neg (by omega), Nat.add_sub_cancel_left]

theorem byteAt_of_lt {data : Bytes} {i : ℕ} (h : i < data.length) :
    byteAt data i = .ok data[i] := by
  rw [byteAt, getElem?_eq_getElem h]

variable {data : Bytes}

theorem takeBytes_drop {i w : ℕ} (hi : i ≤ data.length) :
    takeBytes w (data.drop i) = if i + w ≤ data.length then
      some ((data.drop i).take w, data.drop (i + w)) else none := by
  have hlen : (data.drop i).length = data.length - i := length_drop
  rw [takeBytes, drop_drop]
  split_ifs <;> first | rfl | omega

theorem takeLe_drop {data : Bytes} {i w : ℕ} (hi : i ≤ data.length) :
    takeLe w (data.drop i) = if i + w ≤ data.length then
      some (ofLe ((data.drop i).take w), data.drop (i + w)) else none := by
  rw [takeLe, takeBytes_drop hi]
  split_ifs <;> rfl

theorem ofLe_take_one {i : ℕ} (h : i < data.length) :
    ofLe ((data.drop i).take 1) = data[i].toNat := by
  rw [drop_eq_getElem_cons h, take_succ_cons, take_zero, ofLe, ofLe, mul_zero,
    add_zero]

/-- A check before a read is the failure of a read that finds too little. -/
theorem ensure_bind {α β : Type} {enough : Prop} [Decidable enough] {op src : String}
    {a : α} {f : Unit → Except Failure β} {g : α → Except BlixardError β}
    (h : enough → f () = (g a).mapError .error) : (ensure enough op src >>= f) =
      (need op src (if enough then some a else none) >>= g).mapError .error := by
  by_cases he : enough
  · rw [ensure, if_pos (decide_eq_true he), if_pos he]
    exact h he
  · rw [ensure, if_neg (by simpa using he), if_neg he]
    rfl

/-- The reader that goes through the bytes in order finds the same, without a position. -/
theorem deserializeEntry_eq (data : Bytes) :
    deserializeEntry data = (Blixard.deserializeEntry data).mapError .error := by
  unfold deserializeEntry Blixard.deserializeEntry
  by_cases hmin : data.length < 26
  · rw [if_pos hmin, ensure, if_neg (by simpa using hmin)]
    rfl
  have hind := @takeLe_drop data 0 8 (by omega)
  have hterm := @takeLe_drop data 8 8 (by omega)
  have htype := @takeLe_drop data 16 1 (by omega)
  rw [if_pos (by omega)] at hind hterm htype
  rw [if_neg hmin, ensure, if_pos (by simpa using hmin)]
  dsimp only
  rw [@slice_of_le data 0 8 (by omega), @slice_of_le data 8 8 (by omega),
    @byteAt_of_lt data 16 (by omega)]
  rw [drop_zero] at hind
  rw [hind]
  show _ = (need _ _ (takeLe 8 (data.drop 8)) >>= _).mapError error
  rw [hterm]
  show _ = (need _ _ (takeLe 1 (data.drop 16)) >>= _).mapError error
  rw [htype, ofLe_take_one (by omega)]
  show _ = (need _ _ (takeLe 4 (data.drop 17)) >>= _).mapError error
  rw [takeLe_drop (by omega)]
  refine ensure_bind fun _ => ?_
  rw [@slice_of_le data 17 4 (by omega)]
  show _ = (need _ _ (takeBytes (ofLe ((data.drop 17).take 4)) (data.drop 21)) >>= _).mapError
    error
  rw [takeBytes_drop (by omega)]
  refine ensure_bind fun hdata => ?_
  dsimp only
  rw [slice_of_le hdata]
  show _ = (need _ _ (takeLe 4 (data.drop _)) >>= _).mapError error
  rw [takeLe_drop hdata]
  refine ensure_bind fun hc => ?_
  dsimp only
  rw [slice_of_le hc]
  show _ = (need _ _ (takeBytes _ (data.drop _)) >>= _).mapError error
  rw [takeBytes_drop hc, show ∀ n m, 25 + n + m = 0 + 8 + 8 + 1 + 4 + n + 4 + m by omega]
  refine ensure_bind fun hcon => ?_
  dsimp only
  rw [slice_of_le hcon]
  show _ = (need _ _ (takeLe 1 (data.drop _)) >>= _).mapError error
  rw [takeLe_drop hcon]
  refine ensure_bind fun hflag => ?_
  dsimp only
  rw [byteAt_of_lt hflag, ofLe_take_one hflag]
  rfl

end Cursor

/-! ## Entries -/

variable {bs rest : Bytes} {cs : ConfState} {ids : List ℕ}

/-- What is read does not depend on what follows, and the bytes are long enough for it. -/
theorem deserializeEntry_append {e : Entry} (h : deserializeEntry bs = .ok e)
    (more : Bytes) : deserializeEntry (bs ++ more) = .ok e ∧
      26 + e.data.length + e.context.length ≤ bs.length := by
  obtain ⟨hmin, index, r1, term, r2, type, r3, dataLen, r4, data, r5, contextLen, r6, context, r7,
    flag, r8, h1, h2, h3, h4, h5, h6, h7, h8, rfl⟩ := deserializeEntry_ok h
  constructor
  · unfold deserializeEntry
    rw [if_neg (by rw [length_append]; omega)]
    simp only [takeLe_append_right h1, takeLe_append_right h2, takeLe_append_right h3,
      takeLe_append_right h4, takeBytes_append_right h5, takeLe_append_right h6,
      takeBytes_append_right h7, takeLe_append_right h8, need_some, bind, Except.bind, pure,
      Except.pure]
  · rw [length_of_takeLe h1, length_of_takeLe h2, length_of_takeLe h3, length_of_takeLe h4,
      length_of_takeBytes h5, length_of_takeLe h6, length_of_takeBytes h7, length_of_takeLe h8]
    show 26 + data.length + context.length ≤ _
    omega

/-- **The codec of log entries**: an entry that fits is read back, no strict prefix of its encoding
    is read as anything, and no byte string makes the reader leave it. -/
theorem entry_codec_exact {e : Entry} (h : e.Fits) :
    Cursor.deserializeEntry (serializeEntry e) = .ok e ∧
      (∀ pre, pre <+: serializeEntry e → pre ≠ serializeEntry e →
        ∃ error, Cursor.deserializeEntry pre = .error (.error error)) ∧
      ∀ bytes message, Cursor.deserializeEntry bytes ≠ .error (.panic message) := by
  have hwhole := deserializeEntry_serializeEntry h
  refine ⟨by rw [Cursor.deserializeEntry_eq, hwhole]; rfl, ?_, ?_⟩
  · rintro pre ⟨more, hmore⟩ hne
    rw [Cursor.deserializeEntry_eq]
    rcases hread : deserializeEntry pre with error | e'
    · exact ⟨error, rfl⟩
    -- the rest would be read as nothing, but the entry needs all bytes
    obtain ⟨happend, hlen⟩ := deserializeEntry_append hread more
    rw [hmore, hwhole] at happend
    cases happend
    have hcut := congrArg List.length hmore
    rw [List.length_append, length_serializeEntry] at hcut
    refine absurd ?_ hne
    rw [← hmore, List.length_eq_zero_iff.1 (show more.length = 0 by omega), List.append_nil]
  · intro bytes message hpanic
    rw [Cursor.deserializeEntry_eq] at hpanic
    rcases hread : deserializeEntry bytes with error | e' <;> rw [hread] at hpanic <;> cases hpanic

def someEntry : Entry := ⟨1, 2, 3, [7, 8], [9], true⟩

theorem entry_codec_someEntry : Cursor.deserializeEntry (serializeEntry someEntry) = .ok someEntry ∧
      ∃ error, Cursor.deserializeEntry ((serializeEntry someEntry).take 28) =
        .error (.error error) := by
  have hfits : someEntry.Fits := by decide +kernel
  exact ⟨(entry_codec_exact hfits).1,
    (entry_codec_exact hfits).2.1 _ (List.take_prefix 28 _) (by decide +kernel)⟩

/-! ## Membership states -/

theorem takeIds_append {src : String} {n : ℕ}
    (h : takeIds src n bs = .ok (ids, rest)) (more : Bytes) :
    takeIds src n (bs ++ more) = .ok (ids, rest ++ more) ∧
      bs.length = 8 * ids.length + rest.length := by
  induction n generalizing bs ids with
  | zero =>
    cases h
    exact ⟨rfl, by simp⟩
  | succ n ih =>
    obtain ⟨⟨id, r⟩, hid, h⟩ := bind_eq_ok h
    obtain ⟨⟨ids', rest'⟩, hids, h⟩ := bind_eq_ok h
    cases h
    replace hid := need_eq_ok hid
    obtain ⟨ha, hlen⟩ := ih hids
    constructor
    · rw [takeIds, takeLe_append_right hid]
      simp only [need_some, bind, Except.bind, ha]
      rfl
    · rw [length_of_takeLe hid, hlen, length_cons]
      omega

theorem deserializeIds_append {lengthSource idSource : String}
    (h : deserializeIds lengthSource idSource bs = .ok (ids, rest)) (more : Bytes) :
    deserializeIds lengthSource idSource (bs ++ more) = .ok (ids, rest ++ more) ∧
      bs.length = 4 + 8 * ids.length + rest.length := by
  obtain ⟨⟨n, r⟩, hn, h⟩ := bind_eq_ok h
  replace hn := need_eq_ok hn
  obtain ⟨ha, hlen⟩ := takeIds_append h more
  constructor
  · rw [deserializeIds, takeLe_append_right hn]
    exact ha
  · rw [length_of_takeLe hn, hlen]
    omega

def ConfState.idCount (cs : ConfState) : ℕ :=
  cs.voters.length + cs.learners.length + cs.votersOutgoing.length + cs.learnersNext.length

theorem length_serializeIds (ids : List ℕ) : (serializeIds ids).length = 4 + 8 * ids.length := by
  rw [serializeIds, length_append, length_leBytes]
  congr 1
  induction ids with
  | nil => rfl
  | cons i ids ih => rw [flatMap_cons, length_append, ih, length_leBytes,
      length_cons, mul_add, mul_one, add_comm]

theorem length_serializeConfState (cs : ConfState) :
    (serializeConfState cs).length = 17 + 8 * cs.idCount := by
  simp only [serializeConfState, flagByte, length_append, length_serializeIds,
    length_singleton, ConfState.idCount]
  omega

/-- More bytes can only change the flag. -/
theorem deserializeConfState_append (h : deserializeConfState bs = .ok cs) (more : Bytes) :
    (∃ autoLeave, deserializeConfState (bs ++ more) = .ok { cs with autoLeave }) ∧
      16 + 8 * cs.idCount ≤ bs.length := by
  unfold deserializeConfState at h
  split at h
  · cases h
  · next hmin =>
    obtain ⟨⟨vs, r1⟩, h1, h⟩ := bind_eq_ok h
    obtain ⟨⟨lns, r2⟩, h2, h⟩ := bind_eq_ok h
    obtain ⟨⟨votersOutgoing, r3⟩, h3, h⟩ := bind_eq_ok h
    obtain ⟨⟨learnersNext, r4⟩, h4, h⟩ := bind_eq_ok h
    cases h
    obtain ⟨hv, hlen1⟩ := deserializeIds_append h1 more
    obtain ⟨hl, hlen2⟩ := deserializeIds_append h2 more
    obtain ⟨ho, hlen3⟩ := deserializeIds_append h3 more
    obtain ⟨hnext, hlen4⟩ := deserializeIds_append h4 more
    constructor
    · refine ⟨ofLe ((r4 ++ more).take 1) ≠ 0, ?_⟩
      unfold deserializeConfState
      rw [if_neg (by rw [length_append]; omega)]
      simp only [hv, hl, ho, hnext, bind, Except.bind, pure, Except.pure]
    · simp only [ConfState.idCount]
      omega

/-- Without its last byte the encoding is read as the state that does not leave. -/
theorem deserializeConfState_cut (h : cs.Fits) {pre last : Bytes}
    (hpre : pre ++ last = serializeConfState cs) (hlast : last.length = 1) :
    deserializeConfState pre = .ok { cs with autoLeave := false } := by
  have hcut : pre = serializeIds cs.voters ++ (serializeIds cs.learners ++
      (serializeIds cs.votersOutgoing ++ (serializeIds cs.learnersNext ++ []))) := by
    rw [serializeConfState, ← append_assoc, ← append_assoc, ← append_assoc] at hpre
    rw [(append_inj' hpre hlast).1, append_nil, append_assoc, append_assoc]
  unfold deserializeConfState
  rw [if_neg (by simp only [hcut, length_append, length_serializeIds]; omega), hcut]
  simp only [deserializeIds_serializeIds _ _ h.voters, deserializeIds_serializeIds _ _ h.learners,
    deserializeIds_serializeIds _ _ h.votersOutgoing, deserializeIds_serializeIds _ _ h.learnersNext,
    bind, Except.bind, pure, Except.pure]
  rfl

/-- **The codec of membership states**: a state that fits is read back, and of the strict prefixes
    of its encoding exactly those are rejected that lack more than the flag. -/
theorem conf_state_codec_iff {cs : ConfState} (h : cs.Fits) :
    deserializeConfState (serializeConfState cs) = .ok cs ∧
      ∀ pre, pre <+: serializeConfState cs → pre ≠ serializeConfState cs →
        ((∃ error, deserializeConfState pre = .error error) ↔
          pre.length + 1 < (serializeConfState cs).length) := by
  have hwhole := deserializeConfState_serializeConfState h
  refine ⟨hwhole, ?_⟩
  rintro pre ⟨more, hmore⟩ hne
  have hlen := congrArg List.length hmore
  rw [List.length_append, length_serializeConfState] at hlen
  rw [length_serializeConfState]
  constructor
  · rintro ⟨error, herror⟩
    by_contra hlong
    have hmany : more ≠ [] := by
      rintro rfl
      exact hne (by rw [← hmore, List.append_nil])
    have hone : more.length = 1 := by
      have hpos := List.length_pos_iff.2 hmany
      omega
    rw [deserializeConfState_cut h hmore hone] at herror
    cases herror
  · intro hshort
    rcases hread : deserializeConfState pre with error | cs'
    · exact ⟨error, rfl⟩
    obtain ⟨⟨autoLeave, happend⟩, hcount⟩ := deserializeConfState_append hread more
    rw [hmore, hwhole] at happend
    cases happend
    simp only [ConfState.idCount] at hcount hlen hshort
    omega

/-- A membership change under way, with ids in all four lists. -/
def jointState : ConfState := ⟨[1, 2, 3], [4], [1, 2 ^ 63], [5, 6], true⟩

theorem conf_state_codec_jointState :
    deserializeConfState (serializeConfState jointState) = .ok jointState ∧
      ∃ error, deserializeConfState ((serializeConfState jointState).take 60) = .error error := by
  have hfits : jointState.Fits := by
    refine ⟨?_, ?_, ?_, ?_⟩ <;> exact ⟨by decide, by decide⟩
  exact ⟨(conf_state_codec_iff hfits).1, ((conf_state_codec_iff hfits).2 _
    (List.take_prefix 60 _) (by decide +kernel)).2 (by decide +kernel)⟩

/-- The state that leaves a joint configuration by itself, cut before its last byte. -/
theorem truncated_membership_accepted :
    ¬ ∀ cs : ConfState, cs.Fits → ∀ pre, pre <+: serializeConfState cs →
      pre ≠ serializeConfState cs → ∃ error, deserializeConfState pre = .error error := by
  intro h
  have hfits : ConfState.Fits { autoLeave := true } := by
    refine ⟨?_, ?_, ?_, ?_⟩ <;> exact ⟨by decide, by simp⟩
  obtain ⟨error, herror⟩ := h { autoLeave := true } hfits _ (List.take_prefix 16 _)
    (by decide +kernel)
  have hread : deserializeConfState ((serializeConfState { autoLeave := true }).take 16) =
      .ok {} := by decide +kernel
  rw [hread] at herror
  cases herror

end Blixard
