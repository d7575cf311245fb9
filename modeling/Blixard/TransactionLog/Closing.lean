/-
  Writes next to a close of the transaction log.

  A write that finds no file returns without an error, and a rotation does not look whether the
  log was closed (`acknowledged_iff`).  The error of a rotation names the file without the path
  of the directory.
-/
import Blixard.Lib.Calls
import Blixard.TransactionLog.Durability

namespace Blixard

open TransactionLog Calls List Table

/-! ## Types -/

structure SharedLog where
  dir : LogDir
  writer : TransactionLogWriter
  indexLocked : Bool

inductive WritePart where
  | entry | newline | flush | metadata

/-- How the calls of the file end; an error leaves a part of the line. -/
inductive WriteOutcome where
  | complete
  | failed (part : WritePart) (source : String) (reached : ℕ)

inductive LogCall (E : Type) where
  | notBegun
  /-- The line is in `file`, which has reached the rotation size. -/
  | rotating (entry : E) (file : String)
  /-- The next file is open. -/
  | opened (entry : E) (file next : String)
  /-- The write has returned; the line was for `file`, if there was one. -/
  | wrote (entry : E) (file : Option String) (result : Except BlixardError Unit)
  | closed (result : Except BlixardError Unit)

inductive LogStep (E : Type) where
  | write (entry : E) (outcome : WriteOutcome)
  /-- `rotate`, up to the opening of the next file. -/
  | openNext (failure : Option String)
  | install
  | close (failure : Option String)

def WritePart.operation : WritePart → String
  | entry => "write transaction entry"
  | newline => "write transaction newline"
  | flush => "flush transaction log"
  | metadata => "get transaction log metadata"

namespace LogCall

variable {E : Type}

def holdsFile : LogCall E → Bool
  | opened .. => true
  | _ => false

def isClosed : LogCall E → Bool
  | closed _ => true
  | _ => false

end LogCall

namespace SharedLog

variable {E : Type} (format : EntryFormat E)

/-! ## Steps -/

def line (entry : E) : List Char := format.toJson entry ++ ['\n']

def append (c : SharedLog) (file : String) (text : List Char) : SharedLog :=
  { c with dir := c.dir.insert file (c.dir[file]?.getD [] ++ text) }

def write (c : SharedLog) (entry : E) (outcome : WriteOutcome) : SharedLog × LogCall E :=
  match c.writer.currentFile with
  | none => (c, .wrote entry none (.ok ()))
  | some file =>
    match outcome with
    | .failed part source reached =>
      (c.append file ((line format entry).take reached),
        .wrote entry (some file) (.error (.storage part.operation source)))
    | .complete =>
      let c := c.append file (line format entry)
      if c.writer.rotationSize ≤ byteSize (c.dir[file]?.getD []) then (c, .rotating entry file)
      else (c, .wrote entry (some file) (.ok ()))

/-- `rotate` has the lock of the index, and keeps it if the next file is opened. -/
def openNext (c : SharedLog) (entry : E) (file : String) (failure : Option String) :
    SharedLog × LogCall E :=
  let next := fileName (c.writer.currentIndex + 1)
  let writer := { c.writer with currentIndex := c.writer.currentIndex + 1 }
  match failure with
  | some source =>
    ({ c with writer }, .wrote entry (some file)
      (.error (.storage s!"create new transaction log \"{next}\"" source)))
  | none => (⟨openFile c.dir next, writer, true⟩, .opened entry file next)

def install (c : SharedLog) (next : String) : SharedLog :=
  { c with writer := { c.writer with currentFile := some next }, indexLocked := false }

def close (c : SharedLog) (failure : Option String) : SharedLog × LogCall E :=
  ({ c with writer := TransactionLog.close c.writer },
    .closed (match c.writer.currentFile, failure with
      | some _, some source => .error (.storage "flush transaction log on close" source)
      | _, _ => .ok ()))

def act (c : SharedLog) : LogCall E → LogStep E → SharedLog × LogCall E
  | .notBegun, .write entry outcome => c.write format entry outcome
  | .rotating entry file, .openNext failure =>
    if c.indexLocked then (c, .rotating entry file) else c.openNext entry file failure
  | .opened entry file next, .install => (c.install next, .wrote entry (some file) (.ok ()))
  | .notBegun, .close failure => c.close failure
  | call, _ => (c, call)

theorem act_write (c : SharedLog) (hfree : c.indexLocked = false) (entry : E) :
    let r := [.write entry .complete, .openNext none, .install].foldl
      (fun r a => act format r.1 r.2 a) (c, .notBegun)
    (r.1.dir, r.1.writer) = TransactionLog.write format c.dir c.writer entry := by
  simp only [foldl, act, write, TransactionLog.write]
  cases c.writer.currentFile with
  | none => rfl
  | some file =>
    simp only [append, line, Std.ExtTreeMap.getElem?_insert_self, Option.getD_some]
    by_cases hfull : c.writer.rotationSize ≤
        byteSize (c.dir[file]?.getD [] ++ (format.toJson entry ++ ['\n']))
    · simp only [if_pos hfull, hfree, Bool.false_eq_true, if_false]
      rfl
    · simp only [if_neg hfull]

inductive Does (c : SharedLog) : LogStep E → LogCall E → SharedLog → LogCall E → Prop where
  | nothing {step call} : Does c step call c call
  | noFile {entry outcome} (h : c.writer.currentFile = none) :
    Does c (.write entry outcome) .notBegun c (.wrote entry none (.ok ()))
  | fail {entry outcome file} (h : c.writer.currentFile = some file) (text : List Char)
      (error : BlixardError) :
    Does c (.write entry outcome) .notBegun (c.append file text)
      (.wrote entry (some file) (.error error))
  | write {entry outcome file} (h : c.writer.currentFile = some file) :
    Does c (.write entry outcome) .notBegun (c.append file (line format entry))
      (.wrote entry (some file) (.ok ()))
  | full {entry outcome file} (h : c.writer.currentFile = some file) :
    Does c (.write entry outcome) .notBegun (c.append file (line format entry))
      (.rotating entry file)
  | noNext {entry file failure} (writer : TransactionLogWriter)
      (h : writer.currentFile = c.writer.currentFile) (error : BlixardError) :
    Does c (.openNext failure) (.rotating entry file) { c with writer }
      (.wrote entry (some file) (.error error))
  | opens {entry file} (writer : TransactionLogWriter)
      (h : writer.currentFile = c.writer.currentFile) (hfree : c.indexLocked = false)
      (next : String) :
    Does c (.openNext none) (.rotating entry file) ⟨openFile c.dir next, writer, true⟩
      (.opened entry file next)
  | install {entry file next} :
    Does c .install (.opened entry file next) (c.install next) (.wrote entry (some file) (.ok ()))
  | close {failure} (result : Except BlixardError Unit) :
    Does c (.close failure) .notBegun { c with writer := TransactionLog.close c.writer }
      (.closed result)

theorem does_write (c : SharedLog) (entry : E) (out : WriteOutcome) :
    Does format c (.write entry out) .notBegun (c.write format entry out).1
      (c.write format entry out).2 := by
  unfold SharedLog.write
  cases hfile : c.writer.currentFile with
  | none => exact .noFile hfile
  | some file =>
    cases out with
    | failed part src reached => exact .fail hfile _ _
    | complete =>
      dsimp only
      split_ifs
      · exact .full hfile
      · exact .write hfile

theorem does_act (c : SharedLog) (call : LogCall E) (step : LogStep E) :
    Does format c step call (c.act format call step).1 (c.act format call step).2 := by
  fun_cases act format c call step with
  | case1 entry out => exact does_write format c entry out
  | case3 entry file fail hfree =>
    let writer := { c.writer with currentIndex := c.writer.currentIndex + 1 }
    cases fail with
    | none => exact .opens writer rfl (Bool.eq_false_of_not_eq_true hfree) _
    | some src => exact .noNext writer rfl _
  | case4 => exact .install
  | case5 => exact .close _
  | case2 | case6 => exact .nothing

/-! ## Lines stay in their files -/

def Contains (dir : LogDir) (file : String) (entry : E) : Prop :=
  ∃ text, dir[file]? = some text ∧ line format entry <:+: text

def Grows (dir dir' : LogDir) : Prop :=
  ∀ (file : String) (text : List Char), dir[file]? = some text →
    ∃ text', dir'[file]? = some text' ∧ text <+: text'

variable {format} {c c' : SharedLog} {a : LogStep E} {call call' : LogCall E} {dir dir' : LogDir}

theorem Grows.refl (dir : LogDir) : Grows dir dir := fun _ text h => ⟨text, h, prefix_rfl⟩

theorem Contains.mono {file : String} {entry : E} (h : Contains format dir file entry)
    (hg : Grows dir dir') : Contains format dir' file entry := by
  obtain ⟨text, htext, hline⟩ := h
  obtain ⟨text', htext', hp⟩ := hg file text htext
  exact ⟨text', htext', hline.trans hp.isInfix⟩

theorem grows_append (c : SharedLog) (file : String) (text : List Char) :
    Grows c.dir (c.append file text).dir := by
  intro other old hold
  by_cases hfile : file = other
  · subst hfile
    refine ⟨old ++ text, ?_, prefix_append _ _⟩
    rw [append, get_insert, if_pos rfl, hold]
    rfl
  · refine ⟨old, ?_, prefix_rfl⟩
    rw [append, get_insert, if_neg hfile, hold]

theorem contains_append (c : SharedLog) (file : String) (entry : E) :
    Contains format (c.append file (line format entry)).dir file entry := by
  refine ⟨_, ?_, (suffix_append (c.dir[file]?.getD []) _).isInfix⟩
  rw [append, get_insert, if_pos rfl]

theorem grows_openFile (dir : LogDir) (name : String) : Grows dir (openFile dir name) := by
  intro file text htext
  refine ⟨text, ?_, prefix_rfl⟩
  unfold openFile
  split_ifs with hmem
  · exact htext
  have hne : name ≠ file := by
    rintro rfl
    exact hmem ((mem_iff dir name).2 ⟨text, htext⟩)
  rw [get_insert, if_neg hne, htext]

theorem grows_of_does (h : Does format c a call c' call') : Grows c.dir c'.dir := by
  cases h with
  | nothing | noFile | noNext | install | close => exact .refl _
  | fail | write | full => exact grows_append _ _ _
  | opens => exact grows_openFile _ _

theorem closed_of_does (h : Does format c a call c' call') (hc : call'.isClosed = true) :
    call.isClosed = true ∨
      c'.writer.currentFile = none ∧ call = .notBegun ∧ ∃ failure, a = .close failure := by
  cases h with
  | nothing => exact .inl hc
  | close => exact .inr ⟨rfl, rfl, _, rfl⟩
  | noFile | fail | write | full | noNext | opens | install => cases hc

theorem currentFile_of_does (h : Does format c a call c' call')
    (hnone : c.writer.currentFile = none) (hcall : call.holdsFile = false) :
    c'.writer.currentFile = none := by
  cases h with
  | nothing | noFile | fail | write | full => exact hnone
  | noNext _ hfile | opens _ hfile => exact hfile.trans hnone
  | install => cases hcall
  | close => rfl

theorem holdsFile_of_does (h : Does format c a call c' call') (hl : call'.holdsFile = true) :
    call.holdsFile = true ∨
      c.indexLocked = false ∧ a = .openNext none ∧ ∃ entry file, call = .rotating entry file := by
  cases h with
  | nothing => exact .inl hl
  | opens _ _ hfree => exact .inr ⟨hfree, rfl, _, _, rfl⟩
  | noFile | fail | write | full | noNext | install | close => cases hl

end SharedLog

/-! ## Acknowledged writes and closed logs -/

namespace LogCall

open SharedLog

variable {E : Type} (format : EntryFormat E)

def Appended (dir : LogDir) : LogCall E → Prop
  | rotating entry file | opened entry file _ => Contains format dir file entry
  | wrote entry file (.ok ()) => ∃ name, file = some name ∧ Contains format dir name entry
  | wrote _ _ (.error _) | notBegun | closed _ => True

variable {format} {dir dir' : LogDir}

theorem Appended.mono {call : LogCall E} (h : call.Appended format dir) (hg : Grows dir dir') :
    call.Appended format dir' := by
  cases call with
  | rotating | opened => exact Contains.mono h hg
  | wrote entry file res =>
    cases res with
    | error => trivial
    | ok =>
      obtain ⟨name, hname, hc⟩ := h
      exact ⟨name, hname, hc.mono hg⟩
  | notBegun | closed => trivial

end LogCall

abbrev LogSystem (E : Type) := Calls.System SharedLog (LogCall E)

namespace LogSystem

open SharedLog LogCall

variable {E : Type} (format : EntryFormat E)

def step : LogSystem E → ℕ × LogStep E → LogSystem E := Calls.System.step (act format)

/-- A write that has returned without an error has its line in a file, and after a close no
    file is open. -/
structure Right (s : LogSystem E) : Prop where
  acknowledged : ∀ i entry file, s.calls i = .wrote entry file (.ok ()) →
    ∃ name, file = some name ∧ Contains format s.shared.dir name entry
  closed : ∀ i, (s.calls i).isClosed = true →
    s.shared.writer.currentFile = none ∧ ∀ j, (s.calls j).holdsFile = false

/-- A write finds a file, a file is opened before the log is closed, and that happens while no call
    has a file that is not yet installed. -/
def InTime (s : LogSystem E) (x : ℕ × LogStep E) : Prop :=
  match s.calls x.1, x.2 with
  | .notBegun, .write _ _ => s.shared.writer.currentFile.isSome
  | .rotating _ _, .openNext none =>
    s.shared.indexLocked = false → ∀ j, (s.calls j).isClosed = false
  | .notBegun, .close _ => ∀ j, (s.calls j).holdsFile = false
  | _, _ => True

/-- The invariant: also the lines of writes that are rotating are in their files. -/
structure Sound (s : LogSystem E) : Prop where
  appended : ∀ i, (s.calls i).Appended format s.shared.dir
  closed : ∀ i, (s.calls i).isClosed = true →
    s.shared.writer.currentFile = none ∧ ∀ j, (s.calls j).holdsFile = false

variable {format} {s : LogSystem E} {i : ℕ} {a : LogStep E}

theorem Sound.right (h : Sound format s) : Right format s where
  acknowledged i entry file hcall := by
    have ha := h.appended i
    rw [hcall] at ha
    exact ha
  closed := h.closed

theorem sound_start (c : SharedLog) : Sound (E := E) format (.start c .notBegun) where
  appended _ := trivial
  closed _ h := (Bool.false_ne_true h).elim

theorem appended_step (h : Sound format s) (hint : InTime s (i, a)) (j : ℕ) :
    ((s.step format (i, a)).calls j).Appended format (s.step format (i, a)).shared.dir := by
  have hdoes := does_act format s.shared (s.calls i) a
  have hpre := h.appended i
  refine forall_calls_put (P := fun _ call => Appended format _ call) ?_
    (fun j _ => (h.appended j).mono (grows_of_does hdoes)) j
  simp only [InTime] at hint
  generalize act format s.shared (s.calls i) a = r at hdoes ⊢
  obtain ⟨c', call'⟩ := r
  generalize s.calls i = call at hdoes hpre hint
  dsimp only at hdoes ⊢
  cases hdoes with
  | nothing => exact hpre
  | noFile hnone =>
    rw [hnone] at hint
    cases hint
  | write => exact ⟨_, rfl, contains_append ..⟩
  | full => exact contains_append ..
  | opens => exact Contains.mono hpre (grows_openFile _ _)
  | install => exact ⟨_, rfl, hpre⟩
  | fail | noNext | close => trivial

theorem closed_step (h : Sound format s) (hi : InTime s (i, a)) (j : ℕ)
    (hc : ((s.step format (i, a)).calls j).isClosed = true) :
    (s.step format (i, a)).shared.writer.currentFile = none ∧
      ∀ k, ((s.step format (i, a)).calls k).holdsFile = false := by
  have hdoes := does_act format s.shared (s.calls i) a
  by_cases hb : ∃ k, (s.calls k).isClosed = true
  · obtain ⟨k, hk⟩ := hb
    obtain ⟨hfile, hnone⟩ := h.closed k hk
    refine ⟨currentFile_of_does hdoes hfile (hnone i),
      forall_calls_put (P := fun _ (call : LogCall E) => call.holdsFile = false) ?_
        fun k _ => hnone k⟩
    refine Bool.eq_false_of_not_eq_true fun hl => ?_
    rcases holdsFile_of_does hdoes hl with hheld | ⟨hfree, rfl, entry, file, hcall⟩
    · exact absurd (hnone i) (by simp [hheld])
    · simp only [InTime, hcall] at hi
      exact absurd (hi hfree k) (by simp [hk])
  · -- the close is the step itself
    have hself : j = i := by
      by_contra hj
      rw [step, step_calls_of_ne hj] at hc
      exact hb ⟨j, hc⟩
    subst hself
    rw [step, step_calls_self] at hc
    rcases closed_of_does hdoes hc with hc | ⟨hfile, hcall, failure, rfl⟩
    · exact absurd ⟨j, hc⟩ hb
    simp only [InTime, hcall] at hi
    refine ⟨hfile, forall_calls_put
      (P := fun _ (call : LogCall E) => call.holdsFile = false) ?_ fun k _ => hi k⟩
    rw [hcall]
    rfl

theorem sound_step (h : Sound format s) (hint : InTime s (i, a)) :
    Sound format (s.step format (i, a)) :=
  ⟨appended_step h hint, closed_step h hint⟩

theorem not_right_step (hlate : ¬ InTime s (i, a)) : ¬ Right format (s.step format (i, a)) := by
  intro hr
  have hself : (s.step format (i, a)).calls i = (act format s.shared (s.calls i) a).2 :=
    step_calls_self
  have ho {j : ℕ} (hj : j ≠ i) : (s.step format (i, a)).calls j = s.calls j :=
    step_calls_of_ne hj
  unfold InTime at hlate
  split at hlate
  case h_1 entry outcome hcall ha =>
    dsimp only at hcall ha
    subst ha
    have hnone : s.shared.writer.currentFile = none := by simpa using hlate
    rw [hcall, act, SharedLog.write, hnone] at hself
    obtain ⟨name, hname, -⟩ := hr.acknowledged i entry none hself
    cases hname
  case h_2 entry file hcall ha =>
    dsimp only at hcall ha
    subst ha
    obtain ⟨hfree, hc⟩ := Classical.not_imp.1 hlate
    obtain ⟨j, hj⟩ : ∃ j, (s.calls j).isClosed = true := by simpa using hc
    have hne : j ≠ i := by
      rintro rfl
      rw [hcall] at hj
      cases hj
    have hnone := (hr.closed j (by rw [ho hne, hj])).2 i
    rw [hself, hcall, act, hfree] at hnone
    cases hnone
  case h_3 failure hcall ha =>
    dsimp only at hcall ha
    subst ha
    obtain ⟨j, hj⟩ : ∃ j, (s.calls j).holdsFile = true := by simpa using hlate
    have hne : j ≠ i := by
      rintro rfl
      rw [hcall] at hj
      cases hj
    have hnone := (hr.closed i (by rw [hself, hcall]; rfl)).2 j
    rw [ho hne, hj] at hnone
    cases hnone
  case h_4 => exact hlate trivial

/-- **Writes are acknowledged, and a closed log stays closed, exactly if every call comes in
    time.** -/
theorem acknowledged_iff (format : EntryFormat E) (c : SharedLog) (run : List (ℕ × LogStep E)) :
    (∀ s ∈ run.scanl (step format) (.start c .notBegun), Right format s) ↔
      Run.Along (step format) InTime (.start c .notBegun) run :=
  Run.holds_iff_along (fun s _ (hs : Sound format s) hx => sound_step hs hx)
    (fun _ hs => hs.right) (fun _ _ _ => not_right_step) (sound_start c)

def smallFiles : SharedLog :=
  ⟨openFile ∅ (fileName 1), ⟨some (fileName 1), 1, 0⟩, false⟩

def writeLast (entry : E) : List (ℕ × LogStep E) := [(0, .close none), (1, .write entry .complete)]

/-- The log is closed between the write and the rotation. -/
def rotateLast (entry : E) : List (ℕ × LogStep E) :=
  [(0, .write entry .complete), (1, .close none), (0, .openNext none), (0, .install)]

/-- A write to a closed log returns without an error and without a line, and a rotation after
    a close opens a file. -/
theorem close_in_between :
    (∃ s ∈ (writeLast 3).scanl (step LogRun.indexFormat) (.start smallFiles .notBegun),
      s.calls 1 = .wrote 3 none (.ok ()) ∧ s.shared.dir = smallFiles.dir ∧
        ¬ Right LogRun.indexFormat s) ∧
    ∃ s ∈ (rotateLast 3).scanl (step LogRun.indexFormat) (.start smallFiles .notBegun),
      s.calls 1 = .closed (.ok ()) ∧ s.shared.writer.currentFile = some (fileName 2) ∧
        ¬ Right LogRun.indexFormat s := by
  refine ⟨⟨_, Run.foldl_mem_scanl _ _, rfl, rfl, fun h => ?_⟩,
    ⟨_, Run.foldl_mem_scanl _ _, rfl, rfl, fun h => ?_⟩⟩
  · obtain ⟨name, hname, -⟩ := h.acknowledged 1 3 none rfl
    cases hname
  · obtain ⟨hfile, -⟩ := h.closed 1 rfl
    cases hfile

end LogSystem

end Blixard
