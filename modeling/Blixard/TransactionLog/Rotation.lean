/-
  Rotations of the transaction log.

  The first writer of a directory opens file 1 with the index 0, so that its first rotation opens
  the same file again (`first_rotation`).
-/
import Blixard.TransactionLog.Durability

namespace Blixard

open Text TransactionLog Run Function

namespace LogRun

variable {E : Type} (format : EntryFormat E)

def rotates (s : LogRun E) : LogEvent E → Bool
  | .write entry => s.writer.currentFile.any fun file =>
    s.writer.rotationSize ≤ byteSize (s.dir[file]?.getD [] ++ (format.toJson entry ++ ['\n']))
  | .restart _ _ | .close => false

/-- A rotation goes on to a file whose name is behind all that are there. -/
def NewFile (s : LogRun E) (event : LogEvent E) : Prop :=
  s.rotates format event → ∃ file, (s.step format event).writer.currentFile = some file ∧
    ∀ name ∈ s.dir, name < file

/-- A rotation is not from the index 0, with which the first writer begins, and the next number has
    five digits. -/
def Numbered (s : LogRun E) (event : LogEvent E) : Prop :=
  s.rotates format event → 1 ≤ s.writer.currentIndex ∧ s.writer.currentIndex + 1 < 10 ^ 5

instance (s : LogRun E) (event : LogEvent E) : Decidable (s.Numbered format event) :=
  inferInstanceAs (Decidable (_ → _))

def Sized (size : ℕ) (_ : LogRun E) : LogEvent E → Prop
  | .restart _ rotationSize => rotationSize = size
  | .write _ | .close => True

/-- There are no lines, or they are too short for a rotation. -/
def Below (size : ℕ) (entries : List E) : Prop :=
  entries = [] ∨ byteSize (textOf format entries) < size

/-- The open file is the last one, and the lines of a file but its last one are short. -/
structure Growing (size : ℕ) (s : LogRun E) (segment : ℕ → List E) (k : ℕ) : Prop where
  files : Files format s.dir segment k
  last_lt : k < 10 ^ 5
  later : ∀ n, k < n → segment n = []
  full : ∀ n, Below format size (segment n).dropLast
  last : Below format size (segment k)
  current : ∀ file, s.writer.currentFile = some file →
    file = fileName k ∧ max 1 s.writer.currentIndex = k ∧ s.writer.rotationSize = size

variable {format} {size k : ℕ} {s : LogRun E} {segment : ℕ → List E}

theorem growing_restart (h : Growing format size s segment k) (ls : Listing) :
    Growing format size (s.step format (.restart ls size)) segment (max 1 k) := by
  have hlt := h.last_lt
  have hmin : min k (10 ^ 5 - 1) = k := by omega
  simp only [step, newWriter, findLatestLog_eq h.files hlt.le ls, Except.map, hmin]
  refine ⟨?_, by omega, fun n hn => h.later n (by omega), h.full, ?_, fun file hcur => ?_⟩
  · have hopen := h.files.openFile (n := max 1 k) (by omega) (by omega) fun hnew => h.later _ hnew
    rwa [Nat.max_eq_right (Nat.le_max_right 1 k)] at hopen
  · rcases Nat.eq_zero_or_pos k with rfl | hpos
    · exact .inl (h.later _ (by omega))
    · rw [Nat.max_eq_right hpos]
      exact h.last
  · simp only [Option.some.injEq] at hcur
    exact ⟨hcur.symm, rfl, rfl⟩

theorem growing_write (h : Growing format size s segment k) (entry : E)
    (hnum : s.Numbered format (.write entry)) :
    ∃ seg k', Growing format size (s.step format (.write entry)) seg k' := by
  rcases hfile : s.writer.currentFile with _ | file
  · refine ⟨segment, k, ?_⟩
    simp only [step, TransactionLog.write, hfile]
    exact ⟨h.files, h.last_lt, h.later, h.full, h.last, h.current⟩
  obtain ⟨rfl, hk, hsize⟩ := h.current file hfile
  have hpos : 1 ≤ k := by omega
  have hf := h.files.append hpos le_rfl entry
  have hl : ∀ n, k < n → update segment k (segment k ++ [entry]) n = [] := by
    intro n hn
    rw [update_of_ne (by omega), h.later n hn]
  have hfull : ∀ n, Below format size
      (update segment k (segment k ++ [entry]) n).dropLast := by
    intro n
    by_cases hn : n = k
    · rw [hn, update_self, List.dropLast_concat]
      exact h.last
    · rw [update_of_ne hn]
      exact h.full n
  simp only [Numbered, rotates, hfile, Option.any_some, decide_eq_true_eq] at hnum
  simp only [step, TransactionLog.write, hfile]
  split_ifs with hrot
  · obtain ⟨hone, hlt⟩ := hnum hrot
    obtain rfl : s.writer.currentIndex = k := by omega
    refine ⟨_, s.writer.currentIndex + 1, ?_, hlt, fun n hn => hl n (by omega), hfull,
      .inl (hl _ (Nat.lt_succ_self _)), fun file hcur => ?_⟩
    · have hopen := hf.openFile (n := s.writer.currentIndex + 1) (by omega) le_rfl
        fun hnew => hl _ hnew
      rwa [Nat.max_eq_right (Nat.le_succ _)] at hopen
    · simp only [rotate, Option.some.injEq] at hcur
      exact ⟨hcur.symm, by simp [rotate], hsize⟩
  · refine ⟨_, k, hf, h.last_lt, hl, hfull, .inr ?_, fun file hcur => ?_⟩
    · rw [h.files.file k hpos le_rfl, hsize] at hrot
      rw [update_self, textOf_append]
      simpa [textOf] using hrot
    · rw [hfile] at hcur
      exact ⟨(Option.some.inj hcur).symm, hk, hsize⟩

theorem growing_step (s : LogRun E) (event : LogEvent E)
    (h : ∃ seg k, Growing format size s seg k) (he : s.Sized size event)
    (hnum : s.Numbered format event) : ∃ seg k, Growing format size (s.step format event) seg k := by
  obtain ⟨seg, k, h⟩ := h
  cases event with
  | write entry => exact growing_write h entry hnum
  | restart ls rotationSize =>
    cases he
    exact ⟨seg, _, growing_restart h ls⟩
  | close => exact ⟨seg, k, h.files, h.last_lt, h.later, h.full, h.last, fun _ hcur => by cases hcur⟩

theorem newFile_iff (s : LogRun E) (event : LogEvent E) (h : ∃ seg k, Growing format size s seg k) :
    s.NewFile format event ↔ s.Numbered format event := by
  obtain ⟨seg, k, h⟩ := h
  refine forall_congr' fun hrot => ?_
  rcases event with entry | _ | _
  · rcases hfile : s.writer.currentFile with _ | file
    · simp [rotates, hfile] at hrot
    obtain ⟨rfl, hk, hsize⟩ := h.current file hfile
    have hlt := h.last_lt
    simp only [rotates, hfile, Option.any_some, decide_eq_true_eq] at hrot
    simp only [step, TransactionLog.write, hfile, if_pos hrot, rotate, Option.some.injEq,
      exists_eq_left']
    constructor
    · intro hnew
      have hlast := hnew _ (h.files.mem_iff.2 ⟨k, by omega, le_rfl, rfl⟩)
      rcases Nat.eq_zero_or_pos s.writer.currentIndex with hzero | hpos
      · rw [hzero, show k = 1 by omega] at hlast
        exact absurd hlast (lt_irrefl _)
      · refine ⟨hpos, Nat.lt_of_not_le fun hmany => ?_⟩
        rw [show k = 99999 by omega, show s.writer.currentIndex + 1 = 100000 by omega] at hlast
        exact absurd hlast (by decide +kernel)
    · rintro ⟨hpos, hnext⟩ name hname
      obtain ⟨n, -, hn, rfl⟩ := h.files.only name hname
      exact fileName_lt_fileName (by omega) hnext
  · cases hrot
  · cases hrot

theorem growing_start : Growing format size (start : LogRun E) (fun _ => []) 0 :=
  ⟨segmented_start.files, by omega, fun _ _ => rfl, fun _ => .inl rfl, .inl rfl,
    fun _ hcur => by cases hcur⟩

/-- **Rotations** all go on to a new last file exactly if none is from the index 0 or to a number
    of six digits, and then no file gets a line after it is full. -/
theorem rotation_iff (format : EntryFormat E) (size : ℕ) (events : List (LogEvent E))
    (hsize : Along (step format) (Sized size) start events) :
    (Along (step format) (NewFile format) start events ↔
      Along (step format) (Numbered format) start events) ∧
    (Along (step format) (Numbered format) start events →
      ∀ s ∈ events.scanl (step format) start, ∀ (name : String) (entries : List E) (entry : E),
        s.dir[name]? = some (textOf format (entries ++ [entry])) → Below format size entries) := by
  have hstart : ∃ seg k, Growing format size (start : LogRun E) seg k := ⟨_, 0, growing_start⟩
  refine ⟨⟨fun hnew => ?_, fun hnum => ?_⟩, fun hnum s hs name entries entry htext => ?_⟩
  · exact along_of_invariant
      (fun s event h hC => growing_step s event h hC.1 ((newFile_iff s event h).1 hC.2))
      (fun s event h hC => (newFile_iff s event h).1 hC.2) hstart (along_and hsize hnew)
  · exact along_of_invariant (fun s event h hC => growing_step s event h hC.1 hC.2)
      (fun s event h hC => (newFile_iff s event h).2 hC.2) hstart (along_and hsize hnum)
  obtain ⟨seg, k, h⟩ := invariant (fun s event h hC => growing_step s event h hC.1 hC.2) hstart
    (along_and hsize hnum) s hs
  obtain ⟨n, hpos, hn, rfl⟩ := h.files.only name ((Table.mem_iff _ _).2 ⟨_, htext⟩)
  have hseg := @parseText_textOf E format (seg n)
  rw [Option.some.inj ((h.files.file n hpos hn).symm.trans htext), parseText_textOf] at hseg
  have hfull := h.full n
  rwa [← hseg, List.dropLast_concat] at hfull

def restarted : List (LogEvent ℕ) :=
  [.restart byName 40, .write 3, .restart byName 40, .write 4, .write 5, .write 6]

theorem rotation_restarted : Along (step indexFormat) (NewFile indexFormat) start restarted ∧
      ∀ s ∈ restarted.scanl (step indexFormat) start, ∀ (name : String) (entries : List ℕ)
        (entry : ℕ), s.dir[name]? = some (textOf indexFormat (entries ++ [entry])) →
          Below indexFormat 40 entries := by
  have hnum : Along (step indexFormat) (Numbered indexFormat) start restarted := by decide +kernel
  have hrot := rotation_iff indexFormat 40 restarted (by simp [restarted, Along, Sized])
  exact ⟨hrot.1.2 hnum, hrot.2 hnum⟩

/-- The first transaction fills file 1, and the rotation opens it again. -/
theorem first_rotation : ¬ Along (step indexFormat) (NewFile indexFormat) start
    [.restart byName 1, .write 3] := by
  rintro ⟨-, hnew, -⟩
  obtain ⟨file, hfile, hlast⟩ := hnew (by decide +kernel)
  have hcur : (start.step indexFormat (.restart byName 1) |>.step indexFormat
    (.write 3)).writer.currentFile = some (fileName 1) := by decide +kernel
  cases hfile.symm.trans hcur
  exact absurd (hlast (fileName 1) (by decide +kernel)) (lt_irrefl _)

end LogRun

end Blixard
