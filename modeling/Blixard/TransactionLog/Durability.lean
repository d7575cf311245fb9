/-
  Durability of the transaction log.

  The reader gives back what one writer after another has written, in that order, as long as
  every file has a number of five digits (`read_along`): `txn-100000.log` comes before
  `txn-10001.log`.
-/
import Blixard.Lib.Run
import Blixard.TransactionLog
import Mathlib.Data.List.Flatten

namespace Blixard

open Function Std.ExtTreeMap Text TransactionLog
open List hiding rotate

structure LogRun (E : Type) where
  dir : LogDir
  writer : TransactionLogWriter
  written : List E

inductive LogEvent (E : Type) where
  | write (entry : E)
  | restart (listing : Listing) (rotationSize : ℕ)
  | close

namespace LogRun

variable {E : Type} (format : EntryFormat E)

def start : LogRun E := ⟨∅, ⟨none, 0, 0⟩, []⟩

def step (s : LogRun E) : LogEvent E → LogRun E
  | .write entry =>
    let result := TransactionLog.write format s.dir s.writer entry
    ⟨result.1, result.2, s.written ++ [entry]⟩
  | .restart listing rotationSize =>
    match newWriter listing rotationSize s.dir with
    | .ok (dir, writer) => ⟨dir, writer, s.written⟩
    | .error _ => { s with writer := close s.writer }
  | .close => { s with writer := close s.writer }

/-- Transactions are written to a file with a number of at most five digits. -/
def FiveDigits (s : LogRun E) : LogEvent E → Prop
  | .write _ => s.writer.currentFile.isSome ∧ s.writer.currentIndex < 10 ^ 5
  | .restart _ _ | .close => True

instance (s : LogRun E) (event : LogEvent E) : Decidable (s.FiveDigits event) :=
  match event with
  | .write _ => inferInstanceAs (Decidable (_ ∧ _))
  | .restart _ _ | .close => inferInstanceAs (Decidable True)

/-- The files are those with the numbers from 1 to `k`, and `n` holds `segment n`. -/
structure Files (dir : LogDir) (segment : ℕ → List E) (k : ℕ) : Prop where
  file : ∀ n, 1 ≤ n → n ≤ k → dir[fileName n]? = some (textOf format (segment n))
  only : ∀ name ∈ dir, ∃ n, 1 ≤ n ∧ n ≤ k ∧ name = fileName n

/-- What was written is in the files up to `m`, which is the one that is open. -/
structure Segmented (s : LogRun E) (segment : ℕ → List E) (m k : ℕ) : Prop where
  files : Files format s.dir segment k
  le_last : m ≤ k
  last_le : k ≤ 10 ^ 5
  later : ∀ n, m < n ∨ 10 ^ 5 ≤ n → segment n = []
  written : s.written = (range' 1 m).flatMap segment
  current : ∀ file, s.writer.currentFile = some file →
    file = fileName m ∧ max 1 s.writer.currentIndex = m

variable {format} {s : LogRun E} {segment : ℕ → List E} {dir : LogDir} {m k n : ℕ}

theorem flatMap_range'_of_empty {a b : ℕ} (hab : a ≤ b)
    (he : ∀ n, a < n → n ≤ b → segment n = []) :
    (range' 1 b).flatMap segment = (range' 1 a).flatMap segment := by
  induction b, hab using Nat.le_induction with
  | base => rfl
  | succ b hab ih =>
    have hlast : segment (1 + 1 * b) = [] := he _ (by omega) (by omega)
    rw [range'_concat, flatMap_append, flatMap_singleton, hlast, append_nil,
      ih fun n hlow hhigh => he n hlow (by omega)]

theorem flatMap_range'_update (hm : 1 ≤ m) (entries : List E) :
    (range' 1 m).flatMap (update segment m (segment m ++ entries)) =
      (range' 1 m).flatMap segment ++ entries := by
  obtain ⟨b, rfl⟩ : ∃ b, m = 1 + 1 * b := ⟨m - 1, by omega⟩
  have hr : range' 1 (1 + 1 * b) = range' 1 b ++ [1 + 1 * b] := by
    rw [← range'_concat, Nat.one_mul, Nat.add_comm]
  have hb : (range' 1 b).flatMap (update segment (1 + 1 * b)
      (segment (1 + 1 * b) ++ entries)) = (range' 1 b).flatMap segment := by
    refine flatMap_congr fun n hn => ?_
    have hlt := (mem_range'_1.1 hn).2
    rw [update_of_ne (by omega)]
  rw [hr, flatMap_append, flatMap_append, hb, flatMap_singleton,
    flatMap_singleton, update_self, append_assoc]

/-! ## Files -/

variable (index : ℕ) {names : List String} {name : String} {seg : ℕ → List ℕ}

theorem Files.mem_iff (h : Files format dir segment k) :
    name ∈ dir ↔ ∃ n, 1 ≤ n ∧ n ≤ k ∧ name = fileName n := by
  refine ⟨h.only name, ?_⟩
  rintro ⟨n, hpos, hle, rfl⟩
  exact (Table.mem_iff dir _).2 ⟨_, h.file n hpos hle⟩

theorem Files.mem_order (h : Files format dir segment k) (ls : Listing) {name : String} :
    name ∈ ls.order dir.keys ↔ ∃ n, 1 ≤ n ∧ n ≤ k ∧ name = fileName n := by
  rw [(ls.perm dir.keys).mem_iff, Std.ExtTreeMap.mem_keys, h.mem_iff]

theorem Files.mem_listLogFiles (h : Files format dir segment k) (ls : Listing)
   : name ∈ listLogFiles ls dir ↔ ∃ n, 1 ≤ n ∧ n ≤ k ∧ name = fileName n := by
  rw [listLogFiles, mem_filter, h.mem_order, and_iff_left_iff_imp]
  rintro ⟨n, -, -, rfl⟩
  exact isLogName_fileName n

theorem Files.openFile (h : Files format dir segment k) (hpos : 1 ≤ n) (hle : n ≤ k + 1)
    (he : k < n → segment n = []) :
    Files format (TransactionLog.openFile dir (fileName n)) segment (max k n) := by
  unfold TransactionLog.openFile
  by_cases hold : n ≤ k
  · rw [if_pos (h.mem_iff.2 ⟨n, hpos, hold, rfl⟩), Nat.max_eq_left hold]
    exact h
  have hnew : fileName n ∉ dir := by
    rw [h.mem_iff]
    rintro ⟨n', -, hle', heq⟩
    exact hold (fileName_injective heq ▸ hle')
  rw [if_neg hnew, Nat.max_eq_right (by omega)]
  constructor
  · intro i hi hik
    rw [Table.get_insert]
    by_cases hin : n = i
    · subst hin
      rw [if_pos rfl, he (by omega)]
      rfl
    · rw [if_neg fun heq => hin (fileName_injective heq)]
      exact h.file i hi (by omega)
  · intro name hname
    rcases Table.mem_insert.1 hname with rfl | hname
    · exact ⟨n, hpos, le_rfl, rfl⟩
    · obtain ⟨i, hi, hik, rfl⟩ := h.only name hname
      exact ⟨i, hi, by omega, rfl⟩

theorem Files.append (h : Files format dir segment k) (hpos : 1 ≤ m) (hle : m ≤ k) (entry : E) :
    Files format (dir.insert (fileName m)
        (dir[fileName m]?.getD [] ++ (format.toJson entry ++ ['\n'])))
      (Function.update segment m (segment m ++ [entry])) k := by
  constructor
  · intro i hi hik
    rw [Table.get_insert]
    by_cases him : m = i
    · subst him
      rw [if_pos rfl, Function.update_self, h.file m hpos hle, textOf_append]
      simp [textOf]
    · rw [if_neg fun heq => him (fileName_injective heq), Function.update_of_ne (Ne.symm him)]
      exact h.file i hi hik
  · intro name hname
    rcases Table.mem_insert.1 hname with rfl | hname
    · exact ⟨m, hpos, hle, rfl⟩
    · exact h.only name hname

theorem segmented_write (h : Segmented format s segment m k) (entry : E)
    (hopen : s.writer.currentFile.isSome) (hdig : s.writer.currentIndex < 10 ^ 5) :
    ∃ m' k', Segmented format (s.step format (.write entry))
      (update segment m (segment m ++ [entry])) m' k' := by
  obtain ⟨file, hfile⟩ := Option.isSome_iff_exists.1 hopen
  obtain ⟨rfl, hm⟩ := h.current file hfile
  have hpos : 1 ≤ m := by omega
  have hle := h.le_last
  have hlast := h.last_le
  have ha := h.files.append hpos hle entry
  have hl : ∀ n, m < n ∨ 10 ^ 5 ≤ n →
      update segment m (segment m ++ [entry]) n = [] := by
    intro n hn
    rw [update_of_ne (by omega)]
    exact h.later n hn
  have hw : s.written ++ [entry] =
      (range' 1 m).flatMap (update segment m (segment m ++ [entry])) := by
    rw [flatMap_range'_update hpos, h.written]
  simp only [step, TransactionLog.write, hfile]
  split_ifs with hfull
  · -- the next file, which is the same one at the first rotation
    have hnext : m ≤ s.writer.currentIndex + 1 ∧ s.writer.currentIndex + 1 ≤ m + 1 := by omega
    refine ⟨s.writer.currentIndex + 1, max k (s.writer.currentIndex + 1), ?_, le_max_right _ _,
      by omega, fun n hn => hl n (by omega), ?_, fun file hcur => ?_⟩
    · exact ha.openFile (by omega) (by omega) fun hnew => hl _ (by omega)
    · rw [hw]
      exact (flatMap_range'_of_empty hnext.1 fun n hlow _ => hl n (.inl hlow)).symm
    · simp only [rotate, Option.some.injEq] at hcur
      exact ⟨hcur.symm, by simp [rotate]⟩
  · refine ⟨m, k, ha, hle, hlast, hl, hw, fun file hcur => ⟨?_, hm⟩⟩
    rw [hfile] at hcur
    exact (Option.some.inj hcur).symm

/-! ## Restarts -/

/-- The search finds a name with the highest number that it reads, unless all are lower than
    what it begins with. -/
theorem foldlM_consider
    (hm : ∀ name ∈ names, ∃ n ≤ 10 ^ 5, name = fileName n) (found : Option String × ℕ) :
    ∃ latest highest, names.foldlM consider found = .ok (latest, highest) ∧ found.2 ≤ highest ∧
      (∀ n ≤ 10 ^ 5, fileName n ∈ names → numberRead n ≤ highest) ∧ ((latest, highest) = found ∨
        ∃ n ≤ 10 ^ 5, fileName n ∈ names ∧ latest = some (fileName n) ∧
          highest = numberRead n) := by
  induction names generalizing found with
  | nil => exact ⟨found.1, found.2, rfl, le_rfl, by simp, .inl rfl⟩
  | cons name names ih =>
    obtain ⟨⟨n, hn, rfl⟩, hrest⟩ := forall_mem_cons.1 hm
    have hfold : (fileName n :: names).foldlM consider found = names.foldlM consider
        (if found.2 ≤ numberRead n then (some (fileName n), numberRead n) else found) := by
      rw [foldlM_cons, consider_fileName hn]
      rfl
    rw [hfold]
    obtain ⟨latest, highest, heq, hge, hmost, hf⟩ := ih hrest
      (if found.2 ≤ numberRead n then (some (fileName n), numberRead n) else found)
    refine ⟨latest, highest, heq, ?_, fun i hi hmem => ?_, ?_⟩
    · split_ifs at hge with hle
      · exact hle.trans hge
      · exact hge
    · rcases mem_cons.1 hmem with hsame | hmem
      · rw [fileName_injective hsame]
        split_ifs at hge with hle
        · exact hge
        · exact (Nat.le_of_not_le hle).trans hge
      · exact hmost i hi hmem
    · rcases hf with hsame | ⟨i, hi, hmem, hl, hg⟩
      · split_ifs at hsame with hle
        · cases hsame
          exact .inr ⟨n, hn, mem_cons_self, rfl, rfl⟩
        · exact .inl hsame
      · exact .inr ⟨i, hi, mem_cons_of_mem _ hmem, hl, hg⟩

theorem findLatestLog_eq (h : Files format dir segment k) (hk : k ≤ 10 ^ 5) (ls : Listing) :
    findLatestLog ls dir = .ok (fileName (max 1 (min k (10 ^ 5 - 1))), min k (10 ^ 5 - 1)) := by
  have hmem := @Files.mem_order E format segment dir k h ls
  obtain ⟨latest, highest, heq, -, hmost, hf⟩ := foldlM_consider
    (fun name hname => by
      obtain ⟨n, -, hle, rfl⟩ := hmem.1 hname
      exact ⟨n, hle.trans hk, rfl⟩) (none, 0)
  rw [findLatestLog, heq]
  rcases Nat.eq_zero_or_pos k with rfl | hpos
  · rcases hf with hsame | ⟨n, -, hn, -⟩
    · cases hsame
      rfl
    · obtain ⟨i, hi, hik, -⟩ := hmem.1 hn
      omega
  have hbest : min k (10 ^ 5 - 1) ≤ highest := by
    have hread : numberRead (min k (10 ^ 5 - 1)) = min k (10 ^ 5 - 1) := if_pos (by omega)
    rw [← hread]
    exact hmost _ (by omega) (hmem.2 ⟨_, by omega, by omega, rfl⟩)
  rcases hf with hsame | ⟨n, hn, hm, rfl, rfl⟩
  · cases hsame
    omega
  obtain ⟨i, hi, hik, hsame⟩ := hmem.1 hm
  rw [fileName_injective hsame] at hbest ⊢
  have hlast : i = min k (10 ^ 5 - 1) ∧ numberRead i = i := by
    unfold numberRead at hbest ⊢
    split_ifs at hbest ⊢ <;> omega
  rw [hlast.2, hlast.1, Nat.max_eq_right (by omega)]
  rfl

theorem segmented_restart (h : Segmented format s segment m k) (ls : Listing) (rotationSize : ℕ) :
    ∃ m' k', Segmented format (s.step format (.restart ls rotationSize)) segment m' k' := by
  have hle := h.le_last
  have hlast := h.last_le
  simp only [step, newWriter, findLatestLog_eq h.files hlast ls, Except.map]
  have hl : ∀ n, max 1 (min k (10 ^ 5 - 1)) < n ∨ 10 ^ 5 ≤ n → segment n = [] := by
    intro n hn
    exact h.later n (by omega)
  refine ⟨max 1 (min k (10 ^ 5 - 1)), max k (max 1 (min k (10 ^ 5 - 1))), ?_, le_max_right _ _,
    by omega, hl, ?_, fun file hcur => ?_⟩
  · exact h.files.openFile (by omega) (by omega) fun hnew => h.later _ (by omega)
  · rw [h.written]
    rcases Nat.le_total m (max 1 (min k (10 ^ 5 - 1))) with hmore | hless
    · exact (flatMap_range'_of_empty hmore fun n hlow _ => h.later n (.inl hlow)).symm
    · exact flatMap_range'_of_empty hless fun n hlow _ => hl n (.inl hlow)
  · simp only [Option.some.injEq] at hcur
    exact ⟨hcur.symm, rfl⟩

theorem segmented_close (h : Segmented format s segment m k) :
    Segmented format (s.step format .close) segment m k :=
  ⟨h.files, h.le_last, h.last_le, h.later, h.written, fun _ hcur => by cases hcur⟩

/-! ## Reading -/

theorem flatMap_filter_of_empty {read : String → List E}
    {p : String → Bool} (he : ∀ name, p name = false → read name = []) :
    (names.filter p).flatMap read = names.flatMap read := by
  induction names with
  | nil => rfl
  | cons name names ih =>
    cases hp : p name with
    | true => rw [filter_cons_of_pos hp, flatMap_cons, flatMap_cons, ih]
    | false =>
      rw [filter_cons_of_neg (by simp [hp]), flatMap_cons, he name hp,
        nil_append, ih]

theorem pairwise_sorted (names : List String) : (names.mergeSort (· ≤ ·)).Pairwise (· ≤ ·) := by
  have hp := @pairwise_mergeSort String (fun a b => decide (a ≤ b))
    (fun a b c hab hbc => by simpa using le_trans (by simpa using hab) (by simpa using hbc))
    (fun a b => by simpa using le_total a b) names
  simpa using hp

theorem sorted_names (h : Files format dir segment k) (hk : k ≤ 10 ^ 5) (ls : Listing) :
    ((listLogFiles ls dir).mergeSort (· ≤ ·)).filter (· ≠ fileName (10 ^ 5)) =
      (range' 1 (min k (10 ^ 5 - 1))).map fileName := by
  have hs : (((listLogFiles ls dir).mergeSort (· ≤ ·)).filter
      (· ≠ fileName (10 ^ 5))).Pairwise (· ≤ ·) := by
    refine List.Pairwise.filter _ ?_
    exact pairwise_sorted _
  have hm : ((range' 1 (min k (10 ^ 5 - 1))).map fileName).Pairwise (· < ·) := by
    rw [pairwise_map]
    refine List.Pairwise.imp_of_mem ?_ pairwise_lt_range'
    intro a b _ hb hlt
    exact fileName_lt_fileName hlt (by have := (mem_range'_1.1 hb).2; omega)
  refine List.Perm.eq_of_pairwise (fun _ _ _ _ => le_antisymm) hs
    (hm.imp le_of_lt) ?_
  rw [perm_ext_iff_of_nodup]
  · intro name
    simp only [mem_filter, mem_mergeSort, h.mem_listLogFiles, ne_eq, decide_not,
      Bool.not_eq_true', decide_eq_false_iff_not, mem_map, mem_range'_1]
    constructor
    · rintro ⟨⟨n, hpos, hle, rfl⟩, hne⟩
      have ho : n ≠ 10 ^ 5 := fun heq => hne (heq ▸ rfl)
      exact ⟨n, by omega, rfl⟩
    · rintro ⟨n, hn, rfl⟩
      exact ⟨⟨n, by omega, by omega, rfl⟩, fun heq => by have := fileName_injective heq; omega⟩
  · refine List.Nodup.filter _ (nodup_mergeSort.2 (List.Nodup.filter _ ?_))
    exact (ls.perm dir.keys).nodup_iff.2 nodup_keys
  · exact hm.imp ne_of_lt

theorem Segmented.readEntries_eq (h : Segmented format s segment m k) (ls : Listing) :
    readEntries format ls s.dir = s.written := by
  have hle := h.le_last
  have hlast := h.last_le
  have he : ∀ name, decide (name ≠ fileName (10 ^ 5)) = false →
      parseText format (s.dir[name]?.getD []) = [] := by
    intro name hname
    obtain rfl : name = fileName (10 ^ 5) := by simpa using hname
    by_cases hk : k = 10 ^ 5
    · rw [h.files.file _ (by omega) hk.ge, h.later _ (.inr le_rfl)]
      rfl
    have hnone : s.dir[fileName (10 ^ 5)]? = none := by
      refine getElem?_eq_none fun hmem => ?_
      obtain ⟨n, -, hn, heq⟩ := h.files.mem_iff.1 hmem
      have := fileName_injective heq
      omega
    rw [hnone]
    rfl
  have hf : (range' 1 (min k (10 ^ 5 - 1))).flatMap
      (fun n => parseText format (s.dir[fileName n]?.getD [])) =
      (range' 1 (min k (10 ^ 5 - 1))).flatMap segment := by
    refine flatMap_congr fun n hn => ?_
    have hr := mem_range'_1.1 hn
    rw [h.files.file n (by omega) (by omega)]
    exact parseText_textOf (segment n)
  rw [readEntries, ← flatMap_filter_of_empty he, sorted_names h.files hlast ls,
    flatMap_map, hf, h.written]
  rcases Nat.le_total m (min k (10 ^ 5 - 1)) with hmore | hless
  · exact flatMap_range'_of_empty hmore fun n hlow _ => h.later n (.inl hlow)
  · exact (flatMap_range'_of_empty hless fun n hlow hhigh => h.later n (by omega)).symm

theorem segmented_step (s : LogRun E) (event : LogEvent E)
    (h : ∃ seg m k, Segmented format s seg m k) (hdig : s.FiveDigits event) :
    ∃ seg m k, Segmented format (s.step format event) seg m k := by
  obtain ⟨seg, m, k, h⟩ := h
  cases event with
  | write entry => exact ⟨_, segmented_write h entry hdig.1 hdig.2⟩
  | restart ls rotationSize => exact ⟨_, segmented_restart h ls rotationSize⟩
  | close => exact ⟨_, _, _, segmented_close h⟩

theorem segmented_start : Segmented format (start : LogRun E) (fun _ => []) 0 0 := by
  refine ⟨⟨fun n hpos hle => by omega, fun name hname => ?_⟩, le_rfl, by omega, fun _ _ => rfl, rfl,
    fun _ hcur => by cases hcur⟩
  exact absurd hname not_mem_empty

theorem readEntries_along {evs : List (LogEvent E)}
    (hdig : Run.Along (step format) FiveDigits start evs) :
    ∀ s ∈ evs.scanl (step format) start, ∀ ls, readEntries format ls s.dir = s.written := by
  intro s hs ls
  obtain ⟨seg, m, k, h⟩ := Run.invariant segmented_step ⟨_, 0, 0, segmented_start⟩ hdig s hs
  exact h.readEntries_eq ls

/-- **The log is durable**: across rotations and restarts, what is read after a Raft index is what
    was written with a higher one, in that order, as long as numbers of files have five digits. -/
theorem read_along (format : EntryFormat E) (events : List (LogEvent E))
    (hdigits : Run.Along (step format) FiveDigits start events) :
    ∀ s ∈ events.scanl (step format) start, ∀ listing afterIndex,
      readAfterIndex format listing s.dir afterIndex =
        s.written.filter fun entry => afterIndex < format.raftIndex entry := by
  intro s hs listing afterIndex
  rw [readAfterIndex, readEntries_along hdigits s hs listing]

/-! ## A format -/

def indexJson (index : ℕ) : List Char :=
  ("\x7b\"raft_index\":" ++ String.ofList (Nat.toDigits 10 index) ++ "\x7d").toList

theorem indexJson_eq : indexJson index =
      ('\x7b' :: "\"raft_index\":".toList) ++ (Nat.toDigits 10 index ++ ['\x7d']) := by
  rw [indexJson, String.toList_append, String.toList_append,
    @String.toList_ofList (Nat.toDigits 10 index), append_assoc]
  rfl

def indexOfJson (line : List Char) : Option ℕ :=
  let index := Nat.ofDigitChars 10 (line.drop 14).dropLast 0
  if line = indexJson index then some index else none

theorem indexOfJson_indexJson : indexOfJson (indexJson index) = some index := by
  have hdrop : (indexJson index).drop 14 = Nat.toDigits 10 index ++ ['\x7d'] := by
    rw [indexJson_eq]
    exact drop_left' rfl
  simp only [indexOfJson, hdrop, dropLast_concat, Nat.ofDigitChars_ten_toDigits, if_true]

theorem feed_notMem_indexJson : '\n' ∉ indexJson index := by
  intro hmem
  rw [indexJson_eq] at hmem
  rcases mem_append.1 hmem with hmem | hmem
  · exact absurd hmem (by decide)
  · rcases mem_append.1 hmem with hmem | hmem
    · exact absurd (Nat.isDigit_of_mem_toDigits (by omega) le_rfl hmem) (by decide)
    · exact absurd hmem (by decide)

def indexFormat : EntryFormat ℕ where
  raftIndex := id
  timestamp := fun index => index
  toJson := indexJson
  fromJson := indexOfJson
  fromJson_toJson := indexOfJson_indexJson
  toJson_feed := feed_notMem_indexJson
  toJson_head := fun index => by rw [indexJson_eq, cons_append, head?_cons]
  toJson_last := fun index => by rw [indexJson_eq, ← append_assoc, getLast?_concat]

def byName : Listing := ⟨id, fun _ => List.Perm.refl _⟩

def twoWriters : List (LogEvent ℕ) :=
  [.restart byName 1, .write 3, .write 4, .write 5, .close, .restart byName 30, .write 6, .write 7,
    .write 8]

theorem read_twoWriters : Run.Along (step indexFormat) FiveDigits start twoWriters ∧
      ∀ s ∈ twoWriters.scanl (step indexFormat) start, ∀ listing afterIndex,
        readAfterIndex indexFormat listing s.dir afterIndex =
          s.written.filter fun entry => afterIndex < indexFormat.raftIndex entry := by
  have hdigits : Run.Along (step indexFormat) FiveDigits start twoWriters := by decide +kernel
  exact ⟨hdigits, read_along indexFormat twoWriters hdigits⟩

/-! ## Names of six digits -/

theorem sublist_of_sorted (hs : names.Pairwise (· ≤ ·)) {a b : String}
    (ha : a ∈ names) (hb : b ∈ names) (hlt : a < b) : List.Sublist [a, b] names := by
  obtain ⟨pre, after, rfl⟩ := append_of_mem ha
  rw [pairwise_append] at hs
  rcases mem_append.1 hb with hf | ht
  · exact absurd (hs.2.2 b hf a mem_cons_self) (not_le_of_gt hlt)
  rcases mem_cons.1 ht with rfl | ht
  · exact absurd hlt (lt_irrefl b)
  · refine List.Sublist.trans ?_ (sublist_append_right pre _)
    exact List.Sublist.cons_cons a (singleton_sublist.2 ht)

theorem Files.sublist_readEntries (h : Files format dir segment k) {i j : ℕ} (hi : 1 ≤ i)
    (hik : i ≤ k) (hj : 1 ≤ j) (hjk : j ≤ k) (hlt : fileName i < fileName j) {x y : E}
    (hx : x ∈ segment i) (hy : y ∈ segment j) (ls : Listing) :
    List.Sublist [x, y] (readEntries format ls dir) := by
  have hn : List.Sublist [fileName i, fileName j]
      ((listLogFiles ls dir).mergeSort (· ≤ ·)) := by
    refine sublist_of_sorted (pairwise_sorted _) ?_ ?_ hlt
    · exact mem_mergeSort.2 ((h.mem_listLogFiles ls).2 ⟨i, hi, hik, rfl⟩)
    · exact mem_mergeSort.2 ((h.mem_listLogFiles ls).2 ⟨j, hj, hjk, rfl⟩)
  refine List.Sublist.trans ?_ (hn.flatMap _)
  simp only [flatMap_cons, flatMap_nil, append_nil, h.file i hi hik,
    h.file j hj hjk, Option.getD_some, parseText_textOf]
  exact List.Sublist.append (singleton_sublist.2 hx) (singleton_sublist.2 hy)

/-- A writer that rotates after every transaction has written `n` of them. -/
structure Rotating (s : LogRun ℕ) (n : ℕ) : Prop where
  isOpen : s.writer.currentFile.isSome = true
  index : s.writer.currentIndex = n
  size : s.writer.rotationSize = 1
  written : s.written = range' 1 n

theorem Rotating.full {s : LogRun ℕ} {n : ℕ} (h : Rotating s n) (text : List Char) (entry : ℕ) :
    s.writer.rotationSize ≤ byteSize (text ++ (indexFormat.toJson entry ++ ['\n'])) := by
  have hfeed : Char.utf8Size '\n' = 1 := rfl
  rw [h.size]
  simp only [byteSize, map_append, sum_append, map_cons, map_nil,
    sum_cons, hfeed]
  omega

theorem rotating_write {s : LogRun ℕ} {n : ℕ} (h : Rotating s n) :
    Rotating (s.step indexFormat (.write (n + 1))) (n + 1) := by
  obtain ⟨file, hfile⟩ := Option.isSome_iff_exists.1 h.isOpen
  simp only [step, TransactionLog.write, hfile, h.full, if_true]
  refine ⟨rfl, congrArg (· + 1) h.index, h.size, ?_⟩
  rw [h.written, range'_concat, Nat.one_mul, Nat.add_comm 1 n]

def rotated (n : ℕ) : LogRun ℕ :=
  (.restart byName 1 :: (range' 1 n).map .write).foldl (step indexFormat) start

theorem rotated_succ (n : ℕ) : rotated (n + 1) = (rotated n).step indexFormat (.write (n + 1)) := by
  rw [rotated, range'_concat, map_append, ← cons_append, foldl_append,
    Nat.one_mul, Nat.add_comm 1 n]
  rfl

theorem rotating_rotated (n : ℕ) : Rotating (rotated n) n := by
  induction n with
  | zero => exact ⟨by decide +kernel, by decide +kernel, by decide +kernel, rfl⟩
  | succ n ih =>
    rw [rotated_succ]
    exact rotating_write ih

theorem segmented_rotated {n : ℕ} (hn : n ≤ 10 ^ 5) :
    ∃ seg m k, Segmented indexFormat (rotated n) seg m k := by
  induction n with
  | zero => exact segmented_step start (.restart byName 1) ⟨_, 0, 0, segmented_start⟩ trivial
  | succ n ih =>
    have hr := rotating_rotated n
    rw [rotated_succ]
    refine segmented_step _ _ (ih (by omega)) ⟨hr.isOpen, ?_⟩
    rw [hr.index]
    omega

theorem Rotating.open_eq {s : LogRun ℕ} {m n k : ℕ} (h : Rotating s n)
    (hseg : Segmented indexFormat s seg m k) (hn : 1 ≤ n) :
    m = n ∧ s.writer.currentFile = some (fileName n) := by
  obtain ⟨file, hfile⟩ := Option.isSome_iff_exists.1 h.isOpen
  obtain ⟨rfl, hm⟩ := hseg.current file hfile
  rw [h.index] at hm
  obtain rfl : m = n := by omega
  exact ⟨rfl, hfile⟩

theorem Rotating.files_write {s : LogRun ℕ} {n k : ℕ} (h : Rotating s n)
    (hf : Files indexFormat s.dir seg k)
    (hfile : s.writer.currentFile = some (fileName n)) (hpos : 1 ≤ n) (hle : n ≤ k)
    (he : seg (n + 1) = []) (entry : ℕ) :
    Files indexFormat (s.step indexFormat (.write entry)).dir
      (update seg n (seg n ++ [entry])) (max k (n + 1)) := by
  simp only [step, TransactionLog.write, hfile, h.full, if_true, rotate, h.index]
  refine (hf.append hpos hle entry).openFile (by omega) (by omega) fun _ => ?_
  rw [update_of_ne (by omega), he]

/-- The last two transactions are in the last two files but one, up to one transaction more
    than there are numbers of five digits. -/
theorem files_rotated {n : ℕ} (hpos : 1 ≤ n) (hn : n + 1 ≤ 10 ^ 5) : ∃ seg k,
    Files indexFormat (rotated (n + 1 + 1)).dir seg k ∧ n + 1 ≤ k ∧
      n + 1 ∈ seg n ∧ n + 1 + 1 ∈ seg (n + 1) := by
  have hpre := rotating_rotated n
  have hlast := rotating_rotated (n + 1)
  obtain ⟨seg, m, k, hseg⟩ := @segmented_rotated n (by omega)
  obtain ⟨rfl, -⟩ := hpre.open_eq hseg hpos
  obtain ⟨m', k', hseg'⟩ := segmented_write hseg (m + 1) hpre.isOpen
    (by rw [hpre.index]; omega)
  rw [← rotated_succ m] at hseg'
  obtain ⟨rfl, hfile⟩ := hlast.open_eq hseg' (by omega)
  have hle := hseg'.le_last
  have he : update seg m (seg m ++ [m + 1]) (m + 1 + 1) = [] :=
    hseg'.later _ (.inl (Nat.lt_succ_self _))
  have hf := hlast.files_write hseg'.files hfile (by omega) hle he (m + 1 + 1)
  rw [← rotated_succ (m + 1)] at hf
  exact ⟨_, _, hf, le_trans hle (le_max_left _ _), by simp, by simp⟩

theorem not_read_rotated {n : ℕ} (hpos : 1 ≤ n) (hn : n + 1 ≤ 10 ^ 5)
    (hl : fileName (n + 1) < fileName n) :
    readAfterIndex indexFormat byName (rotated (n + 2)).dir 0 ≠
      (rotated (n + 2)).written.filter fun entry => 0 < indexFormat.raftIndex entry := by
  intro hread
  obtain ⟨seg, k, hf, hk, hlast, hnext⟩ := files_rotated hpos hn
  have hs := hf.sublist_readEntries (by omega) hk hpos (by omega) hl hnext hlast
    byName
  -- what was written is in the order of the indices
  have hord : ((rotated (n + 2)).written.filter
      fun entry => 0 < indexFormat.raftIndex entry).Pairwise (· < ·) := by
    rw [(rotating_rotated _).written]
    exact List.Pairwise.filter _ pairwise_lt_range'
  rw [← hread] at hord
  have hpair := hord.sublist (hs.filter _)
  rw [filter_eq_self.2 (by simp [indexFormat])] at hpair
  simp at hpair

/-- **The hundred-thousandth file**: with a rotation after every transaction, the last two of 100001
    are in `txn-99999.log` and in `txn-100000.log`, which is read before. -/
theorem hundred_thousandth_file :
    ∃ s ∈ (.restart byName 1 :: (range' 1 (99999 + 2)).map .write).scanl
        (step indexFormat) start, readAfterIndex indexFormat byName s.dir 0 ≠
        s.written.filter fun entry => 0 < indexFormat.raftIndex entry := by
  have hlower : fileName (99999 + 1) < fileName 99999 := by decide +kernel
  exact ⟨rotated (99999 + 2), Run.foldl_mem_scanl _ _,
    not_read_rotated (by omega) (by omega) hlower⟩

theorem takeWhile_of_chronological {es : List E} {endTime : ℤ}
    (htime : es.Pairwise fun entry next => format.timestamp entry ≤ format.timestamp next) :
    es.takeWhile (fun entry => format.timestamp entry ≤ endTime) =
      es.filter fun entry => format.timestamp entry ≤ endTime := by
  induction es with
  | nil => rfl
  | cons entry es ih =>
    obtain ⟨hf, hrest⟩ := pairwise_cons.1 htime
    by_cases hb : format.timestamp entry ≤ endTime
    · rw [takeWhile_cons_of_pos (by simpa using hb),
        filter_cons_of_pos (by simpa using hb), ih hrest]
    rw [takeWhile_cons_of_neg (by simpa using hb),
      filter_cons_of_neg (by simpa using hb), eq_comm, filter_eq_nil_iff]
    intro next hnext
    have hl := hf next hnext
    simp only [decide_eq_true_eq]
    omega

/-- A range of time is read as well, unless time ran back between two transactions. -/
theorem readRange_along (format : EntryFormat E) (evs : List (LogEvent E))
    (hdig : Run.Along (step format) FiveDigits start evs) (s : LogRun E)
    (hs : s ∈ evs.scanl (step format) start)
    (htime : s.written.Pairwise fun entry next => format.timestamp entry ≤ format.timestamp next)
    (ls : Listing) (startTime endTime : ℤ) : readRange format ls s.dir startTime endTime =
      s.written.filter fun entry =>
        startTime ≤ format.timestamp entry ∧ format.timestamp entry ≤ endTime := by
  rw [readRange, readEntries_along hdig s hs ls, takeWhile_of_chronological htime,
    filter_filter]
  simp only [Bool.decide_and]

/-- The reader does not get to what it looks for behind the place where it stops. -/
theorem takeWhile_filter_ne {es : List E} {p q : E → Bool} {x y : E} (hxy : [x, y].Sublist es)
    (hx : p x = false) (hp : p y = true) (hq : q y = true) :
    (es.takeWhile p).filter q ≠ es.filter fun entry => q entry && p entry := by
  intro hread
  obtain ⟨pre, rest, rfl, hpre, hrest⟩ := cons_sublist_iff.1 hxy
  have hall := all_eq_true.1 (@all_takeWhile E p pre)
  have hstop : ¬ (pre.takeWhile p).length = pre.length := by
    intro hlen
    rw [(List.takeWhile_prefix p).eq_of_length hlen] at hall
    exact absurd (hall x hpre) (by simp [hx])
  have hf : y ∈ rest.filter fun entry => q entry && p entry :=
    mem_filter.2 ⟨singleton_sublist.1 hrest, by simp [hp, hq]⟩
  have hsame : (pre.takeWhile p).filter q =
      (pre.takeWhile p).filter fun entry => q entry && p entry :=
    filter_congr fun entry he => by simp [hall entry he]
  rw [takeWhile_append, if_neg hstop, filter_append, hsame] at hread
  have hless := ((List.takeWhile_prefix (l := pre) p).sublist.filter
    fun entry => q entry && p entry).length_le
  rw [hread, length_append] at hless
  have hpos := length_pos_of_mem hf
  omega

/-- **Ranges of time** are read in full, in every state of a run, exactly if the transactions were
    written in the order of their times, among the runs with numbers of five digits. -/
theorem readRange_iff (format : EntryFormat E) (events : List (LogEvent E))
    (hdigits : Run.Along (step format) FiveDigits start events) :
    (∀ s ∈ events.scanl (step format) start, ∀ listing startTime endTime,
      readRange format listing s.dir startTime endTime = s.written.filter fun entry =>
        startTime ≤ format.timestamp entry ∧ format.timestamp entry ≤ endTime) ↔
    ∀ s ∈ events.scanl (step format) start,
      s.written.Pairwise fun entry next => format.timestamp entry ≤ format.timestamp next := by
  refine forall₂_congr fun s hs => ⟨fun h => ?_, readRange_along format events hdigits s hs⟩
  rw [pairwise_iff_forall_sublist]
  intro x y hxy
  by_contra hback
  have hread := h byName (format.timestamp y) (format.timestamp y)
  rw [readRange, readEntries_along hdigits s hs] at hread
  refine takeWhile_filter_ne hxy (decide_eq_false hback) (by simp) (by simp) (hread.trans ?_)
  simp only [Bool.decide_and]

theorem readRange_twoWriters :
    let s := twoWriters.foldl (step indexFormat) start
    readRange indexFormat byName s.dir 0 4 = s.written.filter fun entry =>
      0 ≤ indexFormat.timestamp entry ∧ indexFormat.timestamp entry ≤ 4 :=
  (readRange_iff indexFormat twoWriters (by decide +kernel)).2 (by decide +kernel) _
    (Run.foldl_mem_scanl _ _) byName 0 4

/-- The clock is set back between two transactions. -/
theorem clock_set_back :
    let s := [.restart byName 1000, .write 5, .write 3].foldl (step indexFormat) start
    readRange indexFormat byName s.dir 0 4 ≠ s.written.filter fun entry =>
      0 ≤ indexFormat.timestamp entry ∧ indexFormat.timestamp entry ≤ 4 := by
  intro s
  have hread : readEntries indexFormat byName s.dir = s.written :=
    readEntries_along (by decide +kernel) s (Run.foldl_mem_scanl _ _) byName
  rw [readRange, hread]
  decide +kernel

/-! ## Files -/

theorem text_openFile (dir : LogDir) (file name : String) :
    (openFile dir file)[name]?.getD [] = dir[name]?.getD [] := by
  unfold openFile
  split_ifs with hmem
  · rfl
  rw [Table.get_insert]
  split_ifs with heq
  · rw [← heq, Std.ExtTreeMap.getElem?_eq_none hmem]
    rfl
  · rfl

theorem text_write (format : EntryFormat E) (s : LogRun E) (entry : E) (name : String) :
    (s.step format (.write entry)).dir[name]?.getD [] = s.dir[name]?.getD [] ++
      if s.writer.currentFile = some name then format.toJson entry ++ ['\n'] else [] := by
  rw [step, TransactionLog.write]
  cases s.writer.currentFile with
  | none => simp
  | some file =>
    dsimp only
    by_cases heq : file = name <;> split <;>
      simp [rotate, text_openFile, Table.get_insert, heq]

theorem text_step (format : EntryFormat E) (s : LogRun E) (event : LogEvent E) (name : String) :
    s.dir[name]?.getD [] <+: (s.step format event).dir[name]?.getD [] := by
  cases event with
  | close => exact prefix_rfl
  | restart listing size =>
    rw [step, newWriter]
    cases findLatestLog listing s.dir with
    | error => exact prefix_rfl
    | ok found => exact (text_openFile s.dir found.1 name).symm ▸ prefix_rfl
  | write entry =>
    rw [text_write]
    exact prefix_append ..

/-- What is in a file stays at its beginning. -/
theorem append_only (format : EntryFormat E) (s : LogRun E) (events : List (LogEvent E))
    (name : String) : s.dir[name]?.getD [] <+: (events.foldl (step format) s).dir[name]?.getD [] :=
  Run.foldl_keeps (P := fun s' : LogRun E => s.dir[name]?.getD [] <+: s'.dir[name]?.getD [])
    (fun s' event h => h.trans (text_step format s' event name)) prefix_rfl events

/-- **What is written stays written**: a transaction that finds the log open is a line right after
    what the current file contained, whatever is written, rotated, closed and reopened later. -/
theorem written_stays (format : EntryFormat E) (s : LogRun E) (entry : E)
    (events : List (LogEvent E)) :
    s.writer.currentFile = none ∨ ∃ file : String, s.writer.currentFile = some file ∧
      s.dir[file]?.getD [] ++ (format.toJson entry ++ ['\n']) <+:
        ((.write entry :: events).foldl (step format) s).dir[file]?.getD [] := by
  cases hfile : s.writer.currentFile with
  | none => exact .inl rfl
  | some file =>
    have hline := text_write format s entry file
    rw [if_pos hfile] at hline
    exact .inr ⟨file, rfl, hline ▸ append_only format _ events file⟩

end LogRun

end Blixard
