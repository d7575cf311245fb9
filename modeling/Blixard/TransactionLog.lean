/-
  The transaction log (`transaction_log.rs`).

  A new writer finds the last file by the numbers in the names; a reader sorts the names.  Both
  take a name to have five digits.  How a transaction is written as JSON is a parameter with the
  laws that hold of it, and a directory can be listed in any order.
-/
import Blixard.Lib.Table
import Blixard.Lib.Text
import Blixard.Error
import Mathlib.Algebra.GroupWithZero.Nat

namespace Blixard

open Text List

structure EntryFormat (E : Type) where
  raftIndex : E → ℕ
  timestamp : E → ℤ
  toJson : E → List Char
  fromJson : List Char → Option E
  fromJson_toJson : ∀ entry, fromJson (toJson entry) = some entry
  toJson_feed : ∀ entry, '\n' ∉ toJson entry
  toJson_head : ∀ entry, (toJson entry).head? = some '\x7b'
  toJson_last : ∀ entry, (toJson entry).getLast? = some '\x7d'

structure Listing where
  order : List String → List String
  perm : ∀ names, (order names).Perm names

abbrev LogDir := Table String (List Char)

structure TransactionLogWriter where
  currentFile : Option String
  currentIndex : ℕ
  rotationSize : ℕ

namespace TransactionLog

/-- `txn-\x7b:05\x7d.log`. -/
def fileName (index : ℕ) : String := "txn-" ++ String.ofList (padded 5 index) ++ ".log"

def isLogName (name : String) : Bool :=
  "txn-".toList.isPrefixOf name.toList && ".log".toList.isSuffixOf name.toList

def byteSize (text : List Char) : ℕ := (text.map Char.utf8Size).sum

def openFile (dir : LogDir) (name : String) : LogDir :=
  if name ∈ dir then dir else dir.insert name []

/-- One entry of the directory, in the search for the highest number: the number is read from
    the fifth to the ninth character, without which the search panics. -/
def consider (found : Option String × ℕ) (name : String) : Except Failure (Option String × ℕ) :=
  if isLogName name then
    if name.toList.length < 9 then .error (.panic "byte index 9 is out of bounds")
    else
      match parseUnsigned 64 ((name.toList.drop 4).take 5) with
      | none => .ok found
      | some index => if found.2 ≤ index then .ok (some name, index) else .ok found
  else .ok found

def findLatestLog (listing : Listing) (dir : LogDir) : Except Failure (String × ℕ) :=
  ((listing.order dir.keys).foldlM consider (none, 0)).map fun found =>
    (found.1.getD (fileName (found.2 + 1)), found.2)

def newWriter (listing : Listing) (rotationSize : ℕ) (dir : LogDir) :
    Except Failure (LogDir × TransactionLogWriter) :=
  (findLatestLog listing dir).map fun found =>
    (openFile dir found.1, ⟨some found.1, found.2, rotationSize⟩)

/-- The next file is opened.  Here and in `write` the operations on files succeed; in the source a
    file that cannot be opened leaves the index advanced and the old file current. -/
def rotate (dir : LogDir) (writer : TransactionLogWriter) : LogDir × TransactionLogWriter :=
  let index := writer.currentIndex + 1
  (openFile dir (fileName index),
    { writer with currentFile := some (fileName index), currentIndex := index })

variable {E : Type} (format : EntryFormat E)

/-- A line at the end of the current file, and a rotation once the file is large enough; a closed
    log ignores the entry. -/
def write (dir : LogDir) (writer : TransactionLogWriter) (entry : E) :
    LogDir × TransactionLogWriter :=
  match writer.currentFile with
  | none => (dir, writer)
  | some file =>
    let text := dir[file]?.getD [] ++ (format.toJson entry ++ ['\n'])
    let dir := dir.insert file text
    if writer.rotationSize ≤ byteSize text then rotate dir writer else (dir, writer)

def close (writer : TransactionLogWriter) : TransactionLogWriter :=
  { writer with currentFile := none }

def listLogFiles (listing : Listing) (dir : LogDir) : List String :=
  (listing.order dir.keys).filter isLogName

/-- The transactions in the lines of a file; lines that are blank or no transaction are
    skipped. -/
def parseText (text : List Char) : List E :=
  (lines text).filterMap fun line =>
    if line.all isWhiteSpace then none else format.fromJson line

def readEntries (listing : Listing) (dir : LogDir) : List E :=
  ((listLogFiles listing dir).mergeSort (· ≤ ·)).flatMap fun name =>
    parseText format (dir[name]?.getD [])

def readAfterIndex (listing : Listing) (dir : LogDir) (afterIndex : ℕ) : List E :=
  (readEntries format listing dir).filter fun entry => afterIndex < format.raftIndex entry

/-- Reading stops at the first transaction that is after the end. -/
def readRange (listing : Listing) (dir : LogDir) (startTime endTime : ℤ) : List E :=
  ((readEntries format listing dir).takeWhile fun entry => format.timestamp entry ≤ endTime).filter
    fun entry => startTime ≤ format.timestamp entry

def textOf (entries : List E) : List Char :=
  entries.flatMap fun entry => format.toJson entry ++ ['\n']

variable {format}

theorem toJson_not_blank (entry : E) : (format.toJson entry).all isWhiteSpace = false := by
  have hmem : '\x7b' ∈ format.toJson entry := mem_of_mem_head? (format.toJson_head entry)
  rw [all_eq_false]
  exact ⟨_, hmem, by decide⟩

theorem parseText_textOf (entries : List E) :
    parseText format (textOf format entries) = entries := by
  induction entries with
  | nil => rfl
  | cons entry entries ih =>
    have hlast : (format.toJson entry).getLast? ≠ some '\r' := by
      rw [format.toJson_last entry]
      decide
    have htext : textOf format (entry :: entries) =
        format.toJson entry ++ '\n' :: textOf format entries := by
      simp [textOf]
    rw [parseText, htext, lines_line _ (format.toJson_feed entry) hlast, filterMap_cons,
      toJson_not_blank, if_neg (by simp), format.fromJson_toJson]
    exact congrArg (entry :: ·) ih

theorem textOf_append (es more : List E) :
    textOf format (es ++ more) = textOf format es ++ textOf format more :=
  flatMap_append

/-! ## Names -/

theorem toList_fileName (n : ℕ) :
    (fileName n).toList = "txn-".toList ++ (padded 5 n ++ ".log".toList) := by
  rw [fileName, String.toList_append, String.toList_append, @String.toList_ofList (padded 5 n),
    append_assoc]

theorem fileName_injective : Function.Injective fileName := by
  intro m n h
  have hl := congrArg String.toList h
  rw [toList_fileName, toList_fileName] at hl
  exact padded_injective 5 (append_cancel_right (append_cancel_left hl))

variable {n : ℕ}

theorem fileName_lt_fileName {m : ℕ} (hlt : m < n) (hn : n < 10 ^ 5) : fileName m < fileName n := by
  rw [String.lt_iff_toList_lt, toList_fileName, toList_fileName]
  have hlen : (padded 5 m).length = (padded 5 n).length := by
    rw [length_padded (by omega) (hlt.trans hn), length_padded (by omega) hn]
  exact append_left_lt (append_lt_append hlen (padded_lt_padded (by omega) hlt hn))

theorem isLogName_fileName (n : ℕ) : isLogName (fileName n) = true := by
  rw [isLogName, toList_fileName, Bool.and_eq_true, isPrefixOf_iff_prefix,
    isSuffixOf_iff_suffix]
  refine ⟨prefix_append _ _, ?_⟩
  rw [← append_assoc]
  exact suffix_append _ _

def numberRead (n : ℕ) : ℕ := if n < 10 ^ 5 then n else 10 ^ 4

theorem parseUnsigned_fileName (hn : n ≤ 10 ^ 5) :
    parseUnsigned 64 (((fileName n).toList.drop 4).take 5) = some (numberRead n) := by
  unfold numberRead
  split_ifs with hlt
  · have hdrop : (fileName n).toList.drop 4 = padded 5 n ++ ".log".toList := by
      rw [toList_fileName]
      exact drop_left' rfl
    rw [hdrop, take_left' (length_padded (by omega) hlt)]
    exact parseUnsigned_padded (by omega) hlt (hlt.trans (by decide))
  · rw [show n = 10 ^ 5 by omega]
    decide +kernel

theorem consider_fileName (hn : n ≤ 10 ^ 5) (found : Option String × ℕ) :
    consider found (fileName n) =
      .ok (if found.2 ≤ numberRead n then (some (fileName n), numberRead n) else found) := by
  have hlen : ¬ (fileName n).toList.length < 9 := by
    have hpad := le_length_padded 5 n
    have hhead : "txn-".toList.length = 4 := rfl
    rw [toList_fileName, length_append, length_append]
    omega
  simp only [consider, isLogName_fileName, hlen, parseUnsigned_fileName hn, if_true, if_false]
  split_ifs <;> rfl

end TransactionLog

end Blixard
