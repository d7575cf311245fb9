/-
  Locks that are taken one after another, and circular waits.

  A call is the list of lock actions it still has to perform, with the locks it holds.  If every
  call acquires locks in the order of a rank, no set of calls waits for itself
  (`no_circular_wait`).
-/
import Mathlib.Data.Fintype.Order

namespace Locks

open Function

inductive Mode where
  | read | write
  deriving DecidableEq

inductive Action (L : Type) where
  | acquire (lock : L) (mode : Mode)
  | release (lock : L)
  deriving DecidableEq

structure Call (L : Type) where
  held : List (L × Mode)
  rest : List (Action L)

variable {L I α : Type} [DecidableEq L]

def perform (held : List (L × Mode)) : Action L → List (L × Mode)
  | .acquire lock mode => (lock, mode) :: held
  | .release lock => held.filter fun h => h.1 ≠ lock

/-- A lock is granted while it is not held, or held by readers and asked for by one. -/
def Enabled (s : I → Call L) : Action L → Prop
  | .acquire lock mode => ∀ j, ∀ h ∈ (s j).held, h.1 = lock → mode = .read ∧ h.2 = .read
  | .release _ => True

def Step (s s' : I → Call L) : Prop :=
  ∃ i a rest, (s i).rest = a :: rest ∧ Enabled s a ∧
    s' i = ⟨perform (s i).held a, rest⟩ ∧ ∀ j, j ≠ i → s' j = s j

def start (programs : I → List (Action L)) (i : I) : Call L := ⟨[], programs i⟩

def Reachable (programs : I → List (Action L)) (s : I → Call L) : Prop :=
  Relation.ReflTransGen Step (start programs) s

omit [DecidableEq L] in
def Waits (s : I → Call L) (i j : I) : Prop :=
  i ≠ j ∧ ∃ lock mode rest, (s i).rest = .acquire lock mode :: rest ∧
    ∃ h ∈ (s j).held, h.1 = lock ∧ (mode = .write ∨ h.2 = .write)

omit [DecidableEq L] in
def Deadlocked (s : I → Call L) (calls : Set I) : Prop :=
  calls.Nonempty ∧ ∀ i ∈ calls, ∃ j ∈ calls, Waits s i j

def Reacquires : List (L × Mode) → List (Action L) → Prop
  | _, [] => False
  | held, a :: rest =>
    (∃ lock mode, a = .acquire lock mode ∧ lock ∈ held.map Prod.fst) ∨
      Reacquires (perform held a) rest

/-! ## Ranks -/

variable [LinearOrder α] (rank : L → α)

/-- Each lock that is acquired ranks above those held at that point. -/
def Ordered : List (L × Mode) → List (Action L) → Prop
  | _, [] => True
  | held, a :: rest =>
    (∀ lock mode, a = .acquire lock mode → ∀ h ∈ held, rank h.1 < rank lock) ∧
      Ordered (perform held a) rest

variable {rank} {s s' : I → Call L} {programs : I → List (Action L)}

theorem ordered_step (h : ∀ i, Ordered rank (s i).held (s i).rest) (hstep : Step s s') (i : I) :
    Ordered rank (s' i).held (s' i).rest := by
  obtain ⟨j, a, rest, hrest, -, hj, ho⟩ := hstep
  by_cases hij : i = j
  · have hcall := h j
    rw [hrest] at hcall
    rw [hij, hj]
    exact hcall.2
  · rw [ho i hij]
    exact h i

theorem ordered_of_reachable (hp : ∀ i, Ordered rank [] (programs i))
    (hs : Reachable programs s) (i : I) : Ordered rank (s i).held (s i).rest := by
  induction hs generalizing i with
  | refl => exact hp i
  | tail _ hstep ih => exact ordered_step ih hstep i

/-- **No circular wait**: calls that acquire locks in the order of their rank are never each at a
    lock that another of them holds, in whatever mode. -/
theorem no_circular_wait [WellFoundedGT α] (h : ∀ i, Ordered rank (s i).held (s i).rest)
    {calls : Set I} (hne : calls.Nonempty) :
    ¬ ∀ i ∈ calls, ∃ j ∈ calls, ∃ lock mode rest, (s i).rest = .acquire lock mode :: rest ∧
      ∃ h ∈ (s j).held, h.1 = lock := by
  intro hwait
  let awaited : Set α :=
    {r | ∃ i ∈ calls, ∃ lock mode rest, (s i).rest = .acquire lock mode :: rest ∧ rank lock = r}
  have ha : awaited.Nonempty := by
    obtain ⟨i, hi⟩ := hne
    obtain ⟨-, -, lock, mode, rest, hrest, -⟩ := hwait i hi
    exact ⟨rank lock, i, hi, lock, mode, rest, hrest, rfl⟩
  -- the holder of an awaited lock of greatest rank waits for one of still greater rank
  obtain ⟨r, ⟨i, hi, lock, mode, rest, hrest, rfl⟩, hmax⟩ :=
    (@wellFounded_gt α _ _).has_min awaited ha
  obtain ⟨j, hj, lock', mode', rest', hrest', held, hheld, rfl⟩ := hwait i hi
  obtain ⟨-, -, next, nextMode, nextRest, hnext, -⟩ := hwait j hj
  have hlock : held.1 = lock := by
    rw [hrest] at hrest'
    injection hrest' with heq
    injection heq with heq
    exact heq.symm
  have hord := h j
  rw [hnext] at hord
  have hlt := hord.1 next nextMode rfl held hheld
  rw [hlock] at hlt
  exact hmax (rank next) ⟨j, hj, next, nextMode, nextRest, hnext, rfl⟩ hlt

theorem not_deadlocked_of_ordered [WellFoundedGT α] (hp : ∀ i, Ordered rank [] (programs i))
    (hs : Reachable programs s) (calls : Set I) : ¬ Deadlocked s calls := by
  rintro ⟨hne, hwait⟩
  refine no_circular_wait (ordered_of_reachable hp hs) hne fun i hi => ?_
  obtain ⟨j, hj, -, lock, mode, rest, hrest, h, hheld, hlock, -⟩ := hwait i hi
  exact ⟨j, hj, lock, mode, rest, hrest, h, hheld, hlock⟩

/-! ## One call at a time -/

theorem run_alone {i : I} {done rest : List (Action L)} (hrest : (s i).rest = done ++ rest)
    (hord : Ordered rank (s i).held done)
    (hfree : ∀ j, j ≠ i → ∀ h ∈ (s j).held, ∀ mode, .acquire h.1 mode ∉ done) :
    ∃ s', Relation.ReflTransGen Step s s' ∧ s' i = ⟨done.foldl perform (s i).held, rest⟩ ∧
      ∀ j, j ≠ i → s' j = s j := by
  induction done generalizing s with
  | nil => exact ⟨s, .refl, congrArg (Call.mk (s i).held) hrest, fun _ _ => rfl⟩
  | cons a done ih =>
    classical
    let next := update s i ⟨perform (s i).held a, done ++ rest⟩
    have hi : next i = ⟨perform (s i).held a, done ++ rest⟩ := update_self ..
    have ho : ∀ j, j ≠ i → next j = s j := fun j hj => update_of_ne hj ..
    have he : Enabled s a := by
      cases a with
      | release lock => trivial
      | acquire lock mode =>
        intro j h hheld heq
        by_cases hj : j = i
        · have hlt := hord.1 lock mode rfl h (hj ▸ hheld)
          rw [heq] at hlt
          exact absurd hlt (lt_irrefl _)
        · exact absurd (heq ▸ List.mem_cons_self) (hfree j hj h hheld mode)
    obtain ⟨s', hr, hs', hsame⟩ := @ih next (congrArg Call.rest hi)
      (by rw [hi]; exact hord.2) (by
        intro j hj h hheld mode hmem
        rw [ho j hj] at hheld
        exact hfree j hj h hheld mode (List.mem_cons_of_mem a hmem))
    refine ⟨s', .head ⟨i, a, done ++ rest, hrest, he, hi, ho⟩ hr, ?_, ?_⟩
    · rw [hs', hi]
      rfl
    · intro j hj
      rw [hsame j hj, ho j hj]

/-- A call that asks for a lock of which it holds a guard that excludes the request stands
    there for ever. -/
theorem stays_of_own_guard {i : I} {held : List (L × Mode)} {lock : L} {mode : Mode}
    {rest : List (Action L)} (hi : s i = ⟨held, .acquire lock mode :: rest⟩)
    (hown : ¬ ∀ h ∈ held, h.1 = lock → mode = .read ∧ h.2 = .read)
    (hs : Relation.ReflTransGen Step s s') : s' i = s i := by
  induction hs with
  | refl => rfl
  | tail _ hstep ih =>
    obtain ⟨j, a, rest', hrest, he, -, ho⟩ := hstep
    by_cases hij : i = j
    · subst hij
      rw [ih, hi] at hrest
      cases hrest
      refine absurd (fun h hh => he i h ?_) hown
      rw [ih, hi]
      exact hh
    · rw [ho i hij, ih]

end Locks
