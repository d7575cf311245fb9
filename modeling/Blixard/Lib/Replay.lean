/-
  Replaying writes over a store that has seen some of them already.

  If every adjustment of a row is idempotent, doing the writes again changes nothing (`run_run`).
-/
import Mathlib.Algebra.Group.Idempotent
import Mathlib.Algebra.Group.Action.Defs

namespace Replay

open Function

/-- A write to a store with keys `K` and rows `V`, which `A` adjusts. -/
inductive Write (K V A : Type) where
  | put (key : K) (row : V)
  | drop (key : K)
  | adjust (key : K) (change : A)

section
variable {K V A : Type} [DecidableEq K] [Monoid A] [MulAction A V]

/-- The store after a write; there is nothing to adjust under a key without a row. -/
def Write.apply (s : K → Option V) : Write K V A → K → Option V
  | put key row => Function.update s key (some row)
  | drop key => Function.update s key none
  | adjust key change => Function.update s key ((s key).map (change • ·))

@[simp] theorem Write.put_apply (s : K → Option V) (key k : K) (row : V) :
    (put key row : Write K V A).apply s k = if k = key then some row else s k :=
  update_apply ..

@[simp] theorem Write.drop_apply (s : K → Option V) (key k : K) :
    (drop key : Write K V A).apply s k = if k = key then none else s k :=
  update_apply ..

@[simp] theorem Write.adjust_apply (s : K → Option V) (key k : K) (chg : A) :
    (adjust key chg : Write K V A).apply s k =
      if k = key then (s key).map (chg • ·) else s k :=
  update_apply ..

def run (writes : List (Write K V A)) (s : K → Option V) : K → Option V :=
  writes.foldl Write.apply s

@[simp] theorem run_nil (s : K → Option V) : run ([] : List (Write K V A)) s = s := rfl

@[simp] theorem run_cons (w : Write K V A) (ws : List (Write K V A)) (s : K → Option V) :
    run (w :: ws) s = run ws (w.apply s) := rfl

theorem run_append (xs ys : List (Write K V A)) (s : K → Option V) :
    run (xs ++ ys) s = run ys (run xs s) :=
  List.foldl_append

/-- What a list of writes does under a key: it leaves a row or none whatever was there, or
    adjusts what was there. -/
theorem run_cases (ws : List (Write K V A)) (k : K) :
    (∃ row, ∀ s, run ws s k = row) ∨
      ∃ chg : A, ∀ s, run ws s k = (s k).map (chg • ·) := by
  induction ws with
  | nil =>
    right
    refine ⟨1, fun s => ?_⟩
    simp
  | cons w ws ih =>
    rcases ih with ⟨row, hrow⟩ | ⟨chg, hc⟩
    · left
      exact ⟨row, fun s => hrow _⟩
    simp only [run_cons, hc]
    cases w with
    | put key v =>
      by_cases hk : k = key
      · left
        exact ⟨some (chg • v), fun s => by simp [hk]⟩
      · right
        exact ⟨chg, fun s => by simp [hk]⟩
    | drop key =>
      by_cases hk : k = key
      · left
        exact ⟨none, fun s => by simp [hk]⟩
      · right
        exact ⟨chg, fun s => by simp [hk]⟩
    | adjust key first =>
      right
      by_cases hk : k = key
      · refine ⟨chg * first, fun s => ?_⟩
        subst hk
        simp [Option.map_map, comp_def, mul_smul]
      · exact ⟨chg, fun s => by simp [hk]⟩

variable (hidem : ∀ change : A, IsIdempotentElem change)
include hidem

/-- **Writes are idempotent** if adjustments are. -/
theorem run_run (ws : List (Write K V A)) (s : K → Option V) : run ws (run ws s) = run ws s := by
  funext k
  rcases run_cases ws k with ⟨row, hrow⟩ | ⟨chg, hc⟩
  · rw [hrow, hrow]
  rw [hc, hc]
  cases s k with
  | none => rfl
  | some row => simp [← mul_smul, (hidem chg).eq]

end

end Replay
