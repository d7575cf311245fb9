/-
  Concurrent calls over a shared state.

  Each call takes its steps one at a time; a run is any interleaving of them.  `put` is what a
  step comes to, and `Others` a condition on all calls but the one that takes the step.
-/
import Blixard.Lib.Run
import Mathlib.Data.Finset.Card

namespace Calls

open Finset Function

structure System (S L : Type) where
  shared : S
  calls : ℕ → L

variable {S L A : Type} {act : S → L → A → S × L}

def System.step (act : S → L → A → S × L) (s : System S L) (x : ℕ × A) : System S L :=
  let r := act s.shared (s.calls x.1) x.2
  ⟨r.1, Function.update s.calls x.1 r.2⟩

def System.put (s : System S L) (i : ℕ) (r : S × L) : System S L :=
  ⟨r.1, Function.update s.calls i r.2⟩

def System.start (shared : S) (call : L) : System S L := ⟨shared, fun _ => call⟩

variable {s : System S L} {i : ℕ} {a : A} {r : S × L}

theorem step_eq_put : s.step act (i, a) = s.put i (act s.shared (s.calls i) a) := rfl

@[simp] theorem put_self : s.put i (s.shared, s.calls i) = s := by
  rw [System.put, Function.update_eq_self]

@[simp] theorem step_shared : (s.step act (i, a)).shared = (act s.shared (s.calls i) a).1 := rfl

@[simp] theorem put_calls_self : (s.put i r).calls i = r.2 := update_self ..

variable {xs : List (ℕ × A)} {j : ℕ}

theorem put_calls_of_ne (h : j ≠ i) : (s.put i r).calls j = s.calls j :=
  update_of_ne h ..

@[simp] theorem step_calls_self : (s.step act (i, a)).calls i = (act s.shared (s.calls i) a).2 :=
  put_calls_self

theorem step_calls_of_ne (h : j ≠ i) : (s.step act (i, a)).calls j = s.calls j :=
  put_calls_of_ne h

theorem foldl_calls_of_notMem (h : ∀ x ∈ xs, x.1 ≠ j)
    (s : System S L) : (xs.foldl (System.step act) s).calls j = s.calls j := by
  induction xs generalizing s with
  | nil => rfl
  | cons x xs ih =>
    obtain ⟨hx, hrest⟩ := List.forall_mem_cons.1 h
    rw [List.foldl_cons, ih hrest]
    exact step_calls_of_ne hx.symm

theorem forall_calls_put {P : ℕ → L → Prop} (hself : P i r.2)
    (ho : ∀ j, j ≠ i → P j (s.calls j)) (j : ℕ) : P j ((s.put i r).calls j) := by
  by_cases hj : j = i
  · subst hj
    rw [put_calls_self]
    exact hself
  · rw [put_calls_of_ne hj]
    exact ho j hj

theorem pairwise_calls_put {R : L → L → Prop} (hsymm : ∀ a b, R a b → R b a)
    (hself : ∀ j, j ≠ i → R r.2 (s.calls j))
    (ho : ∀ j k, j ≠ k → R (s.calls j) (s.calls k)) {k : ℕ} (hjk : j ≠ k) :
    R ((s.put i r).calls j) ((s.put i r).calls k) := by
  by_cases hj : j = i
  · subst hj
    rw [put_calls_self, put_calls_of_ne hjk.symm]
    exact hself k hjk.symm
  rw [put_calls_of_ne hj]
  by_cases hk : k = i
  · subst hk
    rw [put_calls_self]
    exact hsymm _ _ (hself j hj)
  · rw [put_calls_of_ne hk]
    exact ho j k hjk

/-! ## How many calls are at some point -/

def Count (p : L → Bool) (calls : ℕ → L) (n : ℕ) : Prop :=
  ∃ is : Finset ℕ, (∀ i, i ∈ is ↔ p (calls i) = true) ∧ is.card = n

section Count
variable {p : L → Bool} {n : ℕ}

variable {calls : ℕ → L}

theorem count_zero (h : ∀ i, p (calls i) = false) : Count p calls 0 :=
  ⟨∅, fun i => by simp [h i], rfl⟩

theorem Count.length_le (h : Count p calls n) {is : List ℕ} (hn : is.Nodup)
    (his : ∀ i ∈ is, p (calls i) = true) : is.length ≤ n := by
  obtain ⟨counted, hc, rfl⟩ := h
  rw [← List.toFinset_card_of_nodup hn]
  refine card_le_card fun i hi => ?_
  exact (hc i).2 (his i (List.mem_toFinset.1 hi))

theorem Count.eq_zero (h : Count p calls n) (hnone : ∀ i, p (calls i) = false) : n = 0 := by
  obtain ⟨counted, hc, rfl⟩ := h
  refine card_eq_zero.2 (eq_empty_of_forall_notMem fun i hi => ?_)
  exact absurd ((hc i).1 hi) (by simp [hnone i])

theorem count_step (h : Count p s.calls n) :
    ∃ n', Count p (s.step act (i, a)).calls n' ∧
      n' + (p (s.calls i)).toNat = n + (p (act s.shared (s.calls i) a).2).toNat := by
  obtain ⟨is, his, rfl⟩ := h
  have ho (js : Finset ℕ) (hself : i ∈ js ↔ p (act s.shared (s.calls i) a).2 = true)
      (hrest : ∀ j, j ≠ i → (j ∈ js ↔ j ∈ is)) : Count p (s.step act (i, a)).calls js.card :=
    ⟨js, forall_calls_put (P := fun j c => j ∈ js ↔ p c = true) hself
      fun j hj => (hrest j hj).trans (his j), rfl⟩
  cases hb : p (s.calls i) <;> cases ha : p (act s.shared (s.calls i) a).2
  · exact ⟨_, ho is (by simp [his, hb, ha]) fun _ _ => Iff.rfl, rfl⟩
  · have hnew : i ∉ is := by simp [his, hb]
    refine ⟨_, ho (insert i is) (by simp [ha]) fun j hj => by simp [hj], ?_⟩
    rw [card_insert_of_notMem hnew]
    rfl
  · have hmem : i ∈ is := (his i).2 hb
    refine ⟨_, ho (is.erase i) (by simp [ha]) fun j hj => by simp [hj], ?_⟩
    exact card_erase_add_one hmem
  · exact ⟨_, ho is (by simp [his, hb, ha]) fun _ _ => Iff.rfl, rfl⟩

end Count

/-- What holds of a call that has not begun need only be tried on the calls that take a step. -/
theorem forall_calls_foldl {P : L → Prop} {idle : L} (hidle : P idle)
    (shared : S) (h : ∀ x ∈ xs, P ((xs.foldl (System.step act) (.start shared idle)).calls x.1))
    (j : ℕ) : P ((xs.foldl (System.step act) (.start shared idle)).calls j) := by
  by_cases hj : ∀ x ∈ xs, x.1 ≠ j
  · rw [foldl_calls_of_notMem hj]
    exact hidle
  · obtain ⟨x, hx, rfl⟩ : ∃ x ∈ xs, x.1 = j := by simpa using hj
    exact h x hx

def Others (C : S → ℕ × A → L → Prop) (s : System S L) (x : ℕ × A) : Prop :=
  ∀ j, j ≠ x.1 → C s.shared x (s.calls j)

theorem along_others {C : S → ℕ × A → L → Prop} (idle : L) (hidle : ∀ t x, C t x idle)
    (is : List ℕ) (hxs : ∀ x ∈ xs, x.1 ∈ is) {s : System S L} (hs : ∀ j, j ∉ is → s.calls j = idle)
    (h : Run.Along (System.step act)
      (fun s x => ∀ j ∈ is, j ≠ x.1 → C s.shared x (s.calls j)) s xs) :
    Run.Along (System.step act) (Others C) s xs := by
  induction xs generalizing s with
  | nil => trivial
  | cons x xs ih =>
    obtain ⟨hx, hrest⟩ := List.forall_mem_cons.1 hxs
    refine ⟨fun j hj => ?_, ih hrest (fun j hj => ?_) h.2⟩
    · by_cases hmem : j ∈ is
      · exact h.1 j hmem hj
      · rw [hs j hmem]
        exact hidle s.shared x
    · have hne : j ≠ x.1 := fun heq => hj (heq ▸ hx)
      exact (step_calls_of_ne hne).trans (hs j hj)

theorem foldl_step_alone (as : List A) (s : System S L) (i : ℕ) :
    let s' := (as.map fun a => (i, a)).foldl (System.step act) s
    (s'.shared, s'.calls i) = as.foldl (fun r a => act r.1 r.2 a) (s.shared, s.calls i) := by
  induction as generalizing s with
  | nil => rfl
  | cons a as ih =>
    rw [List.map_cons, List.foldl_cons, List.foldl_cons]
    have hrest := ih (s.step act (i, a))
    rw [step_shared, step_calls_self] at hrest
    exact hrest

end Calls
