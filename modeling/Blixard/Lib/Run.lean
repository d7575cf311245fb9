/-
  Runs of a state machine.

  A run of `step` from `s` over the inputs `as` passes through the states `as.scanl step s`.
  `Along` says that every step meets a condition in the state before it.  `attempt` is a run of
  steps that can fail, up to the first failure.
-/
import Mathlib.Data.List.Basic

namespace Run

open List

variable {S A : Type} (step : S → A → S)

/-- Every step of the run from `s` meets `C` in the state before it. -/
def Along (C : S → A → Prop) : S → List A → Prop
  | _, [] => True
  | s, a :: as => C s a ∧ Along C (step s a) as

/-- Whether a run is along a condition can be tried out. -/
instance decidableAlong {C : S → A → Prop} [∀ s a, Decidable (C s a)] :
    (s : S) → (as : List A) → Decidable (Along step C s as)
  | _, [] => inferInstanceAs (Decidable True)
  | s, a :: as =>
    haveI : Decidable (Along step C (step s a) as) := decidableAlong (step s a) as
    inferInstanceAs (Decidable (C s a ∧ Along step C (step s a) as))

variable {step}

/-- **Invariants of runs**: what every step keeps under `C` holds in every state
    of a run along `C`. -/
theorem invariant {Inv : S → Prop} {C : S → A → Prop}
    (keep : ∀ s a, Inv s → C s a → Inv (step s a)) {s : S} {as : List A} (hs : Inv s)
    (hC : Along step C s as) : ∀ t ∈ as.scanl step s, Inv t := by
  induction as generalizing s with
  | nil =>
    intro t ht
    rw [scanl_nil, mem_singleton] at ht
    exact ht ▸ hs
  | cons a as ih =>
    intro t ht
    rw [scanl_cons, mem_cons] at ht
    rcases ht with rfl | ht
    · exact hs
    · exact ih (keep s a hs hC.1) hC.2 t ht

variable {as bs : List A} {s : S} {C D : S → A → Prop} {Inv P : S → Prop}

/-- **Exact conditions**, among the runs along `D`: if steps under `C` keep an invariant that
    implies `P`, and any other step breaks `P`, then `P` holds throughout exactly the runs along
    `C`. -/
theorem holds_iff_along_of
    (keep : ∀ s a, Inv s → D s a → C s a → Inv (step s a)) (holds : ∀ s, Inv s → P s)
    (breaks : ∀ s a, Inv s → D s a → ¬ C s a → ¬ P (step s a)) (hs : Inv s)
    (hD : Along step D s as) : (∀ t ∈ as.scanl step s, P t) ↔ Along step C s as := by
  induction as generalizing s with
  | nil =>
    refine ⟨fun _ => trivial, fun _ t ht => ?_⟩
    rw [scanl_nil, mem_singleton] at ht
    exact ht ▸ holds s hs
  | cons a as ih =>
    rw [scanl_cons, forall_mem_cons]
    constructor
    · intro hall
      have hnext : P (step s a) := hall.2 _ (mem_of_mem_head? (by simp))
      have hC : C s a := by
        by_contra hC
        exact breaks s a hs hD.1 hC hnext
      exact ⟨hC, (ih (keep s a hs hD.1 hC) hD.2).1 hall.2⟩
    · intro hC
      exact ⟨holds s hs, (ih (keep s a hs hD.1 hC.1) hD.2).2 hC.2⟩

theorem along_append :
    Along step C s (as ++ bs) ↔ Along step C s as ∧ Along step C (as.foldl step s) bs := by
  induction as generalizing s with
  | nil => simp [Along]
  | cons a as ih => rw [cons_append, Along, ih, Along, foldl_cons, and_assoc]

theorem along_and (hC : Along step C s as)
    (hD : Along step D s as) : Along step (fun s a => C s a ∧ D s a) s as := by
  induction as generalizing s with
  | nil => trivial
  | cons a as ih => exact ⟨⟨hC.1, hD.1⟩, ih hC.2 hD.2⟩

theorem along_congr (h : ∀ s a, C s a ↔ D s a) (s : S) (as : List A) :
    Along step C s as ↔ Along step D s as := by
  induction as generalizing s with
  | nil => exact Iff.rfl
  | cons a as ih => rw [Along, Along, h, ih]

theorem along_of_forall_mem {C : A → Prop} (h : ∀ a ∈ as, C a) (s : S) :
    Along step (fun _ a => C a) s as := by
  induction as generalizing s with
  | nil => trivial
  | cons a as ih =>
    obtain ⟨ha, has⟩ := forall_mem_cons.1 h
    exact ⟨ha, ih has (step s a)⟩

theorem along_iff_forall_mem {C : A → Prop} : Along step (fun _ a => C a) s as ↔ ∀ a ∈ as, C a := by
  refine ⟨fun h => ?_, fun h => along_of_forall_mem h s⟩
  induction as generalizing s with
  | nil => nofun
  | cons a as ih => exact forall_mem_cons.2 ⟨h.1, ih h.2⟩

theorem along_true (s : S) (as : List A) : Along step (fun _ _ => True) s as :=
  along_of_forall_mem (fun _ _ => trivial) s

/-- **Exact conditions of runs**, among all runs. -/
theorem holds_iff_along (keep : ∀ s a, Inv s → C s a → Inv (step s a)) (holds : ∀ s, Inv s → P s)
    (breaks : ∀ s a, Inv s → ¬ C s a → ¬ P (step s a)) (hs : Inv s) :
    (∀ t ∈ as.scanl step s, P t) ↔ Along step C s as :=
  holds_iff_along_of (fun s a hs _ => keep s a hs) holds (fun s a hs _ => breaks s a hs) hs
    (along_true s as)

theorem along_of_invariant
    (keep : ∀ s a, Inv s → C s a → Inv (step s a)) (meets : ∀ s a, Inv s → C s a → D s a)
    (hs : Inv s) (hC : Along step C s as) : Along step D s as := by
  induction as generalizing s with
  | nil => trivial
  | cons a as ih => exact ⟨meets s a hs hC.1, ih (keep s a hs hC.1) hC.2⟩

theorem foldl_mem_scanl (s : S) (as : List A) : as.foldl step s ∈ as.scanl step s := by
  induction as generalizing s with
  | nil => simp
  | cons a as ih =>
    rw [foldl_cons, scanl_cons]
    exact mem_cons_of_mem s (ih (step s a))

theorem foldl_keeps (keep : ∀ s a, P s → P (step s a)) (hs : P s)
    (as : List A) : P (as.foldl step s) :=
  invariant (fun s a h _ => keep s a h) hs (along_true s as) _ (foldl_mem_scanl s as)

theorem along_of_foldl {Q : S → Prop} (back : ∀ s a, Q (step s a) → Q s)
    (h : Q (as.foldl step s)) : Along step (fun s a => Q (step s a)) s as := by
  induction as generalizing s with
  | nil => trivial
  | cons a as ih =>
    refine ⟨?_, ih h⟩
    by_contra hnext
    exact foldl_keeps (P := fun s => ¬ Q s) (fun s a hs hq => hs (back s a hq)) hnext as h

/-- **Conditions whose breach leaves a trace**: if a step not under `C` breaks `P` or leaves a trace
    that stays, a run that keeps `P` and ends without a trace is along `C`. -/
theorem along_of_trace {Trace : S → Prop} (keep : ∀ s a, Inv s → C s a → Inv (step s a))
    (breach : ∀ s a, Inv s → ¬ C s a → ¬ P (step s a) ∨ Trace (step s a))
    (stays : ∀ s a, Trace s → Trace (step s a)) (hs : Inv s)
    (hall : ∀ t ∈ as.scanl step s, P t) (hend : ¬ Trace (as.foldl step s)) : Along step C s as := by
  induction as generalizing s with
  | nil => trivial
  | cons a as ih =>
    rw [scanl_cons, forall_mem_cons] at hall
    have hnext : P (step s a) := hall.2 _ (mem_of_mem_head? (by simp))
    have hC : C s a := by
      by_contra hC
      rcases breach s a hs hC with hP | ht
      · exact hP hnext
      · exact hend (foldl_keeps stays ht as)
    exact ⟨hC, ih (keep s a hs hC) hall.2 hend⟩

/-! ## Steps that can fail -/

variable {E : Type} (act : S → A → S × Except E Unit)

/-- Take the steps in order, up to the first one that fails. -/
def attempt : S → List A → S × Except E Unit
  | s, [] => (s, .ok ())
  | s, a :: as =>
    match act s a with
    | (s, .error e) => (s, .error e)
    | (s, .ok ()) => attempt s as

theorem attempt_cases (s : S) (as : List A) : ∃ done, done <+: as ∧
    (attempt act s as).1 = done.foldl (fun s a => (act s a).1) s ∧
    ((attempt act s as).2 = .ok () → done = as) := by
  induction as generalizing s with
  | nil => exact ⟨[], prefix_rfl, rfl, fun _ => rfl⟩
  | cons a as ih =>
    rw [attempt]
    rcases h : act s a with ⟨s', e | ⟨⟩⟩
    · refine ⟨[a], prefix_append [a] as, ?_, fun hok => by cases hok⟩
      simp only [foldl_cons, foldl_nil, h]
    obtain ⟨done, hdone, hs, hall⟩ := ih s'
    refine ⟨a :: done, cons_prefix_cons.2 ⟨rfl, hdone⟩, ?_, fun hok => ?_⟩
    · simp only [foldl_cons, h]
      exact hs
    · rw [hall hok]

theorem attempt_keeps_of_mem
    (keep : ∀ s, ∀ a ∈ as, P s → P (act s a).1) (hs : P s) : P (attempt act s as).1 := by
  induction as generalizing s with
  | nil => exact hs
  | cons a as ih =>
    have hnext := keep s a mem_cons_self hs
    rw [attempt]
    rcases h : act s a with ⟨s', e | ⟨⟩⟩ <;> rw [h] at hnext
    · exact hnext
    · exact ih (fun s a ha => keep s a (mem_cons_of_mem _ ha)) hnext

theorem attempt_keeps (keep : ∀ s a, P s → P (act s a).1) (hs : P s)
    (as : List A) : P (attempt act s as).1 :=
  attempt_keeps_of_mem act (fun s a _ => keep s a) hs

theorem attempt_succeeds (keep : ∀ s, ∀ a ∈ as, P s → P (act s a).1 ∧ (act s a).2 = .ok ())
    (hs : P s) : P (attempt act s as).1 ∧ (attempt act s as).2 = .ok () := by
  induction as generalizing s with
  | nil => exact ⟨hs, rfl⟩
  | cons a as ih =>
    obtain ⟨hnext, hok⟩ := keep s a mem_cons_self hs
    rw [attempt]
    rcases h : act s a with ⟨s', e | ⟨⟩⟩ <;> rw [h] at hnext hok
    · cases hok
    · exact ih (fun s a ha => keep s a (mem_cons_of_mem _ ha)) hnext

theorem attempt_append (s : S) (as bs : List A) : attempt act s (as ++ bs) =
      match attempt act s as with
      | (s, .error e) => (s, .error e)
      | (s, .ok ()) => attempt act s bs := by
  induction as generalizing s with
  | nil => rfl
  | cons a as ih =>
    simp only [cons_append, attempt]
    rcases act s a with ⟨s', e | ⟨⟩⟩
    · rfl
    · exact ih s'

theorem attempt_append_ok {s' : S} (h : attempt act s (as ++ bs) = (s', .ok ())) :
    ∃ btw, attempt act s as = (btw, .ok ()) ∧ attempt act btw bs = (s', .ok ()) := by
  rw [attempt_append] at h
  rcases hf : attempt act s as with ⟨btw, e | ⟨⟩⟩ <;> rw [hf] at h
  · cases h
  · exact ⟨btw, rfl, h⟩

theorem attempt_filter {p : A → Bool} (h : ∀ s a, p a = false → act s a = (s, .ok ())) (s : S)
    (as : List A) : attempt act s (as.filter p) = attempt act s as := by
  induction as generalizing s with
  | nil => rfl
  | cons a as ih =>
    by_cases hp : p a
    · rw [filter_cons_of_pos hp]
      simp only [attempt]
      rcases act s a with ⟨s', e | ⟨⟩⟩
      · rfl
      · exact ih s'
    · rw [filter_cons_of_neg hp, ih]
      simp only [attempt, h s a (by simpa using hp)]

theorem attempt_map {B : Type} {act' : S → B → S × Except E Unit} {f : B → A}
    (as : List B) (h : ∀ s, ∀ b ∈ as, act s (f b) = act' s b) (s : S) :
    attempt act s (as.map f) = attempt act' s as := by
  induction as generalizing s with
  | nil => rfl
  | cons b as ih =>
    simp only [map_cons, attempt, h s b mem_cons_self]
    rcases act' s b with ⟨s', e | ⟨⟩⟩
    · rfl
    · exact ih (fun s b hb => h s b (mem_cons_of_mem _ hb)) s'

section FixedFailures
variable {act} {failure : A → Option E} {effect : S → A → S}

/-- If it does not depend on the state which steps fail, and a step that fails does
    nothing, a run fails with the first of them and has done those before it. -/
theorem attempt_of_failure (hact : ∀ s a, act s a =
      (failure a).elim (effect s a, .ok ()) fun e => (s, .error e))
    {pre : List A} (hpre : ∀ b ∈ pre, failure b = none) {a : A} {e : E}
    (ha : failure a = some e) (after : List A) (s : S) :
    attempt act s (pre ++ a :: after) = (pre.foldl effect s, .error e) := by
  induction pre generalizing s with
  | nil => simp [attempt, hact, ha]
  | cons b pre ih =>
    obtain ⟨hb, hrest⟩ := forall_mem_cons.1 hpre
    rw [cons_append, attempt, hact, hb, foldl_cons]
    exact ih hrest (effect s b)

theorem exists_failure_of_attempt (hact : ∀ s a, act s a =
      (failure a).elim (effect s a, .ok ()) fun e => (s, .error e))
    {s : S} {as : List A} {e : E} (h : (attempt act s as).2 = .error e) :
    ∃ pre a after, as = pre ++ a :: after ∧ (∀ b ∈ pre, failure b = none) ∧
      failure a = some e := by
  induction as generalizing s with
  | nil => cases h
  | cons a as ih =>
    rw [attempt, hact] at h
    cases ha : failure a with
    | some e' =>
      rw [ha] at h
      cases h
      exact ⟨[], a, as, rfl, by simp, ha⟩
    | none =>
      rw [ha] at h
      obtain ⟨pre, b, after, rfl, hpre, hb⟩ := ih h
      exact ⟨a :: pre, b, after, rfl, forall_mem_cons.2 ⟨ha, hpre⟩, hb⟩

end FixedFailures

end Run
