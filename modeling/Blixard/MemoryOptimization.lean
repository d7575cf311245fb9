/-
  Caches with a maximal size (`memory_optimization`).

  A full cache is emptied by a part of its size, which comes to nothing for small sizes
  (`bounded_exactly`).
-/
import Blixard.Lib.Run
import Blixard.Lib.Table

namespace Blixard

open List Std.ExtTreeMap Table

/-- The order in which a map lists its keys at one moment; it also depends on what happened to the
    map before, so that each call has an order of its own. -/
structure KeyOrder (K V : Type) [Ord K] [Std.TransOrd K] where
  keys : Table K V → List K
  perm : ∀ t, (keys t).Perm t.keys

structure StringPool where
  pool : Table String String
  maxSize : ℕ

namespace StringPool

def new (maxSize : ℕ) : StringPool := ⟨∅, maxSize⟩

/-- A full pool first loses a tenth of its size. -/
def intern (order : KeyOrder String String) (p : StringPool) (s : String) : String × StringPool :=
  match p.pool[s]? with
  | some arcStr => (arcStr, p)
  | none =>
    let pool := if p.maxSize ≤ p.pool.size then
        eraseAll p.pool ((order.keys p.pool).take (p.maxSize / 10))
      else p.pool
    (s, { p with pool := pool.insert s s })

def internAll (p : StringPool) (calls : List (KeyOrder String String × String)) : StringPool :=
  calls.foldl (fun p call => (p.intern call.1 call.2).2) p

end StringPool

/-! ## Shared values -/

/-- A cache of weak references: a row is without a value once the value has been dropped. -/
structure ArcCache (K V : Type) [Ord K] where
  cache : Table K (Option V)
  maxSize : ℕ

inductive ArcEvent (K V : Type) [Ord K] [Std.TransOrd K] where
  | getOrCreate (order : KeyOrder K (Option V)) (key : K) (value : V)
  | dropValue (key : K)

namespace ArcCache

variable {K V : Type} [Ord K] [Std.TransOrd K]

def new (maxSize : ℕ) : ArcCache K V := ⟨∅, maxSize⟩

/-- The dead rows go when the cache is full, and all but half of the size if that was not enough,
    in the order in which the map lists its `keys`. -/
def makeRoom (keys : Table K (Option V) → List K) (c : ArcCache K V) : Table K (Option V) :=
  if c.maxSize ≤ c.cache.size then
    let live := c.cache.filter fun _ weak => weak.isSome
    if c.maxSize ≤ live.size then
      eraseAll live ((keys live).take (live.size - c.maxSize / 2))
    else live
  else c.cache

/-- The new value is made by `createFn`, from a state of the caller. -/
def getOrCreate {S : Type} (keys : Table K (Option V) → List K) (c : ArcCache K V) (key : K)
    (createFn : S → V × S) (s : S) : V × ArcCache K V × S :=
  match c.cache[key]? with
  | some (some value) => (value, c, s)
  | _ =>
    let (value, s) := createFn s
    (value, { c with cache := (c.makeRoom keys).insert key (some value) }, s)

def dropValue (c : ArcCache K V) (key : K) : ArcCache K V :=
  { c with cache := c.cache.modify key fun _ => none }

def step (c : ArcCache K V) : ArcEvent K V → ArcCache K V
  | .getOrCreate order key value => (c.getOrCreate order.keys key (fun s => (value, s)) ()).2.1
  | .dropValue key => c.dropValue key

end ArcCache

/-- A reference is without a value once the value has been dropped. -/
structure WeakCache (T : Type) where
  cache : List (Option T)
  maxSize : ℕ

inductive WeakEvent (T : Type) where
  | add (value : T)
  | dropValue (position : ℕ)

namespace WeakCache

variable {T : Type}

def new (maxSize : ℕ) : WeakCache T := ⟨[], maxSize⟩

/-- The dead references go when the cache is full, and the oldest ones, half of the size, if that
    was not enough. -/
def makeRoom (c : WeakCache T) : List (Option T) :=
  if c.maxSize ≤ c.cache.length then
    let live := c.cache.filter Option.isSome
    if c.maxSize ≤ live.length then live.drop (c.maxSize / 2) else live
  else c.cache

def step (c : WeakCache T) : WeakEvent T → WeakCache T
  | .add value => { c with cache := c.makeRoom ++ [some value] }
  | .dropValue position => { c with cache := c.cache.modify position fun _ => none }

end WeakCache

/-! ## Sizes -/

section
variable {K V : Type} [Ord K] [Std.TransOrd K] [Std.LawfulEqOrd K] {t : Table K V}

theorem size_eraseAll {ks : List K} (hks : ks.Nodup) (h : ∀ k ∈ ks, k ∈ t) :
    (eraseAll t ks).size = t.size - ks.length := by
  induction ks generalizing t with
  | nil => rfl
  | cons k ks ih =>
    obtain ⟨hk, hks⟩ := nodup_cons.1 hks
    obtain ⟨hmem, hrest⟩ := forall_mem_cons.1 h
    have hleft : ∀ k' ∈ ks, k' ∈ t.erase k := by
      intro k' hk'
      exact Table.mem_erase.2 ⟨fun heq => hk (heq ▸ hk'), hrest k' hk'⟩
    rw [eraseAll, foldl_cons, ← eraseAll, ih hks hleft, size_erase,
      if_pos (mem_iff_contains.1 hmem), length_cons]
    omega

theorem size_eraseAll_take (order : KeyOrder K V) (t : Table K V) (n : ℕ) :
    (eraseAll t ((order.keys t).take n)).size = t.size - n := by
  have hperm := order.perm t
  have hn : (order.keys t).Nodup := hperm.nodup_iff.2 nodup_keys
  rw [size_eraseAll (hn.sublist (take_sublist n _)), length_take, hperm.length_eq,
    length_keys]
  · omega
  · intro k hk
    exact mem_keys.1 (hperm.mem_iff.1 (mem_of_mem_take hk))

theorem ArcCache.size_makeRoom (order : KeyOrder K (Option V)) (c : ArcCache K V) :
    (c.makeRoom order.keys).size + 1 ≤ max 1 c.maxSize := by
  simp only [makeRoom]
  split_ifs
  · rw [size_eraseAll_take]
    omega
  · omega
  · omega

theorem ArcCache.step_bound {n : ℕ} (c : ArcCache K V) (event : ArcEvent K V)
    (h : c.maxSize = n ∧ c.cache.size ≤ max 1 n) :
    (c.step event).maxSize = n ∧ (c.step event).cache.size ≤ max 1 n := by
  obtain ⟨rfl, hsize⟩ := h
  cases event with
  | getOrCreate order key value =>
    simp only [step, getOrCreate]
    split
    · exact ⟨rfl, hsize⟩
    · exact ⟨rfl, size_insert_le.trans (c.size_makeRoom order)⟩
  | dropValue key => exact ⟨rfl, size_modify.trans_le hsize⟩

end

namespace StringPool

variable {order : KeyOrder String String} {p : StringPool} {n : ℕ}

theorem intern_bound (hten : 10 ≤ n) (p : StringPool) (s : String)
    (h : p.maxSize = n ∧ p.pool.size ≤ n) :
    (p.intern order s).2.maxSize = n ∧ (p.intern order s).2.pool.size ≤ n := by
  obtain ⟨rfl, hsize⟩ := h
  unfold intern
  split
  · exact ⟨rfl, hsize⟩
  · refine ⟨rfl, size_insert_le.trans ?_⟩
    split_ifs
    · rw [size_eraseAll_take]
      omega
    · omega

/-- Nothing is evicted from a small pool. -/
theorem intern_small {s : String} (hten : p.maxSize < 10) (hs : s ∉ p.pool) :
    (p.intern order s).2 = { p with pool := p.pool.insert s s } := by
  have hnone : p.maxSize / 10 = 0 := by omega
  simp [intern, getElem?_eq_none hs, hnone, eraseAll]

/-- So many calls with different strings. -/
def distinct (order : KeyOrder String String) (count : ℕ) : List (KeyOrder String String × String) :=
  (range count).map fun i => (order, String.ofList (replicate i 'a'))

theorem internAll_small (hn : n < 10) (count : ℕ) :
    let p := (new n).internAll (distinct order count)
    p.maxSize = n ∧ p.pool.size = count ∧ ∀ s ∈ p.pool, s.length < count := by
  induction count with
  | zero => exact ⟨rfl, rfl, fun s hs => absurd hs not_mem_empty⟩
  | succ count ih =>
    obtain ⟨hmax, hsize, hlen⟩ := ih
    have hnew : String.ofList (replicate count 'a') ∉
        ((new n).internAll (distinct order count)).pool := by
      intro hmem
      have hlt := hlen _ hmem
      simp at hlt
    have hnext : (new n).internAll (distinct order (count + 1)) =
        (((new n).internAll (distinct order count)).intern order
          (String.ofList (replicate count 'a'))).2 := by
      rw [internAll, distinct, range_succ, map_append, foldl_append]
      rfl
    rw [hnext, intern_small (hmax.trans_lt hn) hnew]
    refine ⟨hmax, ?_, fun s hs => ?_⟩
    · rw [size_insert, if_neg (mt mem_iff_contains.2 hnew), hsize]
    · rcases Table.mem_insert.1 hs with rfl | hs
      · simp
      · exact (hlen s hs).trans (Nat.lt_succ_self _)

end StringPool

namespace WeakCache

variable {T : Type} {c : WeakCache T} {n : ℕ}

theorem step_bound (htwo : 2 ≤ n) (c : WeakCache T) (event : WeakEvent T)
    (h : c.maxSize = n ∧ c.cache.length ≤ n) :
    (c.step event).maxSize = n ∧ (c.step event).cache.length ≤ n := by
  obtain ⟨rfl, hsize⟩ := h
  cases event with
  | add value =>
    refine ⟨rfl, ?_⟩
    have hlive := length_filter_le Option.isSome c.cache
    simp only [step, makeRoom, length_append, length_singleton]
    split_ifs
    · rw [length_drop]
      omega
    · omega
    · omega
  | dropValue position => exact ⟨rfl, (length_modify ..).trans_le hsize⟩

/-- Nothing is evicted from a small cache of values that are in use. -/
theorem add_small (value : T) (htwo : c.maxSize < 2) (h : ∀ weak ∈ c.cache, weak.isSome) :
    c.step (.add value) = { c with cache := c.cache ++ [some value] } := by
  have hnone : c.maxSize / 2 = 0 := by omega
  simp [step, makeRoom, hnone, filter_eq_self.2 h]

theorem adds_small (hn : n < 2) (value : T) (count : ℕ) :
    (replicate count (.add value)).foldl step (new n) =
      ⟨replicate count (some value), n⟩ := by
  induction count with
  | zero => rfl
  | succ count ih =>
    rw [replicate_succ', foldl_append, ih, foldl_cons, foldl_nil,
      add_small value hn (by simp), replicate_succ']

end WeakCache

/-- **Bounded caches**: the pool of strings stays within its size exactly from 10 on and the weak
    references from 2 on; the shared values always do. -/
theorem bounded_exactly (maxSize : ℕ) :
    ((∀ calls : List (KeyOrder String String × String),
      ((StringPool.new maxSize).internAll calls).pool.size ≤ max 1 maxSize) ↔ 10 ≤ maxSize) ∧
    (∀ (K V : Type) [Ord K] [Std.TransOrd K] [Std.LawfulEqOrd K] (events : List (ArcEvent K V)),
      (events.foldl ArcCache.step (ArcCache.new maxSize)).cache.size ≤ max 1 maxSize) ∧
    ((∀ (T : Type) (events : List (WeakEvent T)),
      (events.foldl WeakCache.step (WeakCache.new maxSize)).cache.length ≤ max 1 maxSize) ↔
        2 ≤ maxSize) := by
  refine ⟨⟨fun h => ?_, fun hten calls => ?_⟩, fun K V _ _ _ events => ?_,
    ⟨fun h => ?_, fun htwo T events => ?_⟩⟩
  · by_contra hless
    have hall := h (StringPool.distinct ⟨fun t => t.keys, fun t => .refl _⟩ (max 1 maxSize + 1))
    rw [(StringPool.internAll_small (Nat.lt_of_not_le hless) _).2.1] at hall
    omega
  · have hstep (p : StringPool) (call : KeyOrder String String × String) :=
      @StringPool.intern_bound call.1 maxSize hten p call.2
    exact (Run.foldl_keeps hstep (s := .new maxSize) ⟨rfl, Nat.zero_le _⟩ calls).2.trans
      (Nat.le_max_right _ _)
  · exact (Run.foldl_keeps (s := ArcCache.new maxSize) ArcCache.step_bound ⟨rfl, Nat.zero_le _⟩
      events).2
  · by_contra hless
    have hall := h Unit (replicate (max 1 maxSize + 1) (.add ()))
    rw [WeakCache.adds_small (Nat.lt_of_not_le hless), length_replicate] at hall
    omega
  · exact (Run.foldl_keeps (s := .new maxSize) (WeakCache.step_bound htwo) ⟨rfl, Nat.zero_le _⟩
      events).2.trans (Nat.le_max_right _ _)

/-- A pool for one string holds two. -/
theorem two_strings : ¬ ∀ (maxSize : ℕ) (calls : List (KeyOrder String String × String)),
    ((StringPool.new maxSize).internAll calls).pool.size ≤ max 1 maxSize := by
  intro h
  have hall := h 1 (["node-1", "node-2"].map (⟨fun t => t.keys, fun t => .refl _⟩, ·))
  exact absurd hall (by decide +kernel)

end Blixard
