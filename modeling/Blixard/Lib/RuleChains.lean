/-
  Chains of packet filter rules, and the commands that change them.

  The first rule that decides a packet counts; a rule may jump to another chain, and if that
  decides nothing the rules after the jump are tried.  What conditions on packets look like is
  left open.
-/
import Blixard.Lib.Table

namespace RuleChains

open List Std.ExtTreeMap Table

/-! ## Rules -/

inductive Verdict where
  | accept | drop
  deriving DecidableEq

inductive Target (N : Type) where
  | verdict (v : Verdict)
  | jump (chain : N)
  deriving DecidableEq

structure Rule (M N : Type) where
  condition : M
  target : Target N
  deriving DecidableEq

variable {M N P : Type} (holds : M → P → Bool) (chains : N → List (Rule M N)) (p : P)

/-- What a rule says of a packet, with so many jumps left; one jump more drops it. -/
def Rule.decides : ℕ → Rule M N → Option Verdict
  | _, ⟨condition, .verdict v⟩ => if holds condition p then some v else none
  | 0, ⟨condition, .jump _⟩ => if holds condition p then some .drop else none
  | depth + 1, ⟨condition, .jump chain⟩ =>
    if holds condition p then (chains chain).findSome? fun r => r.decides depth else none

def evaluate (depth : ℕ) (rules : List (Rule M N)) : Option Verdict :=
  rules.findSome? fun r => r.decides holds chains p depth

variable {holds chains p} {depth : ℕ} {r : Rule M N} {rules more : List (Rule M N)}

theorem decides_of_not_holds (h : holds r.condition p = false) :
    r.decides holds chains p depth = none := by
  obtain ⟨condition, v | chain⟩ := r
  · simp [Rule.decides, h]
  · cases depth <;> simp [Rule.decides, h]

variable {chain : N} {v : Verdict}

theorem decides_of_verdict (h : holds r.condition p = true)
    (ht : r.target = .verdict v) : r.decides holds chains p depth = some v := by
  obtain ⟨condition, tgt⟩ := r
  cases ht
  simp [Rule.decides, h]

theorem eq_of_decides {w : Verdict} (ht : r.target = .verdict v)
    (h : r.decides holds chains p depth = some w) : w = v ∧ holds r.condition p = true := by
  cases hl : holds r.condition p with
  | true =>
    rw [decides_of_verdict hl ht] at h
    cases h
    exact ⟨rfl, rfl⟩
  | false =>
    rw [decides_of_not_holds hl] at h
    cases h

theorem decides_of_jump (h : holds r.condition p = true) (ht : r.target = .jump chain) :
    r.decides holds chains p (depth + 1) = evaluate holds chains p depth (chains chain) := by
  obtain ⟨condition, tgt⟩ := r
  cases ht
  simp only [Rule.decides, h, if_true]
  rfl

theorem decides_of_jump_zero (h : holds r.condition p = true)
    (ht : r.target = .jump chain) : r.decides holds chains p 0 = some .drop := by
  obtain ⟨condition, tgt⟩ := r
  cases ht
  simp [Rule.decides, h]

theorem evaluate_cons : evaluate holds chains p depth (r :: rules) =
      (r.decides holds chains p depth).or (evaluate holds chains p depth rules) := by
  unfold evaluate
  rw [findSome?_cons]
  cases r.decides holds chains p depth <;> rfl

theorem evaluate_append : evaluate holds chains p depth (rules ++ more) =
      (evaluate holds chains p depth rules).or (evaluate holds chains p depth more) :=
  findSome?_append

theorem evaluate_eq {f : Rule M N → Option Verdict}
    (h : ∀ r ∈ rules, r.decides holds chains p depth = f r) :
    evaluate holds chains p depth rules = rules.findSome? f := by
  induction rules with
  | nil => rfl
  | cons r rules ih =>
    obtain ⟨hr, hrest⟩ := forall_mem_cons.1 h
    rw [evaluate_cons, ih hrest, hr, findSome?_cons]
    cases f r <;> rfl

theorem evaluate_eq_none (h : ∀ r ∈ rules, r.decides holds chains p depth = none) :
    evaluate holds chains p depth rules = none :=
  findSome?_eq_none_iff.2 h

theorem exists_decides (h : evaluate holds chains p depth rules = some v) :
    ∃ r ∈ rules, r.decides holds chains p depth = some v :=
  exists_of_findSome?_eq_some h

theorem evaluate_of_forall {v : Option Verdict} (hne : rules ≠ [])
    (h : ∀ r ∈ rules, r.decides holds chains p depth = v) :
    evaluate holds chains p depth rules = v := by
  cases rules with
  | nil => exact absurd rfl hne
  | cons r rules =>
    obtain ⟨hr, hrest⟩ := forall_mem_cons.1 h
    cases v with
    | some v => rw [evaluate_cons, hr, Option.some_or]
    | none => rw [evaluate_cons, hr, Option.none_or, evaluate_eq_none hrest]

theorem evaluate_verdicts (hall : ∀ r ∈ rules, r.target = .verdict v) :
    evaluate holds chains p depth rules =
      if ∃ r ∈ rules, holds r.condition p = true then some v else none := by
  induction rules with
  | nil => simp [evaluate]
  | cons r rules ih =>
    obtain ⟨hr, hrest⟩ := forall_mem_cons.1 hall
    rw [evaluate_cons, ih hrest]
    cases hl : holds r.condition p with
    | true =>
      rw [decides_of_verdict hl hr, Option.some_or, if_pos ⟨r, mem_cons_self, hl⟩]
    | false =>
      rw [decides_of_not_holds hl, Option.none_or]
      simp [hl]

theorem evaluate_eq_drop (hno : ∀ r ∈ rules, r.decides holds chains p depth ≠ some .accept)
    (hdrop : ∃ r ∈ rules, r.decides holds chains p depth = some .drop) :
    evaluate holds chains p depth rules = some .drop := by
  obtain ⟨r, hr, hdec⟩ := hdrop
  cases hv : evaluate holds chains p depth rules with
  | none =>
    have hnone := findSome?_eq_none_iff.1 hv r hr
    rw [hdec] at hnone
    cases hnone
  | some v =>
    cases v with
    | drop => rfl
    | accept =>
      obtain ⟨r', hr', hacc⟩ := exists_decides hv
      exact absurd hacc (hno r' hr')

/-! ## Chains that drop a packet -/

/-- The first rule that applies drops the packet. -/
def FirstDrops (holds : M → P → Bool) (p : P) (rules : List (Rule M N)) : Prop :=
  ∃ r, rules.find? (fun r => holds r.condition p) = some r ∧ r.target = .verdict .drop

theorem FirstDrops.evaluate (h : FirstDrops holds p rules) :
    evaluate holds chains p depth rules = some .drop := by
  obtain ⟨r, hfind, ht⟩ := h
  obtain ⟨hl, pre, after, rfl, hpre⟩ := find?_eq_some_iff_append.1 hfind
  have hnone : RuleChains.evaluate holds chains p depth pre = none :=
    evaluate_eq_none fun r' hr' => decides_of_not_holds (by simpa using hpre r' hr')
  rw [evaluate_append, hnone, Option.none_or, evaluate_cons,
    decides_of_verdict hl ht, Option.some_or]

theorem FirstDrops.decides_jump (hc : FirstDrops holds p (chains chain))
    (h : holds r.condition p = true) (ht : r.target = .jump chain) :
    r.decides holds chains p depth = some .drop := by
  cases depth with
  | zero => exact decides_of_jump_zero h ht
  | succ depth => rw [decides_of_jump h ht, hc.evaluate]

theorem FirstDrops.append (h : FirstDrops holds p rules) (more : List (Rule M N)) :
    FirstDrops holds p (rules ++ more) := by
  obtain ⟨r, hfind, ht⟩ := h
  exact ⟨r, by rw [find?_append, hfind, Option.some_or], ht⟩

theorem FirstDrops.cons (h : FirstDrops holds p rules) (hr : holds r.condition p = false) :
    FirstDrops holds p (r :: rules) := by
  obtain ⟨r', hfind, ht⟩ := h
  exact ⟨r', by rw [find?_cons_of_neg (by simp [hr]), hfind], ht⟩

theorem FirstDrops.prepend {pre : List (Rule M N)} (h : FirstDrops holds p rules)
    (hpre : ∀ r ∈ pre, holds r.condition p = false) : FirstDrops holds p (pre ++ rules) := by
  induction pre with
  | nil => exact h
  | cons r pre ih =>
    obtain ⟨hr, hrest⟩ := forall_mem_cons.1 hpre
    exact (ih hrest).cons hr

theorem FirstDrops.erase [DecidableEq M] [DecidableEq N] (h : FirstDrops holds p rules)
    (hr : r.target ≠ .verdict .drop) : FirstDrops holds p (rules.erase r) := by
  obtain ⟨r', hfind, ht⟩ := h
  refine ⟨r', ?_, ht⟩
  induction rules with
  | nil => simp at hfind
  | cons a rules ih =>
    cases hl : holds a.condition p with
    | true =>
      simp only [find?_cons, hl, Option.some.injEq] at hfind
      subst hfind
      have ho : a ≠ r := fun heq => hr (heq ▸ ht)
      rw [erase_cons_tail (by simpa using ho)]
      simp only [find?_cons, hl]
    | false =>
      simp only [find?_cons, hl] at hfind
      by_cases hsame : a = r
      · subst hsame
        rw [erase_cons_head]
        exact hfind
      · rw [erase_cons_tail (by simpa using hsame)]
        simp only [find?_cons, hl]
        exact ih hfind

theorem firstDrops_of_forall (hall : ∀ r ∈ rules, r.target = .verdict .drop)
    (hsome : ∃ r ∈ rules, holds r.condition p = true) : FirstDrops holds p rules := by
  obtain ⟨r, hr, hl⟩ := hsome
  have hf : (rules.find? fun r => holds r.condition p).isSome = true :=
    find?_isSome.2 ⟨r, hr, hl⟩
  obtain ⟨r', hfind⟩ := Option.isSome_iff_exists.1 hf
  exact ⟨r', hfind, hall r' (mem_of_find?_eq_some hfind)⟩

/-- Whatever other chains say, the rules do not accept the packet. -/
def NeverAccepts (holds : M → P → Bool) (p : P) (rules : List (Rule M N)) : Prop :=
  ∀ chains depth, evaluate holds chains p depth rules ≠ some .accept

theorem FirstDrops.neverAccepts (h : FirstDrops holds p rules) : NeverAccepts holds p rules := by
  intro chains depth hacc
  rw [h.evaluate] at hacc
  cases hacc

theorem neverAccepts_of_forall
    (h : ∀ r ∈ rules, holds r.condition p = true → r.target = .verdict .drop) :
    NeverAccepts holds p rules := by
  intro chains depth hacc
  obtain ⟨r, hr, hdec⟩ := exists_decides hacc
  cases hl : holds r.condition p with
  | false =>
    rw [decides_of_not_holds hl] at hdec
    cases hdec
  | true =>
    rw [decides_of_verdict hl (h r hr hl)] at hdec
    cases hdec

theorem NeverAccepts.decides_jump (hc : NeverAccepts holds p (chains chain))
    (ht : r.target = .jump chain) : r.decides holds chains p depth ≠ some .accept := by
  intro hacc
  cases hl : holds r.condition p with
  | false =>
    rw [decides_of_not_holds hl] at hacc
    cases hacc
  | true =>
    cases depth with
    | zero =>
      rw [decides_of_jump_zero hl ht] at hacc
      cases hacc
    | succ depth =>
      rw [decides_of_jump hl ht] at hacc
      exact hc chains depth hacc

theorem NeverAccepts.append (h : NeverAccepts holds p rules) (hmore : NeverAccepts holds p more) :
    NeverAccepts holds p (rules ++ more) := by
  intro chains depth hacc
  rw [evaluate_append] at hacc
  cases hf : RuleChains.evaluate holds chains p depth rules with
  | none =>
    rw [hf, Option.none_or] at hacc
    exact hmore chains depth hacc
  | some v =>
    rw [hf, Option.some_or] at hacc
    exact h chains depth (hf.trans hacc)

inductive Command (M N : Type) where
  | addTable
  | addChain (chain : N)
  | append (chain : N) (rule : Rule M N)
  | insert (chain : N) (rule : Rule M N)
  | deleteRule (chain : N) (rule : Rule M N)
  | deleteChain (chain : N)
  /-- Create the chains that are missing and append the rules, all or none. -/
  | load (blocks : List (N × List (Rule M N)))

variable [DecidableEq M] [DecidableEq N]

/-! ## What commands do to one chain -/

def Command.effect (c : N) : Command M N → Option (List (Rule M N)) → Option (List (Rule M N))
  | .addTable, rules => rules
  | .addChain chain, rules => if chain = c then some (rules.getD []) else rules
  | .append chain r, rules => if chain = c then rules.map (· ++ [r]) else rules
  | .insert chain r, rules => if chain = c then rules.map (r :: ·) else rules
  | .deleteRule chain r, rules => if chain = c then rules.map (·.erase r) else rules
  | .deleteChain chain, rules => if chain = c then none else rules
  | .load blocks, rules =>
    if ∃ block ∈ blocks, block.1 = c then
      some (rules.getD [] ++ (blocks.filter (·.1 = c)).flatMap Prod.snd)
    else rules

def effects (c : N) (commands : List (Command M N)) (rules : Option (List (Rule M N))) :
    Option (List (Rule M N)) :=
  commands.foldl (fun rules command => command.effect c rules) rules

section
variable {c : N} {command : Command M N} {commands : List (Command M N)}

theorem effects_cons (rules : Option (List (Rule M N))) :
    effects c (command :: commands) rules = effects c commands (command.effect c rules) := rfl

theorem effects_concat (first second : List (Command M N)) (rules : Option (List (Rule M N))) :
    effects c (first ++ second) rules = effects c second (effects c first rules) :=
  foldl_append

def Command.About (c : N) : Command M N → Prop
  | .addTable => False
  | .addChain chain => chain = c
  | .append chain _ => chain = c
  | .insert chain _ => chain = c
  | .deleteRule chain _ => chain = c
  | .deleteChain chain => chain = c
  | .load blocks => ∃ block ∈ blocks, block.1 = c

theorem effect_of_not_about (h : ¬ command.About c) (rules : Option (List (Rule M N))) :
    command.effect c rules = rules := by
  cases command <;> first | rfl | exact if_neg h

theorem effects_of_not_about (h : ∀ cmd ∈ cmds, ¬ cmd.About c)
    (rules : Option (List (Rule M N))) : effects c cmds rules = rules := by
  induction cmds generalizing rules with
  | nil => rfl
  | cons cmd cmds ih =>
    obtain ⟨hf, hrest⟩ := forall_mem_cons.1 h
    rw [effects_cons, effect_of_not_about hf, ih hrest]

theorem effects_append (more : List (Rule M N)) (rules : Option (List (Rule M N))) :
    effects c (more.map (.append c)) rules = rules.map (· ++ more) := by
  induction more generalizing rules with
  | nil => simp [effects]
  | cons r more ih =>
    rw [map_cons, effects_cons, ih, Command.effect, if_pos rfl, Option.map_map]
    simp [Function.comp_def]

theorem effects_insert (more : List (Rule M N)) (rules : Option (List (Rule M N))) :
    effects c (more.map (.insert c)) rules = rules.map (more.reverse ++ ·) := by
  induction more generalizing rules with
  | nil => simp [effects]
  | cons r more ih =>
    rw [map_cons, effects_cons, ih, Command.effect, if_pos rfl, Option.map_map]
    simp [Function.comp_def]

variable (holds) in
/-- Only rules that do not apply are put in front of a chain, and none that drops is removed. -/
def Command.Respects (p : P) (c : N) : Command M N → Prop
  | .insert chain r => chain = c → holds r.condition p = false
  | .deleteRule chain r => chain = c → r.target ≠ .verdict .drop
  | _ => True

theorem FirstDrops.effect {rules after : List (Rule M N)}
    (h : FirstDrops holds p rules) (hr : command.Respects holds p c)
    (ha : command.effect c (some rules) = some after) : FirstDrops holds p after := by
  cases command with
  | addTable =>
    cases ha
    exact h
  | addChain chain =>
    simp only [Command.effect, Option.getD_some, ite_self, Option.some.injEq] at ha
    exact ha ▸ h
  | append chain r =>
    simp only [Command.effect] at ha
    split_ifs at ha <;> cases ha
    · exact h.append [r]
    · exact h
  | insert chain r =>
    simp only [Command.effect] at ha
    split_ifs at ha with hsame <;> cases ha
    · exact h.cons (hr hsame)
    · exact h
  | deleteRule chain r =>
    simp only [Command.effect] at ha
    split_ifs at ha with hsame <;> cases ha
    · exact h.erase (hr hsame)
    · exact h
  | deleteChain chain =>
    simp only [Command.effect] at ha
    split_ifs at ha
    cases ha
    exact h
  | load blocks =>
    simp only [Command.effect] at ha
    split_ifs at ha <;> cases ha
    · exact h.append _
    · exact h

end

/-! ## Sets of chains -/

variable [Ord N] [Std.TransOrd N] [Std.LawfulEqOrd N]

/-- The chains of a table, which may be missing. -/
structure Ruleset (M N : Type) [Ord N] where
  present : Bool
  chains : Table N (List (Rule M N))

/-- The chains that packets come into by themselves, to which no rule can jump, and whether
    a chain can be deleted while there are rules in it. -/
structure Tool (N : Type) where
  bases : List N
  deletesFull : Bool

namespace Ruleset

variable (tool : Tool N) (rs : Ruleset M N)

def edit (chain : N) (change : List (Rule M N) → Option (List (Rule M N))) :
    Option (Ruleset M N) :=
  rs.chains[chain]?.bind fun rules =>
    (change rules).map fun rules => { rs with chains := rs.chains.insert chain rules }

def admits (r : Rule M N) : Bool :=
  match r.target with
  | .verdict _ => true
  | .jump chain => chain ∈ rs.chains ∧ chain ∉ tool.bases

def used (chain : N) : Bool :=
  rs.chains.toList.any fun c => c.2.any fun r => r.target = .jump chain

def addChain (chain : N) : Ruleset M N :=
  if chain ∈ rs.chains then rs else { rs with chains := rs.chains.insert chain [] }

def addBlock (block : N × List (Rule M N)) : Ruleset M N :=
  { rs with
    present := true
    chains := rs.chains.insert block.1 (rs.chains[block.1]?.getD [] ++ block.2) }

end Ruleset

def Command.run (tool : Tool N) (rs : Ruleset M N) : Command M N → Option (Ruleset M N)
  | .addTable => some { rs with present := true }
  | .addChain chain => if rs.present then some (rs.addChain chain) else none
  | .append chain r =>
    if rs.admits tool r then rs.edit chain fun rules => some (rules ++ [r]) else none
  | .insert chain r =>
    if rs.admits tool r then rs.edit chain fun rules => some (r :: rules) else none
  | .deleteRule chain r =>
    rs.edit chain fun rules => if r ∈ rules then some (rules.erase r) else none
  | .deleteChain chain =>
    rs.chains[chain]?.bind fun rules =>
      if rs.used chain = false ∧ (tool.deletesFull ∨ rules = []) then
        some { rs with chains := rs.chains.erase chain }
      else none
  | .load blocks => some (blocks.foldl Ruleset.addBlock rs)

section
variable {tool : Tool N} {rs rs' : Ruleset M N} {c chain : N}

omit [DecidableEq M] in
theorem edit_eq_some {chg : List (Rule M N) → Option (List (Rule M N))}
    (h : rs.edit chain chg = some rs') :
    ∃ pre after, rs.chains[chain]? = some pre ∧ chg pre = some after ∧
      ∀ c, rs'.chains[c]? = if chain = c then some after else rs.chains[c]? := by
  obtain ⟨pre, hpre, h⟩ := Option.bind_eq_some_iff.1 h
  obtain ⟨after, haft, rfl⟩ := Option.map_eq_some_iff.1 h
  exact ⟨pre, after, hpre, haft, fun c => get_insert _ _ _ _⟩

omit [DecidableEq M] in
theorem get_addChain : (rs.addChain chain).chains[c]? =
    if chain = c then some (rs.chains[c]?.getD []) else rs.chains[c]? := by
  unfold Ruleset.addChain
  by_cases hsame : chain = c
  · subst hsame
    rw [if_pos rfl]
    split_ifs with hmem
    · obtain ⟨rules, hrls⟩ := (mem_iff _ _).1 hmem
      rw [hrls, Option.getD_some]
    · rw [get_insert, if_pos rfl, getElem?_eq_none hmem, Option.getD_none]
  · rw [if_neg hsame]
    split_ifs
    · rfl
    · rw [get_insert, if_neg hsame]

omit [DecidableEq M] in
theorem get_addBlock {block : N × List (Rule M N)} : (rs.addBlock block).chains[c]? =
    if block.1 = c then some (rs.chains[c]?.getD [] ++ block.2) else rs.chains[c]? := by
  unfold Ruleset.addBlock
  rw [get_insert]
  split_ifs with hsame
  · rw [hsame]
  · rfl

omit [DecidableEq M] in
theorem get_addBlocks {blocks : List (N × List (Rule M N))} :
    (blocks.foldl Ruleset.addBlock rs).chains[c]? =
      if ∃ block ∈ blocks, block.1 = c then
        some (rs.chains[c]?.getD [] ++ (blocks.filter (·.1 = c)).flatMap Prod.snd)
      else rs.chains[c]? := by
  induction blocks generalizing rs with
  | nil => simp
  | cons block blocks ih =>
    rw [foldl_cons, ih, get_addBlock]
    by_cases hsame : block.1 = c
    · simp only [hsame, if_true, mem_cons, exists_eq_or_imp, true_or, decide_true,
        filter_cons_of_pos, flatMap_cons, Option.getD_some]
      split_ifs with hmore
      · rw [append_assoc]
      have hnone : blocks.filter (fun b => b.1 = c) = [] := by
        rw [filter_eq_nil_iff]
        intro b hb
        simpa using fun heq => hmore ⟨b, hb, heq⟩
      rw [hnone, flatMap_nil, append_nil]
    · simp only [hsame, if_false, mem_cons, exists_eq_or_imp, false_or, decide_false,
        Bool.false_eq_true, not_false_eq_true, filter_cons_of_neg]

omit [Std.LawfulEqOrd N] [DecidableEq M] in
theorem admits_jump {r : Rule M N} (h : rs.admits tool r = true)
    (htgt : r.target = .jump chain) : chain ∈ rs.chains ∧ chain ∉ tool.bases := by
  unfold Ruleset.admits at h
  rw [htgt] at h
  exact of_decide_eq_true h

theorem run_append {r : Rule M N} (h : (Command.append chain r).run tool rs = some rs') :
    rs.admits tool r = true ∧ ∃ pre, rs.chains[chain]? = some pre ∧
      ∀ c, rs'.chains[c]? = if chain = c then some (pre ++ [r]) else rs.chains[c]? := by
  simp only [Command.run] at h
  split_ifs at h with ha
  obtain ⟨pre, _, hpre, ⟨⟩, hget⟩ := edit_eq_some h
  exact ⟨ha, pre, hpre, hget⟩

theorem run_insert {r : Rule M N} (h : (Command.insert chain r).run tool rs = some rs') :
    rs.admits tool r = true ∧ ∃ pre, rs.chains[chain]? = some pre ∧
      ∀ c, rs'.chains[c]? = if chain = c then some (r :: pre) else rs.chains[c]? := by
  simp only [Command.run] at h
  split_ifs at h with ha
  obtain ⟨pre, _, hpre, ⟨⟩, hget⟩ := edit_eq_some h
  exact ⟨ha, pre, hpre, hget⟩

theorem run_deleteRule {r : Rule M N} (h : (Command.deleteRule chain r).run tool rs = some rs') :
    ∃ pre, rs.chains[chain]? = some pre ∧
      ∀ c, rs'.chains[c]? = if chain = c then some (pre.erase r) else rs.chains[c]? := by
  obtain ⟨pre, after, hpre, ha, hget⟩ := edit_eq_some h
  split_ifs at ha
  cases ha
  exact ⟨pre, hpre, hget⟩

theorem run_deleteChain (h : (Command.deleteChain chain).run tool rs = some rs') :
    rs.used chain = false ∧ (tool.deletesFull = true ∨ rs.chains[chain]? = some []) ∧
      ∀ c, rs'.chains[c]? = if chain = c then none else rs.chains[c]? := by
  obtain ⟨pre, hpre, h⟩ := Option.bind_eq_some_iff.1 h
  split_ifs at h with hcan
  cases h
  obtain ⟨hu, he⟩ := hcan
  refine ⟨hu, ?_, fun c => get_erase _ _ _⟩
  rcases he with hfull | rfl
  · exact .inl hfull
  · exact .inr hpre

variable {cmd : Command M N} {cmds : List (Command M N)}

/-- **What commands do** to the rules of each chain. -/
theorem run_get (h : cmd.run tool rs = some rs') : rs'.chains[c]? = cmd.effect c rs.chains[c]? := by
  cases cmd with
  | addTable =>
    cases h
    rfl
  | addChain chain =>
    simp only [Command.run] at h
    split_ifs at h
    cases h
    exact get_addChain
  | append chain r =>
    obtain ⟨-, pre, hpre, hget⟩ := run_append h
    rw [hget, Command.effect]
    split_ifs with hsame
    · rw [← hsame, hpre, Option.map_some]
    · rfl
  | insert chain r =>
    obtain ⟨-, pre, hpre, hget⟩ := run_insert h
    rw [hget, Command.effect]
    split_ifs with hsame
    · rw [← hsame, hpre, Option.map_some]
    · rfl
  | deleteRule chain r =>
    obtain ⟨pre, hpre, hget⟩ := run_deleteRule h
    rw [hget, Command.effect]
    split_ifs with hsame
    · rw [← hsame, hpre, Option.map_some]
    · rfl
  | deleteChain chain =>
    obtain ⟨-, -, hget⟩ := run_deleteChain h
    rw [hget, Command.effect]
  | load blocks =>
    cases h
    exact get_addBlocks

omit [DecidableEq M] in
theorem used_of_jump {rules : List (Rule M N)} {r : Rule M N} (h : rs.chains[c]? = some rules)
    (hr : r ∈ rules) (htgt : r.target = .jump chain) : rs.used chain = true := by
  unfold Ruleset.used
  rw [any_eq_true]
  refine ⟨(c, rules), mem_toList_iff_getElem?_eq_some.2 h, ?_⟩
  rw [any_eq_true]
  exact ⟨r, hr, by simpa using htgt⟩

def runAll (tool : Tool N) (rs : Ruleset M N) (commands : List (Command M N)) :
    Option (Ruleset M N) :=
  commands.foldlM (fun rs command => command.run tool rs) rs

omit [Std.LawfulEqOrd N] in
theorem runAll_cons (h : runAll tool rs (cmd :: cmds) = some rs') :
    ∃ btw, cmd.run tool rs = some btw ∧ runAll tool btw cmds = some rs' := by
  rw [runAll, foldlM_cons] at h
  exact Option.bind_eq_some_iff.1 h

theorem runAll_get (h : runAll tool rs cmds = some rs') :
    rs'.chains[c]? = effects c cmds rs.chains[c]? := by
  induction cmds generalizing rs with
  | nil =>
    cases h
    rfl
  | cons cmd cmds ih =>
    obtain ⟨btw, hf, hrest⟩ := runAll_cons h
    rw [effects_cons, ih hrest, run_get hf]

variable (holds) in
/-- A chain whose first rule that applies drops the packet. -/
def DropsIn (p : P) (rs : Ruleset M N) (c : N) : Prop :=
  ∃ rules, rs.chains[c]? = some rules ∧ FirstDrops holds p rules

theorem DropsIn.run (h : DropsIn holds p rs c) (hr : cmd.Respects holds p c)
    (hfull : ∀ chain, cmd = .deleteChain chain → chain = c → tool.deletesFull = false)
    (hrun : cmd.run tool rs = some rs') : DropsIn holds p rs' c := by
  obtain ⟨rules, hl, hd⟩ := h
  have hget := run_get (c := c) hrun
  rw [hl] at hget
  cases ha : cmd.effect c (some rules) with
  | some after => exact ⟨after, hget.trans ha, hd.effect hr ha⟩
  | none =>
    -- only the deletion of the chain makes it go away
    cases cmd with
    | deleteChain chain =>
      simp only [Command.effect] at ha
      split_ifs at ha with hsame
      obtain ⟨-, hfull' | he, -⟩ := run_deleteChain hrun
      · rw [hfull chain rfl hsame] at hfull'
        cases hfull'
      rw [hsame, hl] at he
      cases he
      obtain ⟨r, hfind, -⟩ := hd
      cases hfind
    | addTable => cases ha
    | addChain | append | insert | deleteRule | load =>
      simp only [Command.effect] at ha
      split_ifs at ha <;> cases ha

end

end RuleChains
