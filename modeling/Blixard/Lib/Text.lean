/-
  Decimal numbers and lines in texts.

  Numbers that are padded with zeros to one width are ordered as their texts are, and can be read
  back.  `lines` splits a text as buffered readers do.
-/
import Mathlib.Data.String.Basic

namespace Text

open List

/-! ## Padded numbers -/

def padded (w n : ℕ) : List Char :=
  List.replicate (w - (Nat.toDigits 10 n).length) '0' ++ Nat.toDigits 10 n

variable {w m n : ℕ} {l l' : List Char}

theorem le_length_padded (w n : ℕ) : w ≤ (padded w n).length := by
  simp only [padded, length_append, length_replicate]
  omega

theorem length_padded (hw : 0 < w) (hn : n < 10 ^ w) : (padded w n).length = w := by
  have hle : (Nat.toDigits 10 n).length ≤ w := (Nat.length_toDigits_le_iff (by omega) hw).2 hn
  simp only [padded, length_append, length_replicate]
  omega

theorem isDigit_of_mem_padded {c : Char} (hc : c ∈ padded w n) : c.isDigit = true := by
  rcases mem_append.1 hc with h | h
  · rw [eq_of_mem_replicate h]
    rfl
  · exact Nat.isDigit_of_mem_toDigits (by omega) le_rfl h

theorem ofDigitChars_replicate (k : ℕ) : Nat.ofDigitChars 10 (replicate k '0') 0 = 0 := by
  induction k with
  | zero => rfl
  | succ k ih =>
    rw [replicate_succ, Nat.ofDigitChars_cons]
    exact ih

theorem ofDigitChars_padded (w n : ℕ) : Nat.ofDigitChars 10 (padded w n) 0 = n := by
  rw [padded, Nat.ofDigitChars_append, ofDigitChars_replicate,
    Nat.ofDigitChars_toDigits (by omega) le_rfl]

theorem ofDigitChars_lt (hl : ∀ c ∈ l, c.isDigit = true) :
    Nat.ofDigitChars 10 l 0 < 10 ^ l.length := by
  induction l with
  | nil => exact Nat.one_pos
  | cons c l ih =>
    obtain ⟨hc, hrest⟩ := forall_mem_cons.1 hl
    have hlow := ih hrest
    have hd : c.toNat - '0'.toNat ≤ 9 := Nat.sub_le_sub_right (Char.isDigit_iff_toNat.1 hc).2 _
    rw [Nat.ofDigitChars_cons, Nat.ofDigitChars_eq_ofDigitChars_zero, length_cons, pow_succ]
    calc 10 ^ l.length * (10 * 0 + (c.toNat - '0'.toNat)) + Nat.ofDigitChars 10 l 0
        < 10 ^ l.length * (10 * 0 + (c.toNat - '0'.toNat)) + 10 ^ l.length := by omega
      _ = 10 ^ l.length * (c.toNat - '0'.toNat + 1) := by
        rw [Nat.mul_zero, Nat.zero_add, Nat.mul_add, Nat.mul_one]
      _ ≤ 10 ^ l.length * 10 := Nat.mul_le_mul_left _ (by omega)

theorem lt_of_ofDigitChars_lt (hl : ∀ c ∈ l, c.isDigit = true) (hl' : ∀ c ∈ l', c.isDigit = true)
    (hlen : l.length = l'.length)
    (hlt : Nat.ofDigitChars 10 l 0 < Nat.ofDigitChars 10 l' 0) : l < l' := by
  induction l generalizing l' with
  | nil =>
    rw [length_eq_zero_iff.1 hlen.symm] at hlt
    exact absurd hlt (Nat.lt_irrefl _)
  | cons c l ih =>
    cases l' with
    | nil => cases hlen
    | cons c' l' =>
      obtain ⟨hc, hrest⟩ := forall_mem_cons.1 hl
      obtain ⟨hc', hrest'⟩ := forall_mem_cons.1 hl'
      have hsame : l.length = l'.length := Nat.succ.inj hlen
      rw [Nat.ofDigitChars_cons, Nat.ofDigitChars_cons, Nat.ofDigitChars_eq_ofDigitChars_zero,
        @Nat.ofDigitChars_eq_ofDigitChars_zero l', hsame] at hlt
      rcases lt_trichotomy c c' with hless | rfl | hmore
      · exact cons_lt_cons_iff.2 (.inl hless)
      · refine cons_lt_cons_iff.2 (.inr ⟨rfl, ih hrest hrest' hsame ?_⟩)
        omega
      -- a larger first digit outweighs all that follow
      exfalso
      have hb := ofDigitChars_lt hrest'
      have hdig : c'.toNat - '0'.toNat + 1 ≤ c.toNat - '0'.toNat := by
        have hlow := (Char.isDigit_iff_toNat.1 hc').1
        have hnat : c'.toNat < c.toNat := hmore
        omega
      have hmul := Nat.mul_le_mul_left (10 ^ l'.length) hdig
      rw [Nat.mul_add, Nat.mul_one] at hmul
      simp only [Nat.mul_zero, Nat.zero_add] at hlt
      omega

theorem padded_lt_padded (hw : 0 < w) (hlt : m < n) (hn : n < 10 ^ w) :
    padded w m < padded w n := by
  refine lt_of_ofDigitChars_lt (fun _ => isDigit_of_mem_padded) (fun _ => isDigit_of_mem_padded)
    ?_ ?_
  · rw [length_padded hw (hlt.trans hn), length_padded hw hn]
  · rwa [ofDigitChars_padded, ofDigitChars_padded]

theorem padded_injective (w : ℕ) : Function.Injective (padded w) := by
  intro m n h
  have hval := congrArg (fun digits => Nat.ofDigitChars 10 digits 0) h
  simpa only [ofDigitChars_padded] using hval

theorem append_lt_append {r r' : List Char} (hlen : l.length = l'.length) (hlt : l < l') :
    l ++ r < l' ++ r' := by
  induction l generalizing l' with
  | nil =>
    rw [length_eq_zero_iff.1 hlen.symm] at hlt
    exact absurd hlt (lt_irrefl _)
  | cons c l ih =>
    cases l' with
    | nil => cases hlen
    | cons c' l' =>
      rcases cons_lt_cons_iff.1 hlt with hless | ⟨rfl, hless⟩
      · exact cons_lt_cons_iff.2 (.inl hless)
      · exact cons_lt_cons_iff.2 (.inr ⟨rfl, ih (Nat.succ.inj hlen) hless⟩)

/-- What reads an unsigned number of so many bits: a sign, perhaps, and digits. -/
def parseUnsigned (bits : ℕ) (text : List Char) : Option ℕ :=
  let digits := if text.head? = some '+' then text.tail else text
  if digits ≠ [] ∧ digits.all Char.isDigit ∧ Nat.ofDigitChars 10 digits 0 < 2 ^ bits then
    some (Nat.ofDigitChars 10 digits 0)
  else none

theorem parseUnsigned_of_digits {bits : ℕ} (hne : l ≠ []) (hl : ∀ c ∈ l, c.isDigit = true)
    (hlt : Nat.ofDigitChars 10 l 0 < 2 ^ bits) :
    parseUnsigned bits l = some (Nat.ofDigitChars 10 l 0) := by
  have hsign : l.head? ≠ some '+' := by
    intro hhead
    have hd := hl '+' (mem_of_mem_head? hhead)
    exact absurd hd (by decide)
  have hall : l.all Char.isDigit = true := all_eq_true.2 hl
  simp only [parseUnsigned, hsign, if_false, hne, hall, hlt, ne_eq, not_false_eq_true, and_self,
    if_true]

theorem parseUnsigned_padded {bits : ℕ} (hw : 0 < w) (hn : n < 10 ^ w) (hbits : n < 2 ^ bits) :
    parseUnsigned bits (padded w n) = some n := by
  have hne : padded w n ≠ [] := ne_nil_of_length_pos (by rwa [length_padded hw hn])
  have hp := @parseUnsigned_of_digits (padded w n) bits hne
    (fun _ => isDigit_of_mem_padded) (by rwa [ofDigitChars_padded])
  rwa [ofDigitChars_padded] at hp

/-- The lines of a text: each ends before a line feed, or a carriage return and a line feed,
    and what follows the last one is a line if there is anything. -/
def lines : List Char → List (List Char)
  | [] => []
  | '\r' :: '\n' :: rest => [] :: lines rest
  | '\n' :: rest => [] :: lines rest
  | c :: rest =>
    match lines rest with
    | [] => [[c]]
    | line :: more => (c :: line) :: more

theorem lines_line {line : List Char} (rest : List Char) (hfeed : '\n' ∉ line)
    (hr : line.getLast? ≠ some '\r') : lines (line ++ '\n' :: rest) = line :: lines rest := by
  induction line with
  | nil => rfl
  | cons c line ih =>
    rw [mem_cons, not_or] at hfeed
    have hmore : lines (line ++ '\n' :: rest) = line :: lines rest := by
      cases line with
      | nil => rfl
      | cons d line => exact ih hfeed.2 (by simpa using hr)
    have hpair : ¬ (c = '\r' ∧ ∃ rest', line ++ '\n' :: rest = '\n' :: rest') := by
      rintro ⟨rfl, rest', heq⟩
      cases line with
      | nil => simp at hr
      | cons d line =>
        injection heq with hd
        exact hfeed.2 (by simp [hd])
    rw [cons_append, lines.eq_4, hmore]
    · exact fun rest' hc heq => hpair ⟨hc, rest', heq⟩
    · exact fun hc => hfeed.1 hc.symm

def isWhiteSpace (c : Char) : Bool :=
  (0x9 ≤ c.toNat && c.toNat ≤ 0xd) || (0x2000 ≤ c.toNat && c.toNat ≤ 0x200a) ||
    [0x20, 0x85, 0xa0, 0x1680, 0x2028, 0x2029, 0x202f, 0x205f, 0x3000].contains c.toNat

theorem join_injective {w : ℕ} (hw : 0 < w) {l l' : List String} (hl : ∀ s ∈ l, s.length = w)
    (hl' : ∀ s ∈ l', s.length = w) (h : String.join l = String.join l') : l = l' := by
  induction l generalizing l' with
  | nil =>
    cases l' with
    | nil => rfl
    | cons s' l' =>
      have hlen := congrArg String.length h
      rw [String.join_nil, String.join_cons, String.length_append,
        hl' s' mem_cons_self] at hlen
      exact absurd hlen (by simp; omega)
  | cons s l ih =>
    obtain ⟨hs, hrest⟩ := forall_mem_cons.1 hl
    cases l' with
    | nil =>
      have hlen := congrArg String.length h
      rw [String.join_nil, String.join_cons, String.length_append, hs] at hlen
      exact absurd hlen (by simp; omega)
    | cons s' l' =>
      obtain ⟨hs', hrest'⟩ := forall_mem_cons.1 hl'
      rw [String.join_cons, String.join_cons, ← String.toList_inj, String.toList_append,
        String.toList_append] at h
      obtain ⟨hhead, htail⟩ := append_inj h (by
        rw [String.length_toList, String.length_toList, hs, hs'])
      rw [String.toList_inj.1 hhead, ih hrest hrest' (String.toList_inj.1 htail)]

end Text
