/-
  Binary codecs with fixed-width numbers, as the `bincode` format has them.

  A `Codec` carries its law: a value that fits the widths is read back, whatever follows it.  A
  decoder may also read values that something else wrote.
-/
import Blixard.Lib.Bytes

namespace Bincode

open Bytes List

inductive Error where
  | unexpectedEof
  | invalidUtf8
  | invalidTag (tag : ℕ)

structure Codec (α : Type) where
  encode : α → Bytes
  decode : Bytes → Except Error (α × Bytes)
  /-- The value is within the widths of the format. -/
  Fits : α → Prop
  decode_encode : ∀ {a}, Fits a → ∀ rest, decode (encode a ++ rest) = .ok (a, rest)

namespace Codec

variable {α β : Type}

def deserialize (c : Codec α) (bytes : Bytes) : Except Error α :=
  (c.decode bytes).map Prod.fst

def uint (w : ℕ) : Codec ℕ where
  encode := Bytes.leBytes w
  decode bytes := (Bytes.takeLe w bytes).elim (.error .unexpectedEof) .ok
  Fits n := n < 256 ^ w
  decode_encode h rest := by rw [Bytes.takeLe_of_lt h, Option.elim_some]

variable {bytes : Bytes}

theorem decode_uint_of_short {w : ℕ} (h : bytes.length < w) :
    (uint w).decode bytes = .error .unexpectedEof := by
  simp [uint, takeLe, takeBytes, h]

/-! ## Records and variants -/

def pair (c : Codec α) (d : Codec β) : Codec (α × β) where
  encode x := c.encode x.1 ++ d.encode x.2
  decode bytes := do
    let (a, bytes) ← c.decode bytes
    let (b, bytes) ← d.decode bytes
    .ok ((a, b), bytes)
  Fits x := c.Fits x.1 ∧ d.Fits x.2
  decode_encode h rest := by
    rw [List.append_assoc, c.decode_encode h.1]
    simp only [bind, Except.bind, d.decode_encode h.2]

def iso (c : Codec α) (build : α → β) (parts : β → α) (h : ∀ b, build (parts b) = b) :
    Codec β where
  encode b := c.encode (parts b)
  decode bytes := (c.decode bytes).map fun x => (build x.1, x.2)
  Fits b := c.Fits (parts b)
  decode_encode hb rest := by rw [c.decode_encode hb, Except.map, h]

def variant (tag : α → ℕ) (ofTag : ℕ → Option α) (h : ∀ a, ofTag (tag a) = some a) :
    Codec α where
  encode a := Bytes.leBytes 4 (tag a)
  decode bytes := do
    let (n, bytes) ← (uint 4).decode bytes
    match ofTag n with
    | some a => .ok (a, bytes)
    | none => .error (.invalidTag n)
  Fits a := tag a < 256 ^ 4
  decode_encode hfits rest := by
    have hn := (uint 4).decode_encode hfits rest
    simp only [uint] at hn
    simp only [uint, hn, bind, Except.bind, h]

theorem deserialize_variant_of_short {tag : α → ℕ} {ofTag : ℕ → Option α}
    {h : ∀ a, ofTag (tag a) = some a} (hs : bytes.length < 4) :
    (variant tag ofTag h).deserialize bytes = .error .unexpectedEof := by
  simp only [deserialize, variant, decode_uint_of_short hs, bind, Except.bind, Except.map]

def unit : Codec Unit where
  encode _ := []
  decode bytes := .ok ((), bytes)
  Fits _ := True
  decode_encode _ _ := rfl

def never : Codec Empty where
  encode := Empty.elim
  decode _ := .error .unexpectedEof
  Fits _ := True
  decode_encode {a} := a.elim

def sum (c : Codec α) (d : Codec β) : Codec (α ⊕ β) where
  encode
    | .inl a => Bytes.leBytes 4 0 ++ c.encode a
    | .inr b => Bytes.leBytes 4 1 ++ d.encode b
  decode bytes := do
    let (n, bytes) ← (uint 4).decode bytes
    if n = 0 then (c.decode bytes).map fun x => (.inl x.1, x.2)
    else if n = 1 then (d.decode bytes).map fun x => (.inr x.1, x.2)
    else .error (.invalidTag n)
  Fits
    | .inl a => c.Fits a
    | .inr b => d.Fits b
  decode_encode {x} h rest := by
    have htag : ∀ n < 256 ^ 4, ∀ bytes,
        (uint 4).decode (Bytes.leBytes 4 n ++ bytes) = .ok (n, bytes) :=
      fun n hn bytes => (uint 4).decode_encode hn bytes
    rcases x with a | b
    · simp only [List.append_assoc, htag 0 (by decide), bind, Except.bind, if_true,
        c.decode_encode h, Except.map]
    · simp only [List.append_assoc, htag 1 (by decide), bind, Except.bind, if_true,
        d.decode_encode h, Except.map, Nat.one_ne_zero, if_false]

def bool : Codec Bool where
  encode b := [if b then 1 else 0]
  decode
    | [] => .error .unexpectedEof
    | b :: bytes =>
      if b = 0 then .ok (false, bytes)
      else if b = 1 then .ok (true, bytes)
      else .error (.invalidTag b.toNat)
  Fits _ := True
  decode_encode {b} _ rest := by cases b <;> rfl

def option (c : Codec α) : Codec (Option α) where
  encode
    | none => [0]
    | some a => 1 :: c.encode a
  decode
    | [] => .error .unexpectedEof
    | b :: bytes =>
      if b = 0 then .ok (none, bytes)
      else if b = 1 then (c.decode bytes).map fun x => (some x.1, x.2)
      else .error (.invalidTag b.toNat)
  Fits a? := ∀ a, a? = some a → c.Fits a
  decode_encode {a?} h rest := by
    cases a? with
    | none => rfl
    | some a =>
      have hd := c.decode_encode (h a rfl) rest
      simp only [List.cons_append, hd, Except.map]
      rfl

/-! ## Sequences -/

def decodeMany (c : Codec α) : ℕ → Bytes → Except Error (List α × Bytes)
  | 0, bytes => .ok ([], bytes)
  | n + 1, bytes => do
    let (a, bytes) ← c.decode bytes
    let (as, bytes) ← decodeMany c n bytes
    .ok (a :: as, bytes)

theorem decodeMany_flatMap (c : Codec α) (rest : Bytes) {as : List α} (h : ∀ a ∈ as, c.Fits a) :
    c.decodeMany as.length (as.flatMap c.encode ++ rest) = .ok (as, rest) := by
  induction as with
  | nil => rfl
  | cons a as ih =>
    obtain ⟨ha, has⟩ := forall_mem_cons.1 h
    rw [flatMap_cons, append_assoc, length_cons, decodeMany, c.decode_encode ha]
    simp only [bind, Except.bind, ih has]

def seq (c : Codec α) : Codec (List α) where
  encode as := Bytes.leBytes 8 as.length ++ as.flatMap c.encode
  decode bytes := do
    let (n, bytes) ← (uint 8).decode bytes
    c.decodeMany n bytes
  Fits as := as.length < 256 ^ 8 ∧ ∀ a ∈ as, c.Fits a
  decode_encode h rest := by
    have hl := (uint 8).decode_encode h.1
    simp only [uint] at hl
    simp only [uint, List.append_assoc, hl, bind, Except.bind]
    exact c.decodeMany_flatMap rest h.2

def string : Codec String where
  encode s := Bytes.leBytes 8 s.toUTF8.data.toList.length ++ s.toUTF8.data.toList
  decode bytes := do
    let (n, bytes) ← (uint 8).decode bytes
    match Bytes.takeBytes n bytes with
    | none => .error .unexpectedEof
    | some (text, bytes) =>
      match String.fromUTF8? ⟨text.toArray⟩ with
      | none => .error .invalidUtf8
      | some s => .ok (s, bytes)
  Fits s := s.toUTF8.data.toList.length < 256 ^ 8
  decode_encode {s} h rest := by
    have hl := (uint 8).decode_encode h
    have htext : String.fromUTF8? ⟨s.toUTF8.data.toList.toArray⟩ = some s :=
      dif_pos s.isValidUTF8
    simp only [uint] at hl
    simp only [uint, List.append_assoc, hl, bind, Except.bind, Bytes.takeBytes_append, htext]

theorem takeLe_of_decode_string {rest : Bytes} {s : String}
    (h : string.decode bytes = .ok (s, rest)) :
    ∃ rest', takeLe 8 bytes = some (s.utf8ByteSize, rest') := by
  simp only [string, uint] at h
  cases hl : takeLe 8 bytes with
  | none => simp [hl, bind, Except.bind] at h
  | some field =>
    obtain ⟨n, tail⟩ := field
    simp only [hl, Option.elim_some, bind, Except.bind] at h
    cases htext : takeBytes n tail with
    | none => simp [htext] at h
    | some parts =>
      obtain ⟨text, tail'⟩ := parts
      simp only [htext] at h
      unfold String.fromUTF8? at h
      split_ifs at h with hval
      obtain ⟨-, hw⟩ := takeBytes_eq_some htext
      cases h
      exact ⟨tail, by rw [← hw]; rfl⟩

end Codec

end Bincode
