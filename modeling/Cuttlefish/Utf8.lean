import Mathlib.Data.List.Basic
import Mathlib.Tactic.Common

/-!
# Cuttlefish.Utf8

UTF-8 as byte lists, and the lossy decoder.

`utf8` encodes a text; `fromUtf8Lossy` decodes an arbitrary byte string,
replacing each maximal ill-formed sequence by U+FFFD — the documented
behaviour of Rust's `String::from_utf8_lossy`.  Two facts carry everything
built on top:

* the decoder undoes the encoder (`fromUtf8Lossy_utf8`);
* decoding commutes with concatenation at an ASCII byte, in both
  directions (`fromUtf8Lossy_append_ascii`, `exists_split_of_fromUtf8Lossy`):
  a separator is never swallowed by an ill-formed sequence before it, and
  every separator of the decoded text comes from a separator byte.

Nothing here mentions paths or tables.
-/

namespace Cuttlefish

/-- A byte string: what the kernel, Go and Rust call a path. -/
abbrev Bytes := List UInt8

/-- A Unicode text: a Rust `String`, a PostgreSQL `TEXT`. -/
abbrev Text := List Char

/-- Texts are looked up by comparison. -/
instance Text.decidableMem (t : Text) (l : List Text) : Decidable (t ∈ l) := inferInstance

/-! ## encoding -/

/-- The UTF-8 encoding of a text. -/
def utf8 (t : Text) : Bytes := t.flatMap String.utf8EncodeChar

@[simp] theorem utf8_nil : utf8 [] = [] := rfl

@[simp] theorem utf8_cons (c : Char) (t : Text) :
    utf8 (c :: t) = String.utf8EncodeChar c ++ utf8 t := rfl

@[simp] theorem utf8_append (s t : Text) : utf8 (s ++ t) = utf8 s ++ utf8 t := by
  simp [utf8]

/-- Every byte of an encoded character after the first is a continuation
byte, so it is no ASCII byte. -/
theorem le_of_mem_tail_utf8EncodeChar {c : Char} {b : UInt8}
    (hb : b ∈ (String.utf8EncodeChar c).tail) : 128 ≤ b := by
  have hcont (n : Nat) : (128 : UInt8) ≤ UInt8.ofNat (n % 64 + 128) := by
    have hlt : n % 64 + 128 < UInt8.size := by simp [UInt8.size]; omega
    rw [UInt8.le_iff_toNat_le, UInt8.toNat_ofNat_of_lt' hlt]
    exact Nat.le_add_left 128 (n % 64)
  unfold String.utf8EncodeChar at hb
  dsimp only at hb
  split_ifs at hb
  · simp at hb
  · simp only [List.tail_cons, List.mem_singleton] at hb
    exact hb ▸ hcont _
  · simp only [List.tail_cons, List.mem_cons, List.not_mem_nil, or_false] at hb
    rcases hb with h | h <;> exact h ▸ hcont _
  · simp only [List.tail_cons, List.mem_cons, List.not_mem_nil, or_false] at hb
    rcases hb with h | h | h <;> exact h ▸ hcont _

/-! ## decoding one character -/

/-- The character at the front of `b`, when a well-formed one is there. -/
def decodeChar? (b : Bytes) : Option Char := b.toByteArray.utf8DecodeChar? 0

@[simp] theorem decodeChar?_encode_append (c : Char) (rest : Bytes) :
    decodeChar? (String.utf8EncodeChar c ++ rest) = some c := by
  rw [decodeChar?, List.toByteArray_append]
  exact ByteArray.utf8DecodeChar?_utf8EncodeChar_append

/-- An ASCII byte stands in the encoding of its own character only. -/
theorem eq_of_mem_utf8EncodeChar {a c : Char} {b : UInt8} (hb : b < 128)
    (ha : String.utf8EncodeChar a = [b]) (h : b ∈ String.utf8EncodeChar c) : c = a := by
  cases henc : String.utf8EncodeChar c with
  | nil => exact absurd henc String.utf8EncodeChar_ne_nil
  | cons b' tail =>
      have htail : b ∉ tail := by
        intro hmem
        have hle : 128 ≤ b := le_of_mem_tail_utf8EncodeChar (c := c) (by rw [henc]; exact hmem)
        rw [UInt8.le_iff_toNat_le] at hle
        rw [UInt8.lt_iff_toNat_lt] at hb
        omega
      rw [henc, List.mem_cons] at h
      have hhead : b = b' := h.resolve_right htail
      -- both characters are at the front of the same bytes
      have hself := decodeChar?_encode_append c []
      have hother := decodeChar?_encode_append a tail
      rw [List.append_nil, henc, ← hhead] at hself
      rw [ha] at hother
      exact Option.some.inj (hself.symm.trans hother)

/-- A decoded character was encoded at the front of the buffer. -/
theorem exists_append_of_decodeChar? {b : Bytes} {c : Char} (h : decodeChar? b = some c) :
    ∃ rest, b = String.utf8EncodeChar c ++ rest := by
  have hext := String.toByteArray_utf8EncodeChar_of_utf8DecodeChar?_eq_some h
  have hlen : (b.toByteArray.extract 0 c.utf8Size).size = c.utf8Size := by
    rw [← hext, List.size_toByteArray, String.length_utf8EncodeChar]
  have hle : c.utf8Size ≤ b.length := by
    simp only [ByteArray.size_extract, List.size_toByteArray] at hlen
    omega
  have htake : (b.take c.utf8Size).length = c.utf8Size := by
    rw [List.length_take]; omega
  refine ⟨b.drop c.utf8Size, ?_⟩
  have hbytes : String.utf8EncodeChar c = b.take c.utf8Size := by
    rw [← List.toByteArray_inj, hext]
    conv_lhs => rw [← List.take_append_drop c.utf8Size b, List.toByteArray_append]
    rw [ByteArray.extract_append_eq_left (by rw [List.size_toByteArray, htake])]
  rw [hbytes, List.take_append_drop]

/-- An ASCII byte after a non-empty buffer takes no part in the character
decoded at its front. -/
theorem decodeChar?_append_ascii {a : Bytes} (ha : a ≠ []) {s : UInt8} (hs : s < 128)
    (rest : Bytes) : decodeChar? (a ++ s :: rest) = decodeChar? a := by
  cases h : decodeChar? a with
  | some c =>
      obtain ⟨a', rfl⟩ := exists_append_of_decodeChar? h
      rw [List.append_assoc, decodeChar?_encode_append]
  | none =>
      cases h' : decodeChar? (a ++ s :: rest) with
      | none => rfl
      | some c =>
          obtain ⟨t, ht⟩ := exists_append_of_decodeChar? h'
          -- either the whole character lies in `a`, or `s` is one of its later bytes
          rcases List.append_eq_append_iff.mp ht with ⟨m, hc, hm⟩ | ⟨m, hm, _⟩
          · cases m with
            | nil =>
                rw [List.append_nil] at hc
                rw [← hc, ← List.append_nil (String.utf8EncodeChar c),
                  decodeChar?_encode_append] at h
                contradiction
            | cons x m =>
                obtain ⟨y, a', rfl⟩ := List.exists_cons_of_ne_nil ha
                have hx : s = x := (List.cons.inj hm).1
                have hmem : s ∈ (String.utf8EncodeChar c).tail := by
                  rw [hc, hx]; simp
                exact absurd hs (UInt8.not_lt.mpr (le_of_mem_tail_utf8EncodeChar hmem))
          · rw [hm, decodeChar?_encode_append] at h
            contradiction

/-! ## lossy decoding -/

/-- Is `b` in the continuation range `lo ..= hi`? -/
def inRange (lo hi b : UInt8) : Bool := lo ≤ b && b ≤ hi

/-- The range the second byte must lie in after a lead byte of a three-byte
sequence (`0xE0 ..= 0xEF`) or of a four-byte one (`0xF0 ..= 0xF4`). -/
def secondOk (b0 b1 : UInt8) : Bool :=
  if b0 = 0xE0 then inRange 0xA0 0xBF b1
  else if b0 = 0xED then inRange 0x80 0x9F b1
  else if b0 = 0xF0 then inRange 0x90 0xBF b1
  else if b0 = 0xF4 then inRange 0x80 0x8F b1
  else inRange 0x80 0xBF b1

/-- Length of the maximal ill-formed sequence at the front of a buffer at
which no character decodes: the bytes that one U+FFFD stands for. -/
def invalidLen : Bytes → Nat
  | b0 :: b1 :: rest =>
      if inRange 0xE0 0xEF b0 then
        if secondOk b0 b1 then 2 else 1
      else if inRange 0xF0 0xF4 b0 then
        if secondOk b0 b1 then
          match rest with
          | b2 :: _ => if inRange 0x80 0xBF b2 then 3 else 2
          | [] => 2
        else 1
      else 1
  | _ => 1

/-- One step of the lossy decoder: the character produced and the number of
bytes it stands for. -/
def lossyStep (b : Bytes) : Char × Nat :=
  match decodeChar? b with
  | some c => (c, c.utf8Size)
  | none => ('\uFFFD', invalidLen b)

/-- The lossy decoder, structurally recursive on a bound for the length. -/
def lossyAux : Nat → Bytes → Text
  | n + 1, x :: b =>
      (lossyStep (x :: b)).1 :: lossyAux n ((x :: b).drop (lossyStep (x :: b)).2)
  | _, _ => []

/-- Rust's `String::from_utf8_lossy`. -/
def fromUtf8Lossy (b : Bytes) : Text := lossyAux b.length b

theorem invalidLen_pos (b : Bytes) : 0 < invalidLen b := by
  unfold invalidLen
  repeat' split
  all_goals omega

theorem invalidLen_le {b : Bytes} (hb : b ≠ []) : invalidLen b ≤ b.length := by
  match b, hb with
  | [_], _ => simp [invalidLen]
  | [_, _], _ => simp [invalidLen]; split_ifs <;> omega
  | _ :: _ :: _ :: _, _ => simp [invalidLen]; split_ifs <;> omega

theorem lossyStep_pos (b : Bytes) : 0 < (lossyStep b).2 := by
  unfold lossyStep
  cases decodeChar? b with
  | some c => exact c.utf8Size_pos
  | none => exact invalidLen_pos b

theorem lossyStep_le {b : Bytes} (hb : b ≠ []) : (lossyStep b).2 ≤ b.length := by
  unfold lossyStep
  cases h : decodeChar? b with
  | none => exact invalidLen_le hb
  | some c =>
      obtain ⟨rest, rfl⟩ := exists_append_of_decodeChar? h
      simp

theorem length_drop_lossyStep (x : UInt8) (b : Bytes) :
    ((x :: b).drop (lossyStep (x :: b)).2).length ≤ b.length := by
  have hpos := lossyStep_pos (x :: b)
  rw [List.length_drop, List.length_cons]; omega

/-- Any two bounds from the length up give the same decoding. -/
theorem lossyAux_eq {n m : Nat} {b : Bytes} (hn : b.length ≤ n) (hm : b.length ≤ m) :
    lossyAux n b = lossyAux m b := by
  induction n generalizing m b with
  | zero =>
      rw [List.length_eq_zero_iff.mp (Nat.le_zero.mp hn)]
      cases m <;> rfl
  | succ n ih =>
      cases b with
      | nil => cases m <;> rfl
      | cons x b =>
          have hdrop := length_drop_lossyStep x b
          rw [List.length_cons] at hn hm
          obtain ⟨m, rfl⟩ : ∃ k, m = k + 1 := ⟨m - 1, by omega⟩
          rw [lossyAux, lossyAux, ih (m := m) (by omega) (by omega)]

@[simp] theorem fromUtf8Lossy_nil : fromUtf8Lossy [] = [] := rfl

/-- The decoder consumes one step at a time. -/
theorem fromUtf8Lossy_step {b : Bytes} (hb : b ≠ []) :
    fromUtf8Lossy b = (lossyStep b).1 :: fromUtf8Lossy (b.drop (lossyStep b).2) := by
  obtain ⟨x, b, rfl⟩ := List.exists_cons_of_ne_nil hb
  have hdrop := length_drop_lossyStep x b
  rw [fromUtf8Lossy, List.length_cons, lossyAux, lossyAux_eq hdrop (Nat.le_refl _)]
  rfl

/-! ## the decoder against the encoder -/

@[simp] theorem fromUtf8Lossy_encode_append (c : Char) (rest : Bytes) :
    fromUtf8Lossy (String.utf8EncodeChar c ++ rest) = c :: fromUtf8Lossy rest := by
  have hne : String.utf8EncodeChar c ++ rest ≠ [] := by simp [String.utf8EncodeChar_ne_nil]
  rw [fromUtf8Lossy_step hne, lossyStep, decodeChar?_encode_append]
  simp only
  rw [← String.length_utf8EncodeChar, List.drop_left]

/-- An encoded text in front of anything is read back. -/
theorem fromUtf8Lossy_utf8_append (t : Text) (rest : Bytes) :
    fromUtf8Lossy (utf8 t ++ rest) = t ++ fromUtf8Lossy rest := by
  induction t with
  | nil => rfl
  | cons c t ih =>
      rw [utf8_cons, List.append_assoc, fromUtf8Lossy_encode_append, ih, List.cons_append]

/-- **Round trip**: the lossy decoder undoes the encoder. -/
@[simp] theorem fromUtf8Lossy_utf8 (t : Text) : fromUtf8Lossy (utf8 t) = t := by
  simpa using fromUtf8Lossy_utf8_append t []

theorem utf8_injective {s t : Text} (h : utf8 s = utf8 t) : s = t := by
  rw [← fromUtf8Lossy_utf8 s, h, fromUtf8Lossy_utf8]

theorem utf8_inj {s t : Text} : utf8 s = utf8 t ↔ s = t := ⟨utf8_injective, congrArg utf8⟩

/-- Prefixes of texts are prefixes of their encodings, and no others are. -/
theorem utf8_prefix_utf8 {s t : Text} : utf8 s <+: utf8 t ↔ s <+: t := by
  constructor
  · rintro ⟨rest, h⟩
    refine ⟨fromUtf8Lossy rest, ?_⟩
    rw [← fromUtf8Lossy_utf8_append, h, fromUtf8Lossy_utf8]
  · rintro ⟨rest, rfl⟩
    exact ⟨utf8 rest, (utf8_append s rest).symm⟩

/-- `b` is well-formed UTF-8: it encodes some text. -/
def IsUtf8 (b : Bytes) : Prop := ∃ t, utf8 t = b

/-- Well-formedness is what the lossy decoder leaves alone. -/
theorem isUtf8_iff (b : Bytes) : IsUtf8 b ↔ utf8 (fromUtf8Lossy b) = b := by
  constructor
  · rintro ⟨t, rfl⟩
    rw [fromUtf8Lossy_utf8]
  · intro h
    exact ⟨_, h⟩

instance (b : Bytes) : Decidable (IsUtf8 b) := decidable_of_iff _ (isUtf8_iff b).symm

theorem isUtf8_utf8 (t : Text) : IsUtf8 (utf8 t) := ⟨t, rfl⟩

/-! ## splitting at an ASCII byte -/

section Ascii

variable {s : UInt8} (hs : s < 128)
include hs

/-- An ASCII byte after a non-empty buffer takes no part in an ill-formed
sequence at its front. -/
theorem invalidLen_append_ascii {a : Bytes} (ha : a ≠ []) (rest : Bytes) :
    invalidLen (a ++ s :: rest) = invalidLen a := by
  have hcont : ∀ lo hi, 0x80 ≤ lo → inRange lo hi s = false := by
    intro lo hi hlo
    unfold inRange
    grind
  have hsecond : ∀ b0, secondOk b0 s = false := by
    intro b0
    unfold secondOk
    grind
  match a, ha with
  | [b0], _ => simp [invalidLen, hsecond]
  | [b0, b1], _ => simp [invalidLen, hcont]
  | b0 :: b1 :: b2 :: a, _ => rfl

/-- A decoding step does not see past an ASCII byte. -/
theorem lossyStep_append_ascii {a : Bytes} (ha : a ≠ []) (rest : Bytes) :
    lossyStep (a ++ s :: rest) = lossyStep a := by
  unfold lossyStep
  rw [decodeChar?_append_ascii ha hs, invalidLen_append_ascii hs ha]

variable {c : Char} (hc : String.utf8EncodeChar c = [s])
include hc

/-- **Decoding commutes with concatenation at an ASCII byte.** -/
theorem fromUtf8Lossy_append_ascii (a r : Bytes) :
    fromUtf8Lossy (a ++ s :: r) = fromUtf8Lossy a ++ c :: fromUtf8Lossy r := by
  induction ha : a.length using Nat.strongRecOn generalizing a with
  | _ n ih =>
      by_cases hne : a = []
      · subst hne
        have hr : s :: r = String.utf8EncodeChar c ++ r := by rw [hc]; rfl
        rw [List.nil_append, hr, fromUtf8Lossy_encode_append]
        rfl
      · have hpos := lossyStep_pos a
        have hle := lossyStep_le hne
        rw [fromUtf8Lossy_step (b := a ++ s :: r) (by simp), lossyStep_append_ascii hs hne,
          List.drop_append_of_le_length hle,
          ih _ (by rw [List.length_drop]; omega) (a.drop (lossyStep a).2) rfl,
          fromUtf8Lossy_step hne, List.cons_append]

/-- **Every separator of the decoded text comes from a separator byte**: a
split of the decoding at an ASCII character is the decoding of a split of
the bytes. -/
theorem exists_split_of_fromUtf8Lossy {b : Bytes} {t₁ t₂ : Text}
    (h : fromUtf8Lossy b = t₁ ++ c :: t₂) :
    ∃ b₁ b₂, b = b₁ ++ s :: b₂ ∧ fromUtf8Lossy b₁ = t₁ ∧ fromUtf8Lossy b₂ = t₂ := by
  have hrep : c ≠ '\uFFFD' := by
    rintro rfl
    have hlen : 3 = 1 := congrArg List.length hc
    contradiction
  induction hb : b.length using Nat.strongRecOn generalizing b t₁ with
  | _ n ih =>
      have hne : b ≠ [] := by rintro rfl; simp at h
      have hpos := lossyStep_pos b
      have hle := lossyStep_le hne
      rw [fromUtf8Lossy_step hne] at h
      cases t₁ with
      | nil =>
          obtain ⟨hfst, hrest⟩ := List.cons.inj h
          cases hd : decodeChar? b with
          | none =>
              rw [lossyStep, hd] at hfst
              exact absurd hfst.symm hrep
          | some d =>
              simp only [lossyStep, hd] at hfst hrest
              subst hfst
              obtain ⟨r, rfl⟩ := exists_append_of_decodeChar? hd
              rw [← String.length_utf8EncodeChar, List.drop_left] at hrest
              exact ⟨[], r, by rw [hc]; rfl, rfl, hrest⟩
      | cons x t₁ =>
          obtain ⟨hfst, hrest⟩ := List.cons.inj h
          obtain ⟨b₁, b₂, hsplit, h₁, h₂⟩ :=
            ih _ (by rw [List.length_drop]; omega) hrest rfl
          have hb' : b = (b.take (lossyStep b).2 ++ b₁) ++ s :: b₂ := by
            rw [List.append_assoc, ← hsplit, List.take_append_drop]
          have hfront : b.take (lossyStep b).2 ++ b₁ ≠ [] := by
            intro hnil
            have := congrArg List.length (List.append_eq_nil_iff.mp hnil).1
            rw [List.length_take, List.length_nil] at this
            omega
          have hstep : lossyStep (b.take (lossyStep b).2 ++ b₁) = lossyStep b := by
            conv_rhs => rw [hb', lossyStep_append_ascii hs hfront]
          refine ⟨_, b₂, hb', ?_, h₂⟩
          rw [fromUtf8Lossy_step hfront, hstep, hfst, ← h₁,
            List.drop_left' (by rw [List.length_take]; omega)]

omit hc in
/-- What stands in front of an ASCII byte is well formed on its own. -/
theorem isUtf8_of_append_ascii {a r : Bytes} (h : IsUtf8 (a ++ s :: r)) : IsUtf8 a := by
  obtain ⟨t, ht⟩ := h
  induction t generalizing a with
  | nil => simp at ht
  | cons x t ih =>
      rw [utf8_cons, List.append_eq_append_iff] at ht
      rcases ht with ⟨a', rfl, ht⟩ | ⟨l, hx, hl⟩
      · obtain ⟨u, rfl⟩ := ih ht
        exact ⟨x :: u, utf8_cons x u⟩
      · by_cases ha : a = []
        · exact ⟨[], by rw [ha, utf8_nil]⟩
        · cases l with
          | nil => exact ⟨[x], by rw [utf8_cons, utf8_nil, hx, List.append_nil, List.append_nil]⟩
          | cons y l =>
              -- the byte would be a continuation byte of `x`
              obtain ⟨rfl, -⟩ := List.cons.inj hl
              have hmem : s ∈ (String.utf8EncodeChar x).tail := by
                rw [hx, List.tail_append_of_ne_nil ha]
                simp
              have := le_of_mem_tail_utf8EncodeChar hmem
              exact absurd hs (by simpa using this)

end Ascii

end Cuttlefish
