import DocPages.Text.Utf8
import Mathlib.Tactic.Common

/-!
# Reading UTF-8

The first byte of a character announces how many bytes there are and where the second one lies, and so a
row of characters is read back from its bytes one by one (`pieces_toUtf8`).

Main statement: a text is read back as it was written (`ofUtf8Lossy_toUtf8`), so its bytes tell the text
(`toUtf8_injective`).
-/

namespace DocPages

namespace Text

/-- So many bytes that go on with a character, the first one between two bounds. -/
inductive GoesOn : Nat → UInt8 → UInt8 → Bytes → Prop
  | nil {low high : UInt8} : GoesOn 0 low high []
  | cons {n : Nat} {low high b : UInt8} {bs : Bytes} (hlow : low ≤ b) (hhigh : b ≤ high)
      (h : GoesOn n 0x80 0xBF bs) : GoesOn (n + 1) low high (b :: bs)

variable {b low high : UInt8} {tail : Bytes} {k n : Nat}

theorem GoesOn.continuation_append (h : GoesOn n low high tail) (bs : Bytes) :
    continuation n low high (tail ++ bs) = (tail, bs) := by
  induction h with
  | nil => cases bs <;> rfl
  | cons hlow hhigh h ih => rw [List.cons_append, continuation, if_pos ⟨hlow, hhigh⟩, ih]

theorem GoesOn.length_eq (h : GoesOn n low high tail) : tail.length = n := by
  induction h with
  | nil => rfl
  | cons _ _ _ ih => rw [List.length_cons, ih]

/-- A first byte and the bytes that it announces spell a character. -/
theorem pieces_append (hb : announced b = some (n, low, high)) (h : GoesOn n low high tail)
    (bs : Bytes) : pieces (b :: tail ++ bs) = some (assemble b tail) :: pieces bs := by
  rw [List.cons_append, pieces, hb]
  simp only [h.continuation_append, if_pos h.length_eq]

/-! ### Bytes as numbers -/

theorem toNat_byte (h : n < 256) : (UInt8.ofNat n).toNat = n := UInt8.toNat_ofNat_of_lt' h

theorem announced_one (h : n < 0x80) : announced (UInt8.ofNat n) = some (0, 0x80, 0xBF) := by
  have hn : n % 256 = n := Nat.mod_eq_of_lt (by omega)
  simp [announced, UInt8.lt_iff_toNat_lt, hn, h]

theorem announced_two (h : 0xC2 ≤ n) (h' : n ≤ 0xDF) :
    announced (UInt8.ofNat n) = some (1, 0x80, 0xBF) := by
  have hn : n % 256 = n := Nat.mod_eq_of_lt (by omega)
  have hnot : ¬ n < 0x80 := by omega
  simp [announced, UInt8.lt_iff_toNat_lt, UInt8.le_iff_toNat_le, hn, h, h', hnot]

theorem announced_three (h : 0xE0 ≤ n) (h' : n ≤ 0xEF) :
    announced (UInt8.ofNat n) =
      some (2, if n = 0xE0 then 0xA0 else 0x80, if n = 0xED then 0x9F else 0xBF) := by
  by_cases hfirst : n = 0xE0
  · rw [hfirst]
    rfl
  by_cases hgap : n = 0xED
  · rw [hgap]
    rfl
  have hn : n % 256 = n := Nat.mod_eq_of_lt (by omega)
  have hone : ¬ n < 0x80 := by omega
  have htwo : ¬ n ≤ 0xDF := by omega
  have hlow : 0xE1 ≤ n := by omega
  simp [announced, UInt8.lt_iff_toNat_lt, UInt8.le_iff_toNat_le, ← UInt8.toNat_inj, hn, hone, htwo, hlow,
    h', hfirst, hgap]

theorem announced_four (h : 0xF0 ≤ n) (h' : n ≤ 0xF4) :
    announced (UInt8.ofNat n) =
      some (3, if n = 0xF0 then 0x90 else 0x80, if n = 0xF4 then 0x8F else 0xBF) := by
  by_cases hfirst : n = 0xF0
  · rw [hfirst]
    rfl
  by_cases hlast : n = 0xF4
  · rw [hlast]
    rfl
  have hn : n % 256 = n := Nat.mod_eq_of_lt (by omega)
  have hone : ¬ n < 0x80 := by omega
  have htwo : ¬ n ≤ 0xDF := by omega
  have hthree : ¬ n ≤ 0xEF := by omega
  have hlow : 0xF1 ≤ n := by omega
  have hhigh : n ≤ 0xF3 := by omega
  have hne : n ≠ 0xE0 ∧ n ≠ 0xED := by omega
  simp [announced, UInt8.lt_iff_toNat_lt, UInt8.le_iff_toNat_le, ← UInt8.toNat_inj, hn, hone, htwo, hthree,
    hlow, hhigh, hne, hfirst, hlast]

/-! ### Characters -/

theorem goesOn_byte (hlow : low.toNat ≤ n) (hhigh : n ≤ high.toNat) (h : GoesOn k 0x80 0xBF tail) :
    GoesOn (k + 1) low high (UInt8.ofNat n :: tail) := by
  have hn : (UInt8.ofNat n).toNat = n := toNat_byte (by have := high.toNat_lt; omega)
  exact .cons (by rwa [UInt8.le_iff_toNat_le, hn]) (by rwa [UInt8.le_iff_toNat_le, hn]) h

/-- Six bits of a number go into a byte that goes on with a character. -/
theorem goesOn_sixBits (n : Nat) (h : GoesOn k 0x80 0xBF tail) :
    GoesOn (k + 1) 0x80 0xBF (UInt8.ofNat (n % 64 + 128) :: tail) := by
  have hlt : n % 64 < 64 := Nat.mod_lt _ (by decide)
  exact goesOn_byte (Nat.le_add_left _ _) (Nat.add_le_add_right (Nat.le_of_lt_succ hlt) 128) h

/-- The first byte may leave the second one less room. -/
theorem goesOn_second {c c' : Prop} [Decidable c] [Decidable c'] (hlow : c → low.toNat ≤ n % 64 + 128)
    (hhigh : c' → n % 64 + 128 ≤ high.toNat) (h : GoesOn k 0x80 0xBF tail) :
    GoesOn (k + 1) (if c then low else 0x80) (if c' then high else 0xBF)
      (UInt8.ofNat (n % 64 + 128) :: tail) := by
  refine goesOn_byte ?_ ?_ h
  · split
    · next hc => exact hlow hc
    · exact Nat.le_add_left _ _
  · split
    · next hc => exact hhigh hc
    · exact Nat.add_le_add_right (Nat.le_of_lt_succ (Nat.mod_lt _ (by decide))) 128

section Assemble

variable {v : Nat}

theorem assemble_two (h : v ≤ 0x7FF) :
    assemble (UInt8.ofNat (v / 64 % 32 + 192)) [UInt8.ofNat (v % 64 + 128)] = Char.ofNat v := by
  refine congrArg Char.ofNat ?_
  simp only [List.foldl_cons, List.foldl_nil, List.length_singleton, UInt8.toNat_ofNat', Nat.pow_eq,
    Nat.reduceSub, Nat.reducePow]
  omega

theorem assemble_three (h : v ≤ 0xFFFF) :
    assemble (UInt8.ofNat (v / 4096 % 16 + 224))
      [UInt8.ofNat (v / 64 % 64 + 128), UInt8.ofNat (v % 64 + 128)] = Char.ofNat v := by
  refine congrArg Char.ofNat ?_
  simp only [List.foldl_cons, List.foldl_nil, List.length_cons, List.length_nil, UInt8.toNat_ofNat',
    Nat.pow_eq, Nat.reduceAdd, Nat.reduceSub, Nat.reducePow]
  omega

theorem assemble_four (h : v < 0x110000) :
    assemble (UInt8.ofNat (v / 262144 % 8 + 240))
      [UInt8.ofNat (v / 4096 % 64 + 128), UInt8.ofNat (v / 64 % 64 + 128),
        UInt8.ofNat (v % 64 + 128)] = Char.ofNat v := by
  refine congrArg Char.ofNat ?_
  simp only [List.foldl_cons, List.foldl_nil, List.length_cons, List.length_nil, UInt8.toNat_ofNat',
    Nat.pow_eq, Nat.reduceAdd, Nat.reduceSub, Nat.reducePow]
  omega

end Assemble

/-- A character is read back from its bytes, whatever follows. -/
theorem pieces_utf8EncodeChar_append (c : Char) (bs : Bytes) :
    pieces (String.utf8EncodeChar c ++ bs) = some c :: pieces bs := by
  have hvalid : c.val.toNat < 0xD800 ∨ 0xDFFF < c.val.toNat ∧ c.val.toNat < 0x110000 := c.valid
  have hchar : Char.ofNat c.val.toNat = c := Char.ofNat_toNat c
  unfold String.utf8EncodeChar
  generalize c.val.toNat = v at hvalid hchar
  dsimp only
  split
  · next h₁ =>
    have hb := announced_one (n := v) (by omega)
    have hassemble : assemble (UInt8.ofNat v) [] = Char.ofNat v :=
      congrArg Char.ofNat (toNat_byte (by omega))
    rw [pieces_append hb .nil, hassemble, hchar]
  split
  · next h₁ h₂ =>
    have hb := announced_two (n := v / 64 % 32 + 192) (by omega) (by omega)
    rw [pieces_append hb (goesOn_sixBits v .nil), assemble_two h₂, hchar]
  -- Of longer rows of bytes, the bounds of the second one leave out what shorter rows spell, the
  -- numbers between the two halves of the characters, and what lies behind the last one.
  split
  · next h₁ h₂ h₃ =>
    have hb := announced_three (n := v / 4096 % 16 + 224) (by omega) (by omega)
    rw [pieces_append hb (goesOn_second ?_ ?_ (goesOn_sixBits v .nil)), assemble_three h₃, hchar]
    · intro h
      change 0xA0 ≤ _
      omega
    · intro h
      change _ ≤ 0x9F
      omega
  · next h₁ h₂ h₃ =>
    have hb := announced_four (n := v / 262144 % 8 + 240) (by omega) (by omega)
    rw [pieces_append hb (goesOn_second ?_ ?_ (goesOn_sixBits (v / 64) (goesOn_sixBits v .nil))),
      assemble_four (by omega), hchar]
    · intro h
      change 0x90 ≤ _
      omega
    · intro h
      change _ ≤ 0x8F
      omega

theorem pieces_toUtf8 (t : Text) : pieces (toUtf8 t) = t.map some := by
  induction t with
  | nil => rw [toUtf8, List.flatMap_nil, pieces, List.map_nil]
  | cons c t ih =>
    rw [toUtf8, List.flatMap_cons, pieces_utf8EncodeChar_append, List.map_cons]
    exact congrArg _ ih

/-- A text is read back from its bytes. -/
theorem ofUtf8Lossy_toUtf8 (t : Text) : ofUtf8Lossy (toUtf8 t) = t := by
  rw [ofUtf8Lossy, pieces_toUtf8, List.map_map]
  exact List.map_id t

theorem toUtf8_injective : Function.Injective toUtf8 := Function.LeftInverse.injective ofUtf8Lossy_toUtf8

end Text

end DocPages
