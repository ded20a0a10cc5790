import DocPages.Text.Basic

/-!
# UTF-8

Files hold bytes. `toUtf8` writes a text, `pieces` reads bytes back as characters and marks each
maximal part that begins no character. A source file is read leniently (`ofUtf8Lossy`: every such
part becomes one replacement character), a settings file strictly (`ofUtf8?`: there must be none).
-/

namespace DocPages

/-- The content of a file. -/
abbrev Bytes := List UInt8

namespace Text

/-- The bytes of a text. -/
def toUtf8 (t : Text) : Bytes := t.flatMap String.utf8EncodeChar

/-- The number of bytes of a text. -/
def byteSize (t : Text) : Nat := t.foldr (fun c n => c.utf8Size + n) 0

@[simp] theorem byteSize_nil : byteSize [] = 0 := rfl

@[simp] theorem byteSize_append (s t : Text) : byteSize (s ++ t) = byteSize s + byteSize t := by
  unfold byteSize
  induction s with
  | nil => simp
  | cons c s ih => simp [ih, Nat.add_assoc]

/-- What a first byte announces: how many bytes follow it and between which bounds the next one
lies. Bytes that start no character announce nothing. -/
def announced (b : UInt8) : Option (Nat × UInt8 × UInt8) :=
  if b < 0x80 then some (0, 0x80, 0xBF)
  else if 0xC2 ≤ b ∧ b ≤ 0xDF then some (1, 0x80, 0xBF)
  else if b = 0xE0 then some (2, 0xA0, 0xBF)
  else if b = 0xED then some (2, 0x80, 0x9F)
  else if 0xE1 ≤ b ∧ b ≤ 0xEF then some (2, 0x80, 0xBF)
  else if b = 0xF0 then some (3, 0x90, 0xBF)
  else if 0xF1 ≤ b ∧ b ≤ 0xF3 then some (3, 0x80, 0xBF)
  else if b = 0xF4 then some (3, 0x80, 0x8F)
  else none

/-- At most `n` bytes that continue a character, the first of them between `low` and `high`, and the
bytes after them. -/
def continuation : Nat → UInt8 → UInt8 → Bytes → Bytes × Bytes
  | n + 1, low, high, b :: bs =>
    if low ≤ b ∧ b ≤ high then
      let (tail, rest) := continuation n 0x80 0xBF bs
      (b :: tail, rest)
    else ([], b :: bs)
  | _, _, _, bs => ([], bs)

theorem length_continuation_le (n : Nat) (low high : UInt8) (bs : Bytes) :
    (continuation n low high bs).2.length ≤ bs.length := by
  fun_induction continuation n low high bs with
  | case1 n low high b bs h tail rest ht ih =>
    rw [ht] at ih
    simpa using Nat.le_succ_of_le ih
  | case2 => simp
  | case3 => simp

/-- The character with first byte `b` and the bytes `tail` after it. -/
def assemble (b : UInt8) (tail : Bytes) : Char :=
  let lead := match tail.length with
    | 0 => b.toNat
    | n + 1 => b.toNat % Nat.pow 2 (5 - n)
  Char.ofNat (tail.foldl (fun v t => v * 64 + t.toNat % 64) lead)

/-- The characters that the bytes spell, with `none` for each maximal part that begins a character
and does not complete it, and for each byte that begins none. -/
def pieces : Bytes → List (Option Char)
  | [] => []
  | b :: bs =>
    match announced b with
    | none => none :: pieces bs
    | some (n, low, high) =>
      let split := continuation n low high bs
      (if split.1.length = n then some (assemble b split.1) else none) :: pieces split.2
termination_by bs => bs.length
decreasing_by
  · simp
  · exact Nat.lt_succ_of_le (length_continuation_le n low high bs)

/-- The mark that stands for bytes that spell no character. -/
def replacement : Char := '\uFFFD'

/-- The text of a file, with the mark `replacement` for each malformed part. -/
def ofUtf8Lossy (bs : Bytes) : Text := (pieces bs).map (·.getD replacement)

/-- The text of a file without malformed parts. -/
def ofUtf8? (bs : Bytes) : Option Text := (pieces bs).mapM id

end Text

end DocPages
