import DocPages.Text.Basic
import Mathlib.Data.List.TakeWhile
import Mathlib.Tactic.Common

/-!
# Cutting and trimming texts

Where a text is cut, and what a cut tells about it: a text is the part in front of a character that
it does not contain (`cut_inj`). Trimming takes nothing away from the inside of a text
(`mem_of_mem_trim`, `trim_eq_self`).
-/

namespace DocPages

/-! ### Cutting where a property ends -/

section Boundary

variable {α : Type} {p : α → Bool} {t rest : List α}

theorem takeWhile_append_of_boundary (ht : ∀ c ∈ t, p c) (hr : ∀ c ∈ rest.head?, p c = false) :
    (t ++ rest).takeWhile p = t := by
  rw [List.takeWhile_append_of_pos ht]
  cases rest with
  | nil => simp
  | cons c cs => simp [hr c rfl]

theorem dropWhile_append_of_boundary (ht : ∀ c ∈ t, p c) (hr : ∀ c ∈ rest.head?, p c = false) :
    (t ++ rest).dropWhile p = rest := by
  rw [List.dropWhile_append_of_pos ht]
  cases rest with
  | nil => rfl
  | cons c cs => simp [hr c rfl]

end Boundary

namespace Text

/-- Where a character comes for the first time, two texts that contain it are cut alike. -/
theorem cut_inj {c : Char} {a b x y : Text} (ha : c ∉ a) (hb : c ∉ b)
    (h : a ++ c :: x = b ++ c :: y) : a = b ∧ x = y := by
  have htake {t r : Text} (ht : c ∉ t) : (t ++ c :: r).takeWhile (· != c) = t :=
    takeWhile_append_of_boundary (fun d hd => bne_iff_ne.2 fun he => ht (he ▸ hd)) (by simp)
  have hab : a = b := by rw [← htake (r := x) ha, h, htake hb]
  rw [hab, List.append_cancel_left_eq, List.cons.injEq] at h
  exact ⟨hab, h.2⟩

/-! ### Trimming -/

theorem trim_eq_self {t : Text} (h : ∀ c ∈ t, isBlank c = false) : trim t = t := by
  have hdrop {u : Text} (hu : ∀ c ∈ u, isBlank c = false) : u.dropWhile isBlank = u :=
    dropWhile_append_of_boundary (t := []) (by simp) fun c hc => hu c (List.mem_of_mem_head? hc)
  rw [trim, trimStart, hdrop h, trimEnd, hdrop fun c hc => h c (List.mem_reverse.1 hc),
    List.reverse_reverse]

theorem mem_of_mem_trim {t : Text} {c : Char} (h : c ∈ trim t) : c ∈ t := by
  rw [trim, trimEnd, List.mem_reverse] at h
  have hstart : c ∈ trimStart t := List.mem_reverse.1 ((List.dropWhile_sublist _).subset h)
  exact (List.dropWhile_sublist _).subset hstart

end Text

end DocPages
