import DocPages.Text.LineEnding
import Mathlib.Tactic.Common

/-!
# Line endings in one round

Line endings are unified in two rounds over the whole text. One round from left to right does the same
(`unifyLineEndings_eq_inOneRound`), and where there is no carriage return there is nothing to do
(`unifyLineEndings_of_not_mem`).

Main statements: two texts are unified one by one unless a pair is torn apart between them
(`unifyLineEndings_append_iff`), and a text without carriage returns is got back from its form with pairs
(`unifyLineEndings_withPairs`) and from its form with carriage returns alone
(`unifyLineEndings_withReturns`).
-/

namespace DocPages

namespace Text

/-- Every line ending as one line feed, in one round from left to right. -/
def inOneRound : Text → Text
  | '\r' :: '\n' :: rest => '\n' :: inOneRound rest
  | '\r' :: rest => '\n' :: inOneRound rest
  | c :: rest => c :: inOneRound rest
  | [] => []

/-- The text with a pair for each line feed. -/
def withPairs (t : Text) : Text := t.flatMap fun c => if c = '\n' then ['\r', '\n'] else [c]

/-- The text with a carriage return for each line feed. -/
def withReturns (t : Text) : Text := t.map fun c => if c = '\n' then '\r' else c

variable {s t : Text} {c : Char}

/-! ### One ending after the other -/

theorem unifyLineEndings_pair (t : Text) :
    unifyLineEndings ('\r' :: '\n' :: t) = '\n' :: unifyLineEndings t := rfl

theorem unifyLineEndings_return (ht : t.head? ≠ some '\n') :
    unifyLineEndings ('\r' :: t) = '\n' :: unifyLineEndings t := by
  have hjoin : joinReturnFeed ('\r' :: t) = '\r' :: joinReturnFeed t := by
    rw [joinReturnFeed]
    rintro rest - rfl
    exact ht rfl
  rw [unifyLineEndings, hjoin]
  rfl

theorem unifyLineEndings_cons (hc : c ≠ '\r') (t : Text) :
    unifyLineEndings (c :: t) = c :: unifyLineEndings t := by
  have hjoin : joinReturnFeed (c :: t) = c :: joinReturnFeed t := by
    rw [joinReturnFeed]
    exact fun _ h _ => hc h
  rw [unifyLineEndings, hjoin, returnToFeed, List.map_cons, if_neg hc]
  rfl

/-- The second round sees no carriage return that the first one should have joined. -/
theorem unifyLineEndings_eq_inOneRound (t : Text) : unifyLineEndings t = inOneRound t := by
  fun_induction inOneRound t with
  | case1 rest ih => rw [unifyLineEndings_pair, ih]
  | case2 rest hnot ih =>
    rw [unifyLineEndings_return, ih]
    intro hhead
    obtain ⟨s, rfl⟩ := List.head?_eq_some_iff.1 hhead
    exact hnot s rfl
  | case3 c rest _ hc ih => rw [unifyLineEndings_cons hc, ih]
  | case4 => rfl

/-- A carriage return in front of a pair ends a line of its own. -/
example : unifyLineEndings "a\r\r\nb\n\r".toList = "a\n\nb\n\n".toList := rfl

theorem unifyLineEndings_of_not_mem (ht : '\r' ∉ t) : unifyLineEndings t = t := by
  induction t with
  | nil => rfl
  | cons c t ih =>
    rw [List.mem_cons, not_or] at ht
    rw [unifyLineEndings_cons (Ne.symm ht.1), ih ht.2]

/-- A text without carriage returns may be left out of both rounds. -/
theorem unifyLineEndings_eq_ite (t : Text) :
    unifyLineEndings t = if '\r' ∈ t then returnToFeed (joinReturnFeed t) else t := by
  split
  · rfl
  · next ht => exact unifyLineEndings_of_not_mem ht

theorem unifyLineEndings_unifyLineEndings (t : Text) :
    unifyLineEndings (unifyLineEndings t) = unifyLineEndings t :=
  unifyLineEndings_of_not_mem (not_mem_unifyLineEndings t)

/-! ### Two texts -/

theorem unifyLineEndings_append (h : ¬ (s.getLast? = some '\r' ∧ t.head? = some '\n')) :
    unifyLineEndings (s ++ t) = unifyLineEndings s ++ unifyLineEndings t := by
  have hrest {c : Char} {s : Text} (h : ¬ ((c :: s).getLast? = some '\r' ∧ t.head? = some '\n')) :
      ¬ (s.getLast? = some '\r' ∧ t.head? = some '\n') := by
    rintro ⟨hs, ht⟩
    exact h ⟨by rw [List.getLast?_cons, hs, Option.getD_some], ht⟩
  fun_induction inOneRound s with
  | case1 rest ih =>
    rw [List.cons_append, List.cons_append, unifyLineEndings_pair, unifyLineEndings_pair,
      ih (hrest (hrest h)), List.cons_append]
  | case2 rest hnot ih =>
    cases rest with
    | nil => exact unifyLineEndings_return fun ht => h ⟨rfl, ht⟩
    | cons c rest =>
      have hhead (u : Text) : (c :: u).head? ≠ some '\n' := fun hc =>
        hnot rest (Option.some.inj hc ▸ rfl)
      rw [unifyLineEndings_return (hhead rest)]
      exact (unifyLineEndings_return (hhead _)).trans (congrArg ('\n' :: ·) (ih (hrest h)))
  | case3 c rest _ hc ih =>
    rw [List.cons_append, unifyLineEndings_cons hc, unifyLineEndings_cons hc, ih (hrest h),
      List.cons_append]
  | case4 => rfl

/-- Two texts are unified one by one unless a pair is torn apart between them. -/
theorem unifyLineEndings_append_iff (s t : Text) :
    unifyLineEndings (s ++ t) = unifyLineEndings s ++ unifyLineEndings t ↔
      ¬ (s.getLast? = some '\r' ∧ t.head? = some '\n') := by
  refine ⟨?_, unifyLineEndings_append⟩
  rintro h ⟨hs, ht⟩
  obtain ⟨s, rfl⟩ := List.getLast?_eq_some_iff.1 hs
  obtain ⟨t, rfl⟩ := List.head?_eq_some_iff.1 ht
  -- The pair is one line ending, and its parts are two.
  have hpair : unifyLineEndings (s ++ '\r' :: '\n' :: t) =
      unifyLineEndings s ++ '\n' :: unifyLineEndings t := unifyLineEndings_append (by simp)
  have hreturn : unifyLineEndings (s ++ ['\r']) = unifyLineEndings s ++ ['\n'] :=
    unifyLineEndings_append (by simp)
  have hfeed : unifyLineEndings ('\n' :: t) = '\n' :: unifyLineEndings t :=
    unifyLineEndings_cons (by decide) t
  rw [List.append_assoc, List.singleton_append, hpair, hreturn, hfeed] at h
  simpa using congrArg List.length h

/-! ### Other endings -/

theorem unifyLineEndings_withPairs (ht : '\r' ∉ t) : unifyLineEndings (withPairs t) = t := by
  induction t with
  | nil => rfl
  | cons c t ih =>
    rw [List.mem_cons, not_or] at ht
    rw [withPairs, List.flatMap_cons]
    split
    · next hc =>
      rw [hc]
      exact congrArg _ (ih ht.2)
    · rw [List.singleton_append, unifyLineEndings_cons (Ne.symm ht.1)]
      exact congrArg _ (ih ht.2)

theorem not_mem_withReturns (t : Text) : '\n' ∉ withReturns t := by
  rw [withReturns, List.mem_map]
  rintro ⟨c, -, hc⟩
  split at hc
  · contradiction
  · contradiction

theorem unifyLineEndings_withReturns (ht : '\r' ∉ t) : unifyLineEndings (withReturns t) = t := by
  induction t with
  | nil => rfl
  | cons c t ih =>
    rw [List.mem_cons, not_or] at ht
    rw [withReturns, List.map_cons]
    split
    · next hc =>
      have hhead : (withReturns t).head? ≠ some '\n' := fun h =>
        not_mem_withReturns t (List.mem_of_head? h)
      rw [hc]
      exact (unifyLineEndings_return hhead).trans (congrArg _ (ih ht.2))
    · rw [unifyLineEndings_cons (Ne.symm ht.1)]
      exact congrArg _ (ih ht.2)

end Text

end DocPages
