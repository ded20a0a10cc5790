import DocPages.Text.Basic

/-!
# Line endings

Sources may end their lines with a line feed, a carriage return or both. `unifyLineEndings` turns
every one of them into a single line feed, in two rounds: a pair becomes a line feed first
(`joinReturnFeed`), and then each carriage return that is left becomes one.
-/

namespace DocPages.Text

/-- Replaces each carriage return that is followed by a line feed, together with it, by a line feed.
-/
def joinReturnFeed : Text → Text
  | '\r' :: '\n' :: rest => '\n' :: joinReturnFeed rest
  | c :: rest => c :: joinReturnFeed rest
  | [] => []

/-- Replaces each carriage return by a line feed. -/
def returnToFeed (t : Text) : Text := t.map fun c => if c = '\r' then '\n' else c

/-- Every line ending as one line feed. -/
def unifyLineEndings (t : Text) : Text := returnToFeed (joinReturnFeed t)

theorem not_mem_unifyLineEndings (t : Text) : '\r' ∉ unifyLineEndings t := by
  simp only [unifyLineEndings, returnToFeed, List.mem_map, not_exists, not_and]
  intro c _ h
  split at h
  · exact absurd h (by decide)
  · exact absurd h ‹_›

end DocPages.Text
