import DocPages.Proofs.Discovery.Walk
import Mathlib.Data.List.Count

/-!
# The steps of a walk

A walk takes its paths one at a time, and what it does with one is a `Step`. Links may make the tree of
paths infinite, so no path says how far a walk still has to go. It is the entries that do: a step uses up
a path, and gives new paths only for the entries of a directory that has not been entered before.

Main statements: a row of steps is never longer than the list of entries and enters no directory twice
(`Steps.length_le`, `Steps.enteredOnce`), and a walk is where the steps end (`exists_steps_walk`).
-/

namespace DocPages

namespace FileSystem

section Steps

variable (fs : FileSystem) (wanted : Path → Bool) (excluded : Path → Bool → Bool)

/-- What a walk does with the first of its paths: the walk and its paths before and after. -/
inductive Step : Walk → List Path → Walk → List Path → Prop
  | leave {w p rest loc} (hd : fs.directoryAt? p = some loc) (hx : excluded p true) :
      Step w (p :: rest) w rest
  | cycle {w p rest loc} (hd : fs.directoryAt? p = some loc) (hx : excluded p true = false)
      (hv : loc ∈ w.entered) : Step w (p :: rest) { w with cycle := some p } []
  | enter {w p rest loc} (hd : fs.directoryAt? p = some loc) (hx : excluded p true = false)
      (hv : loc ∉ w.entered) :
      Step w (p :: rest) { w with entered := loc :: w.entered } (fs.childPaths p loc ++ rest)
  | collect {w p rest} (hd : fs.directoryAt? p = none) (hx : excluded p false = false)
      (hf : fs.isFile p) (hw : wanted p) : Step w (p :: rest) { w with found := w.found ++ [p] } rest
  | pass {w p rest} (hd : fs.directoryAt? p = none)
      (hp : excluded p false ∨ fs.isFile p = false ∨ wanted p = false) : Step w (p :: rest) w rest

/-- A row of `n` steps. -/
inductive Steps : Nat → Walk → List Path → Walk → List Path → Prop
  | refl {w todo} : Steps 0 w todo w todo
  | head {n w w' w'' todo todo' todo''} (h : Step fs wanted excluded w todo w' todo')
      (hs : Steps n w' todo' w'' todo'') : Steps (n + 1) w todo w'' todo''

/-- The paths that a walk may still come to: those it has, and one for each entry of a directory that
has not been entered. -/
def remaining (entered : List Location) (todo : List Path) : Nat :=
  todo.length + fs.entries.countP fun e => !entered.contains e.1.dropLast

end Steps

variable {fs : FileSystem} {wanted : Path → Bool} {excluded : Path → Bool → Bool} {w w' : Walk}
  {todo todo' : List Path} {loc : Location} {entered : List Location} {n : Nat}

/-! ### How many steps there are -/

theorem remaining_eq (fs : FileSystem) (entered : List Location) (todo : List Path) :
    fs.remaining entered todo =
      todo.length + fs.entries.countP fun e => e.1.dropLast ∉ entered := by
  unfold remaining
  congr 2
  funext e
  simp

/-- The entries of a directory are entries of one directory less once it has been entered. -/
theorem length_children_add_le (fs : FileSystem) (hv : loc ∉ entered) :
    (fs.children loc).length + fs.entries.countP (fun e => e.1.dropLast ∉ loc :: entered) ≤
      fs.entries.countP fun e => e.1.dropLast ∉ entered := by
  unfold children
  induction fs.entries with
  | nil => simp
  | cons e es ih =>
    simp only [List.countP_cons, List.mem_cons, not_or, decide_eq_true_eq] at ih ⊢
    by_cases hloc : e.1.dropLast = loc
    · have hlength : ((e :: es).filterMap (childName? loc)).length ≤
          (es.filterMap (childName? loc)).length + 1 := by
        cases hname : childName? loc e <;> simp [hname]
      rw [if_neg (by simp [hloc]), if_pos (by rwa [hloc])]
      omega
    · have hnone : childName? loc e = none := by simp [childName?, hloc]
      simp only [List.filterMap_cons, hnone, hloc, not_false_eq_true, true_and]
      omega

/-- Every step leaves fewer paths. -/
theorem Step.remaining_lt (h : Step fs wanted excluded w todo w' todo') :
    fs.remaining w'.entered todo' < fs.remaining w.entered todo := by
  rw [remaining_eq, remaining_eq]
  cases h with
  | leave => simp
  | cycle => simp
  | enter _ _ hv =>
    have hentries := length_children_add_le fs hv
    rw [List.length_append, childPaths, List.length_map, List.length_cons]
    dsimp only
    omega
  | collect => simp
  | pass => simp

theorem Steps.add_remaining_le (h : Steps fs wanted excluded n w todo w' todo') :
    n + fs.remaining w'.entered todo' ≤ fs.remaining w.entered todo := by
  induction h with
  | refl => omega
  | head h _ ih =>
    have hlt := h.remaining_lt
    omega

/-- The walk through a directory takes no more steps than there are entries. -/
theorem Steps.length_le {root : Path} {base : Location}
    (h : Steps fs wanted excluded n ⟨[base], [], none⟩ (fs.childPaths root base) w todo) :
    n ≤ fs.entries.length := by
  have hle := h.add_remaining_le
  have hentries := length_children_add_le fs (List.not_mem_nil (a := base))
  have hall : fs.entries.countP (fun e => e.1.dropLast ∉ ([] : List Location)) ≤ fs.entries.length :=
    List.countP_le_length
  have hremaining : fs.remaining [base] (fs.childPaths root base) ≤ fs.entries.length := by
    rw [remaining_eq, childPaths, List.length_map]
    exact hentries.trans hall
  exact (Nat.le_add_right _ _).trans (hle.trans hremaining)

/-! ### What has been entered -/

/-- The directories entered are directories, and no two of them are the same. -/
structure EnteredOnce (fs : FileSystem) (entered : List Location) : Prop where
  nodup : entered.Nodup
  node? : ∀ loc ∈ entered, fs.node? loc = some .directory

theorem Step.enteredOnce (h : Step fs wanted excluded w todo w' todo')
    (hw : EnteredOnce fs w.entered) : EnteredOnce fs w'.entered := by
  cases h with
  | leave => exact hw
  | cycle => exact hw
  | @enter p rest loc hd _ hv =>
    refine ⟨List.nodup_cons.2 ⟨hv, hw.nodup⟩, fun l hl => ?_⟩
    rcases List.mem_cons.1 hl with rfl | hl
    · obtain ⟨-, way⟩ := resolve_eq_ok_iff.1 (directoryAt?_eq_some_iff.1 hd)
      exact way.holds
    · exact hw.node? l hl
  | collect => exact hw
  | pass => exact hw

theorem Steps.enteredOnce (h : Steps fs wanted excluded n w todo w' todo')
    (hw : EnteredOnce fs w.entered) : EnteredOnce fs w'.entered := by
  induction h with
  | refl => exact hw
  | head h _ ih => exact ih (h.enteredOnce hw)

/-! ### Where the steps lead -/

/-- As long as there are paths, there is a step. -/
theorem exists_step (fs : FileSystem) (wanted : Path → Bool) (excluded : Path → Bool → Bool) (w : Walk)
    (h : todo ≠ []) : ∃ w' todo', Step fs wanted excluded w todo w' todo' := by
  obtain ⟨p, rest, rfl⟩ := List.exists_cons_of_ne_nil h
  cases hd : fs.directoryAt? p with
  | some loc =>
    by_cases hx : excluded p true
    · exact ⟨_, _, .leave hd hx⟩
    · rw [Bool.not_eq_true] at hx
      by_cases hv : loc ∈ w.entered
      · exact ⟨_, _, .cycle hd hx hv⟩
      · exact ⟨_, _, .enter hd hx hv⟩
  | none =>
    by_cases hp : excluded p false ∨ fs.isFile p = false ∨ wanted p = false
    · exact ⟨_, _, .pass hd hp⟩
    · simp only [not_or, Bool.not_eq_true, Bool.not_eq_false] at hp
      exact ⟨_, _, .collect hd hp.1 hp.2.1 hp.2.2⟩

/-- A walk is where its steps end. -/
theorem exists_steps_walk (fs : FileSystem) (wanted : Path → Bool) (excluded : Path → Bool → Bool)
    (w : Walk) (todo : List Path) :
    ∃ n, Steps fs wanted excluded n w todo (fs.walk wanted excluded w todo) [] := by
  fun_induction fs.walk wanted excluded w todo with
  | case1 w => exact ⟨0, .refl⟩
  | case2 w p rest loc hd hx ih =>
    obtain ⟨n, hs⟩ := ih
    exact ⟨n + 1, .head (.leave hd hx) hs⟩
  | case3 w p rest loc hd hx hv => exact ⟨1, .head (.cycle hd (by simpa using hx) hv) .refl⟩
  | case4 w p rest loc hd hx hv ih =>
    obtain ⟨n, hs⟩ := ih
    exact ⟨n + 1, .head (.enter hd (by simpa using hx) hv) hs⟩
  | case5 w p rest hd hf ih =>
    obtain ⟨n, hs⟩ := ih
    simp only [Bool.and_eq_true, Bool.not_eq_true'] at hf
    exact ⟨n + 1, .head (.collect hd hf.1.1 hf.1.2 hf.2) hs⟩
  | case6 w p rest hd hf ih =>
    obtain ⟨n, hs⟩ := ih
    refine ⟨n + 1, .head (.pass hd ?_) hs⟩
    cases hx : excluded p false <;> cases hfile : fs.isFile p <;> simp_all

end FileSystem

end DocPages
