import DocPages.Proofs.FileSystem.Way

/-!
# What stays when a file system is extended

A file system is extended when nothing is taken away: directories and links stay what they are, and
files stay files, maybe with another content (`Extends`). A path that leads somewhere still leads there
(`Extends.resolve`), and so a directory stays one (`Extends.directoryAt?`).
-/

namespace DocPages

/-- The same directory, or the same file with some content. -/
inductive Place.Alike : Place → Place → Prop
  | directory (loc : Location) : Place.Alike (.directory loc) (.directory loc)
  | file (loc : Location) (c c' : Bytes) : Place.Alike (.file loc c) (.file loc c')

namespace FileSystem

/-- Directories and links stay, and files stay files. -/
structure Extends (fs fs' : FileSystem) : Prop where
  workingDirectory : fs'.workingDirectory = fs.workingDirectory
  directory {loc} (h : fs.node? loc = some .directory) : fs'.node? loc = some .directory
  link {loc target} (h : fs.node? loc = some (.link target)) : fs'.node? loc = some (.link target)
  file {loc c} (h : fs.node? loc = some (.file c)) : ∃ c', fs'.node? loc = some (.file c')

variable {fs fs' : FileSystem} {aim : Aim} {links : Nat} {here loc : Location} {names : List Text}
  {place : Place} {p : Path}

/-- A way to a directory or a file still leads there. -/
theorem Way.extend (h : Extends fs fs') (way : Way fs aim links here names place)
    (hv : ∀ v, place ≠ .vacant v) :
    ∃ place', Way fs' aim links here names place' ∧ Place.Alike place place' := by
  induction way with
  | @directory links here hd => exact ⟨_, .directory (h.directory hd), .directory here⟩
  | @file links here c hc =>
    obtain ⟨c', hc'⟩ := h.file hc
    exact ⟨_, .file hc', .file here c c'⟩
  | vacant => exact absurd rfl (hv _)
  | stay hd hn _ ih =>
    obtain ⟨place', way, halike⟩ := ih hv
    exact ⟨place', .stay (h.directory hd) hn way, halike⟩
  | up hd _ ih =>
    obtain ⟨place', way, halike⟩ := ih hv
    exact ⟨place', .up (h.directory hd) way, halike⟩
  | link hd hn ht _ ih =>
    obtain ⟨place', way, halike⟩ := ih hv
    exact ⟨place', .link (h.directory hd) hn (h.link ht) way, halike⟩
  | @down links here name rest node place hd hn hnode hl _ ih =>
    obtain ⟨place', way, halike⟩ := ih hv
    cases node with
    | link target => exact absurd rfl (hl target)
    | directory =>
      exact ⟨place', .down (h.directory hd) hn (h.directory hnode) hl way, halike⟩
    | file c =>
      obtain ⟨c', hc'⟩ := h.file hnode
      exact ⟨place', .down (h.directory hd) hn hc' (by simp) way, halike⟩

namespace Extends

variable (h : Extends fs fs')
include h

theorem isSome_node? (hn : (fs.node? loc).isSome) : (fs'.node? loc).isSome := by
  obtain ⟨node, hn⟩ := Option.isSome_iff_exists.1 hn
  cases node with
  | directory =>
    rw [h.directory hn]
    rfl
  | link target =>
    rw [h.link hn]
    rfl
  | file c =>
    obtain ⟨c', hc'⟩ := h.file hn
    rw [hc']
    rfl

theorem resolve (hp : fs.resolve aim p = .ok place) (hv : ∀ v, place ≠ .vacant v) :
    ∃ place', fs'.resolve aim p = .ok place' ∧ Place.Alike place place' := by
  obtain ⟨hfault, way⟩ := resolve_eq_ok_iff.1 hp
  obtain ⟨place', way', halike⟩ := way.extend h hv
  rw [startOf, ← h.workingDirectory] at way'
  exact ⟨place', resolve_eq_ok_iff.2 ⟨hfault, way'⟩, halike⟩

theorem directoryAt? (hp : fs.directoryAt? p = some loc) : fs'.directoryAt? p = some loc := by
  rw [directoryAt?_eq_some_iff] at hp ⊢
  obtain ⟨place', hplace, halike⟩ := h.resolve hp (by simp)
  cases halike
  exact hplace

theorem isDirectory (hp : fs.isDirectory p) : fs'.isDirectory p := by
  obtain ⟨loc, hloc⟩ := Option.isSome_iff_exists.1 hp
  exact Option.isSome_iff_exists.2 ⟨loc, h.directoryAt? hloc⟩

end Extends

end FileSystem

end DocPages
