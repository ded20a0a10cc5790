import DocPages.Proofs.Discovery.Exact

/-!
# Files that are deleted

Files are deleted from a file system by their locations (`without`). Directories and links stay, and so
does every way that does not lead to one of these files (`HoldsFiles.way_without`). Nothing else needs to
be known of the file system: there may be links, and several may lead to a file that is deleted.

Main statement: what is found is what was found before, without the paths that led to these files
(`HoldsFiles.filesBelow_without`).
-/

namespace DocPages

/-- Paths in strictly increasing order are told by which ones they are. -/
theorem Path.eq_of_pairwise_lt {ps qs : List Path}
    (hp : ps.Pairwise fun p q => components p < components q)
    (hq : qs.Pairwise fun p q => components p < components q) (h : ∀ p, p ∈ ps ↔ p ∈ qs) :
    ps = qs := by
  have : Std.Irrefl fun p q : Path => components p < components q := ⟨fun _ => lt_irrefl _⟩
  have : Std.Antisymm fun p q : Path => components p < components q :=
    ⟨fun _ _ hpq hqp => absurd hqp hpq.asymm⟩
  exact hp.eq_of_mem_iff hq h

namespace FileSystem

/-- The file system without what there is at some locations. -/
def without (fs : FileSystem) (gone : List Location) : FileSystem where
  entries := fs.entries.filter fun e => !gone.contains e.1
  workingDirectory := fs.workingDirectory
  distinct := fs.distinct.sublist (List.filter_sublist.map _)

/-- There is a file at each of the locations. -/
def HoldsFiles (fs : FileSystem) (gone : List Location) : Prop :=
  ∀ loc ∈ gone, ∃ c, fs.node? loc = some (.file c)

/-- The path leads to none of the locations. -/
def keeps (fs : FileSystem) (gone : List Location) (p : Path) : Bool :=
  (fs.fileAt? p).all fun loc => !gone.contains loc

variable {fs : FileSystem} {gone : List Location} {aim : Aim} {links : Nat} {here loc : Location}
  {names : List Text} {place : Place} {p q root : Path} {c : Bytes} {wanted : Path → Bool}
  {excluded : Path → Bool → Bool} {files : List Path}

theorem keeps_iff (h : fs.resolve .find p = .ok (.file loc c)) : fs.keeps gone p ↔ loc ∉ gone := by
  rw [keeps, fileAt?_eq h, Option.all_some, Bool.not_eq_true', ← Bool.not_eq_true, List.contains_iff_mem]

/-! ### Where paths lead -/

/-- Behind a file there is no further name. -/
theorem Way.eq_of_file (way : Way fs aim links here names place) (h : fs.node? here = some (.file c)) :
    place = .file here c := by
  cases way <;> simp_all

namespace HoldsFiles

variable (h : fs.HoldsFiles gone)
include h

theorem node?_without (loc : Location) :
    (fs.without gone).node? loc = if loc ∈ gone then none else fs.node? loc := by
  rcases List.eq_nil_or_concat loc with rfl | ⟨loc, name, rfl⟩
  · have hroot : [] ∉ gone := fun hmem => by
      obtain ⟨c, hc⟩ := h [] hmem
      cases hc
    rw [if_neg hroot]
    rfl
  · have hlookup := lookup_filter_location (fun l => !gone.contains l) fs.entries (loc ++ [name])
    rw [List.concat_eq_append, node?_concat, node?_concat, without, hlookup]
    by_cases hmem : loc ++ [name] ∈ gone <;> simp [hmem]

theorem node?_without_of_ne (hloc : ∀ c, fs.node? loc ≠ some (.file c)) :
    (fs.without gone).node? loc = fs.node? loc := by
  rw [h.node?_without, if_neg]
  intro hmem
  obtain ⟨c, hc⟩ := h loc hmem
  exact hloc c hc

theorem file_without_iff : (fs.without gone).node? loc = some (.file c) ↔
    fs.node? loc = some (.file c) ∧ loc ∉ gone := by
  rw [h.node?_without]
  by_cases hmem : loc ∈ gone <;> simp [hmem]

theorem extends_without : Extends (fs.without gone) fs := by
  have hold {loc : Location} {node : Node} (hn : (fs.without gone).node? loc = some node) :
      fs.node? loc = some node := by
    rw [h.node?_without] at hn
    split at hn
    · contradiction
    · exact hn
  exact ⟨rfl, hold, hold, fun hc => ⟨_, hold hc⟩⟩

/-- A way stays unless it leads to a file that is deleted. -/
theorem way_without (way : Way fs aim links here names place)
    (hkeep : ∀ loc c, place = .file loc c → loc ∉ gone) :
    Way (fs.without gone) aim links here names place := by
  have hdirectory {loc : Location} (hd : fs.node? loc = some .directory) :
      (fs.without gone).node? loc = some .directory := by
    rwa [h.node?_without_of_ne (by simp [hd])]
  induction way with
  | directory hd => exact .directory (hdirectory hd)
  | file hc => exact .file (h.file_without_iff.2 ⟨hc, hkeep _ _ rfl⟩)
  | stay hd hn _ ih => exact .stay (hdirectory hd) hn (ih hkeep)
  | up hd _ ih => exact .up (hdirectory hd) (ih hkeep)
  | vacant hd hn he hr =>
    exact .vacant (hdirectory hd) hn (by rwa [h.node?_without_of_ne (by simp [he])]) hr
  | link hd hn ht _ ih =>
    exact .link (hdirectory hd) hn (by rwa [h.node?_without_of_ne (by simp [ht])]) (ih hkeep)
  | @down links here name rest node place hd hn hnode hl way ih =>
    cases node with
    | link target => exact absurd rfl (hl target)
    | directory => exact .down (hdirectory hd) hn (hdirectory hnode) hl (ih hkeep)
    | file c =>
      have hmem := hkeep _ c (way.eq_of_file hnode)
      exact .down (hdirectory hd) hn (h.file_without_iff.2 ⟨hnode, hmem⟩) hl (ih hkeep)

theorem resolve_without_of_ne (hp : fs.resolve aim p = .ok place)
    (hkeep : ∀ loc c, place = .file loc c → loc ∉ gone) :
    (fs.without gone).resolve aim p = .ok place := by
  obtain ⟨hfault, way⟩ := resolve_eq_ok_iff.1 hp
  exact resolve_eq_ok_iff.2 ⟨hfault, h.way_without way hkeep⟩

/-- A path leads to a file exactly if it has led there and the file is not deleted. -/
theorem resolve_without_iff : (fs.without gone).resolve aim p = .ok (.file loc c) ↔
    fs.resolve aim p = .ok (.file loc c) ∧ loc ∉ gone := by
  constructor
  · intro hp
    have hnew : (fs.without gone).node? loc = some (.file c) := (resolve_eq_ok_iff.1 hp).2.holds
    obtain ⟨hold, hmem⟩ := h.file_without_iff.1 hnew
    obtain ⟨_, hplace, ⟨⟩⟩ := h.extends_without.resolve hp (by simp)
    have hnode := (resolve_eq_ok_iff.1 hplace).2.holds
    obtain rfl := Node.file.inj (Option.some.inj (hold.symm.trans hnode))
    exact ⟨hplace, hmem⟩
  · rintro ⟨hp, hmem⟩
    refine h.resolve_without_of_ne hp ?_
    rintro _ _ ⟨⟩
    exact hmem

theorem directoryAt?_without (p : Path) : (fs.without gone).directoryAt? p = fs.directoryAt? p := by
  refine Option.ext fun loc => ⟨h.extends_without.directoryAt?, fun hp => ?_⟩
  rw [directoryAt?_eq_some_iff] at hp ⊢
  exact h.resolve_without_of_ne hp (by simp)

theorem isFile_without_iff : (fs.without gone).isFile p ↔ fs.isFile p ∧ fs.keeps gone p := by
  rw [isFile_iff, isFile_iff]
  constructor
  · rintro ⟨loc, c, hp⟩
    obtain ⟨hold, hmem⟩ := h.resolve_without_iff.1 hp
    exact ⟨⟨loc, c, hold⟩, (keeps_iff hold).2 hmem⟩
  · rintro ⟨⟨loc, c, hp⟩, hkeeps⟩
    exact ⟨loc, c, h.resolve_without_iff.2 ⟨hp, (keeps_iff hp).1 hkeeps⟩⟩

/-! ### What is found -/

theorem isSource_without_iff : IsSource (fs.without gone) wanted excluded root q ↔
    IsSource fs wanted excluded root q ∧ fs.keeps gone q := by
  have hdirectory (p : Path) : (fs.without gone).isDirectory p = fs.isDirectory p := by
    rw [isDirectory, isDirectory, h.directoryAt?_without]
  constructor
  · rintro ⟨names, hq⟩
    obtain ⟨hfile, hkeeps⟩ := h.isFile_without_iff.1 hq.isFile
    refine ⟨⟨names, { hq with isFile := hfile, directories := ?_ }⟩, hkeeps⟩
    simpa only [hdirectory] using hq.directories
  · rintro ⟨⟨names, hq⟩, hkeeps⟩
    have hfile := h.isFile_without_iff.2 ⟨hq.isFile, hkeeps⟩
    refine ⟨names, { hq with isFile := hfile, directories := ?_ }⟩
    simpa only [hdirectory] using hq.directories

/-- The same files are found in the same order, without those that are deleted. -/
theorem filesBelow_without (hfiles : fs.filesBelow wanted excluded root = .ok files) :
    (fs.without gone).filesBelow wanted excluded root = .ok (files.filter (fs.keeps gone)) := by
  obtain ⟨base, hroot, hcycle, -⟩ := filesBelow_eq_ok_iff.1 hfiles
  have hnew := filesBelow_eq_ok_iff.2 ⟨base, (h.directoryAt?_without root).trans hroot,
    h.extends_without.cycle_walkFrom_eq_none hcycle, rfl⟩
  rw [hnew]
  refine congrArg _ (Path.eq_of_pairwise_lt (pairwise_filesBelow hnew)
    ((pairwise_filesBelow hfiles).filter _) fun q => ?_)
  rw [mem_filesBelow_iff hnew, h.isSource_without_iff, List.mem_filter, mem_filesBelow_iff hfiles]

end HoldsFiles

end FileSystem

end DocPages
