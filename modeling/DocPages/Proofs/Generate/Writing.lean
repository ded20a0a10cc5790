import DocPages.Generate
import DocPages.Proofs.FileSystem.Make
import DocPages.Proofs.FileSystem.Write
import DocPages.Proofs.Text.Utf8

/-!
# Writing documents one after the other

Each document goes to a file, and that file keeps it unless a later document goes to the same one
(`resolve_writeDocuments`). So all documents can be read back when their paths lead to distinct files
(`keeps_writeDocuments`), and if no two contents are equal, only then
(`nodup_fileAt?_of_keeps`). No step of a run makes a link (`MakesNoLink`), so which links there
are is known beforehand.
-/

namespace DocPages

/-- The path of a document in a directory. -/
def Document.path (dir : Path) (doc : Document) : Path := Path.join dir doc.fileName

/-- Every document can be read back from its path in the directory. -/
def FileSystem.Keeps (fs : FileSystem) (dir : Path) (docs : List Document) : Prop :=
  ∀ doc ∈ docs, fs.readFile (doc.path dir) = .ok (Text.toUtf8 doc.content)

/-! ### One document -/

section Writing

variable {fs fs' : FileSystem} {dir p : Path} {doc : Document} {docs : List Document}
  {loc : Location} {c : Bytes}

theorem writeDocument_eq (h : writeDocument fs dir doc = .ok (fs', p)) :
    ∃ l, fs.HasRoom l ∧ fs' = fs.put l (.file (Text.toUtf8 doc.content)) ∧
      fs'.resolve .write (doc.path dir) = .ok (.file l (Text.toUtf8 doc.content)) := by
  unfold writeDocument at h
  simp only at h
  split at h
  · next disk hw =>
    cases h
    exact FileSystem.writeFile_eq hw
  · contradiction

/-- When some documents have been written, so has the first one, and the others after it. -/
theorem writeDocuments_cons (h : (writeDocuments fs dir (doc :: docs)).failure = none) :
    ∃ l, fs.HasRoom l ∧
      let fs' := fs.put l (.file (Text.toUtf8 doc.content))
      fs'.resolve .write (doc.path dir) = .ok (.file l (Text.toUtf8 doc.content)) ∧
        (writeDocuments fs' dir docs).failure = none ∧
        (writeDocuments fs dir (doc :: docs)).disk = (writeDocuments fs' dir docs).disk := by
  cases hw : writeDocument fs dir doc with
  | error e => simp [writeDocuments, hw] at h
  | ok r =>
    obtain ⟨fs', p⟩ := r
    simp only [writeDocuments, hw] at h ⊢
    obtain ⟨l, hl, rfl, hres⟩ := writeDocument_eq hw
    exact ⟨l, hl, hres, h, rfl⟩

/-! ### All documents -/

/-- A file stays a file, with what is in it unless a document goes there. -/
theorem resolve_writeDocuments {aim : Aim} (h : fs.resolve aim p = .ok (.file loc c))
    (hw : (writeDocuments fs dir docs).failure = none) :
    ∃ c', (writeDocuments fs dir docs).disk.resolve aim p = .ok (.file loc c') ∧
      ((∀ doc ∈ docs, (writeDocuments fs dir docs).disk.fileAt? (doc.path dir) ≠ some loc) →
        c' = c) := by
  induction docs generalizing fs aim p loc c with
  | nil => exact ⟨c, h, fun _ => rfl⟩
  | cons doc docs ih =>
    obtain ⟨l, hl, hdoc, hrest, hdisk⟩ := writeDocuments_cons hw
    have hput := FileSystem.resolve_put (b := Text.toUtf8 doc.content) hl h (Or.inr (by simp))
    -- Once for the file in question, and once to see that the document stays where it was put.
    obtain ⟨c', hc', hkeep⟩ := ih hput hrest
    obtain ⟨_, hdoc', _⟩ := ih hdoc hrest
    refine ⟨c', hdisk ▸ hc', fun hother => ?_⟩
    rw [hdisk] at hother
    have hne : loc ≠ l := by
      rintro rfl
      exact hother doc List.mem_cons_self (FileSystem.fileAt?_eq (FileSystem.resolve_find hdoc'))
    rw [hkeep fun d hd => hother d (List.mem_cons_of_mem _ hd), if_neg hne]

/-- Every document can be read back when no two paths lead to one file. -/
theorem keeps_writeDocuments (hw : (writeDocuments fs dir docs).failure = none)
    (hn : (docs.map fun doc =>
      (writeDocuments fs dir docs).disk.fileAt? (doc.path dir)).Nodup) :
    (writeDocuments fs dir docs).disk.Keeps dir docs := by
  induction docs generalizing fs with
  | nil => exact List.forall_mem_nil _
  | cons doc docs ih =>
    obtain ⟨l, hl, hdoc, hrest, hdisk⟩ := writeDocuments_cons hw
    rw [hdisk, List.map_cons, List.nodup_cons] at hn
    obtain ⟨c, hc, hkeep⟩ := resolve_writeDocuments (FileSystem.resolve_find hdoc) hrest
    have hother : c = Text.toUtf8 doc.content := by
      refine hkeep fun d hd he => hn.1 ?_
      rw [FileSystem.fileAt?_eq hc, ← he]
      exact List.mem_map_of_mem hd
    rw [hdisk]
    intro d hd
    rcases List.mem_cons.1 hd with rfl | hd
    · rw [FileSystem.readFile_eq hc, hother]
    · exact ih hrest hn.2 d hd

/-- The path of every document that has been written leads to a file. -/
theorem exists_fileAt?_of_mem (hw : (writeDocuments fs dir docs).failure = none)
    (hd : doc ∈ docs) :
    ∃ loc c, (writeDocuments fs dir docs).disk.resolve .find (doc.path dir) =
      .ok (.file loc c) := by
  induction docs generalizing fs with
  | nil => simp at hd
  | cons first docs ih =>
    obtain ⟨l, hl, hfirst, hrest, hdisk⟩ := writeDocuments_cons hw
    rw [hdisk]
    rcases List.mem_cons.1 hd with rfl | hd
    · obtain ⟨c, hc, _⟩ := resolve_writeDocuments (FileSystem.resolve_find hfirst) hrest
      exact ⟨l, c, hc⟩
    · exact ih hrest hd

/-- Documents with distinct contents that can all be read back lie in distinct files. -/
theorem nodup_fileAt?_of_keeps (hc : (docs.map Document.content).Nodup)
    (hr : fs.Keeps dir docs) : (docs.map fun doc => fs.fileAt? (doc.path dir)).Nodup := by
  rw [List.Nodup, List.pairwise_map] at hc ⊢
  refine hc.imp_of_mem fun {d e} hd he hne hat => hne ?_
  obtain ⟨loc, hloc⟩ := FileSystem.resolve_of_readFile (hr d hd)
  have hat' := FileSystem.fileAt?_eq hloc
  have hread := FileSystem.readFile_congr hat' (hat ▸ hat')
  rw [hr d hd, hr e he, Except.ok.injEq] at hread
  exact Text.toUtf8_injective hread

end Writing

/-! ### Links -/

namespace FileSystem

/-- Every link of the second file system is one of the first. -/
def MakesNoLink (fs fs' : FileSystem) : Prop :=
  ∀ loc target, fs'.node? loc = some (.link target) → fs.node? loc = some (.link target)

variable {fs fs' fs'' : FileSystem}

namespace MakesNoLink

theorem refl (fs : FileSystem) : MakesNoLink fs fs := fun _ _ h => h

theorem trans (h : MakesNoLink fs fs') (h' : MakesNoLink fs' fs'') : MakesNoLink fs fs'' :=
  fun loc target hl => h loc target (h' loc target hl)

theorem put {l : Location} {node : Node} (hn : ∀ target, node ≠ .link target) :
    MakesNoLink fs (fs.put l node) := by
  intro loc target h
  cases loc with
  | nil => exact h
  | cons n loc =>
    simp only [node?, FileSystem.put, lookup_putEntry] at h ⊢
    split at h
    · exact absurd (Option.some.inj h) (hn target)
    · exact h

theorem prepareOutput (fs : FileSystem) (dir : Path) :
    MakesNoLink fs (DocPages.prepareOutput fs dir).1 := by
  have hmade := (makesDirectories_makeDirectories fs dir).addsDirectories
  unfold DocPages.prepareOutput
  split
  · next made hm =>
    rw [hm] at hmade
    exact fun loc target => hmade.link_iff.1
  · next made e hm =>
    rw [hm] at hmade
    exact fun loc target => hmade.link_iff.1

theorem writeDocuments {dir : Path} {docs : List Document}
    (h : (DocPages.writeDocuments fs dir docs).failure = none) :
    MakesNoLink fs (DocPages.writeDocuments fs dir docs).disk := by
  induction docs generalizing fs with
  | nil => exact refl fs
  | cons doc docs ih =>
    obtain ⟨l, _, _, hrest, hdisk⟩ := writeDocuments_cons h
    rw [hdisk]
    exact (put (by simp)).trans (ih hrest)

end MakesNoLink

end FileSystem

/-! ### A run that succeeds -/

/-- A run that succeeds has read the sources, made the output directory and written all documents. -/
theorem generate_eq_ok {fs : FileSystem} {plan : Plan} {scans : List FileScan} {report : Report}
    (hs : scanProject fs plan = .ok scans) (h : (generate fs plan).result = .ok report) :
    let docs := Page.documents (declarationsOf scans)
    let made := (prepareOutput fs plan.outputDir).1
    (writeDocuments made plan.outputDir docs).failure = none ∧
      (generate fs plan).disk = (writeDocuments made plan.outputDir docs).disk := by
  unfold generate at h ⊢
  simp only [hs] at h ⊢
  cases hm : prepareOutput fs plan.outputDir with
  | mk made result =>
    cases result with
    | error e => simp [hm] at h
    | ok u =>
      simp only [hm] at h ⊢
      cases hf : (writeDocuments made plan.outputDir
        (Page.documents (declarationsOf scans))).failure with
      | none => simp
      | some e => simp [hf] at h

end DocPages
