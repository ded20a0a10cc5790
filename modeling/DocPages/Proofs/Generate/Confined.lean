import DocPages.Proofs.FileSystem.Entry
import DocPages.Proofs.Generate.Outcome

/-!
# Documents stay in the output directory

The file name of a page is made of a name that a source file has chosen, so it matters that source
files can choose only names that lead nowhere else (`IsDocumentName`). A document then lies in the
output directory (`LiesIn`), and what a run changes on the disk are files there and the directories that
lead to it (`ChangesOnlyIn`). The one way out is a link that has stood in the output directory before.

Main statement: no source file leads a run out of the output directory (`documents_confined`).
-/

namespace DocPages

open Page

/-! ### Names of documents -/

/-- The name of an entry of a directory, with no backslash in it and the extension of documents behind
a stem. -/
structure IsDocumentName (name : Text) : Prop extends FileSystem.IsListed name where
  not_mem_separator : separator ∉ name
  exists_stem : ∃ stem, stem ≠ [] ∧ name = stem ++ ".md".toList

/-- The path names an entry of the directory, under the name of a document. -/
def LiesIn (dir p : Path) : Prop :=
  ∃ name, IsDocumentName name ∧ p = Path.join dir name ∧
    Path.components p = Path.components dir ++ [name] ∧ Path.extension? p = some "md".toList

section Names

variable {d : Declaration} {ds : List Declaration} {doc : Document} {name : Text}

theorem IsDocumentName.extensionOfName?_eq (h : IsDocumentName name) :
    Path.extensionOfName? name = some "md".toList := by
  obtain ⟨stem, hstem, rfl⟩ := h.exists_stem
  have hdot : '.' ∉ "md".toList := by decide
  exact Path.extensionOfName?_append hstem hdot

theorem IsDocumentName.liesIn (h : IsDocumentName name) (dir : Path) :
    LiesIn dir (Path.join dir name) := by
  refine ⟨name, h, rfl, Path.components_join dir h.toIsListed, ?_⟩
  rw [Path.extension?_join dir h.toIsListed, h.extensionOfName?_eq]

theorem Declaration.HasNames.isDocumentName_pageName (h : d.HasNames) :
    IsDocumentName d.pageName := by
  have hnot {c : Char} (hc : isNameChar c = false) (hdot : c ≠ '.') : c ∉ d.pageName := by
    intro hm
    rcases h.mem_pageName hm with hm | hm
    · simp [hc] at hm
    · exact hdot hm
  refine ⟨⟨isProper_pageName, hnot rfl (by decide), hnot rfl (by decide)⟩, hnot rfl (by decide),
    d.qualifiedName.map pageChar, ?_, rfl⟩
  simpa using h.qualifiedName_ne_nil

theorem isDocumentName_fileName (h : ∀ d ∈ ds, d.HasNames) (hd : doc ∈ documents ds) :
    IsDocumentName doc.fileName := by
  have hindex : IsDocumentName indexName :=
    ⟨⟨⟨by decide, by decide⟩, by decide, by decide⟩, by decide, "index".toList, by decide, rfl⟩
  have hreference : IsDocumentName referenceName :=
    ⟨⟨⟨by decide, by decide⟩, by decide, by decide⟩, by decide, "api-reference".toList, by decide,
      rfl⟩
  rw [documents, List.mem_append, List.mem_map] at hd
  rcases hd with ⟨d, hd, rfl⟩ | hd
  · exact (h d hd).isDocumentName_pageName
  · simp only [List.mem_cons, List.not_mem_nil, or_false] at hd
    rcases hd with rfl | rfl
    · exact hindex
    · exact hreference

end Names

/-! ### Entries of a directory -/

section Entries

variable {fs : FileSystem} {dir : Path} {name : Text} {loc : Location} {c : Bytes}

theorem Path.isPrefix_join (dir : Path) (h : '/' ∉ name) : dir <+: Path.join dir name := by
  unfold Path.join
  rw [Path.not_isAbsolute h, Bool.false_or]
  split
  · next hnil =>
    rw [List.isEmpty_iff.1 hnil]
    exact List.nil_prefix
  · split <;> exact List.prefix_append _ _

namespace FileSystem

/-- The location is that of the directory that a path leads to, where the empty path stands for the
working directory. -/
def IsLocationOf (fs : FileSystem) (dir : Path) (out : Location) : Prop :=
  fs.directoryAt? dir = some out ∨ dir = [] ∧ out = fs.workingDirectory

theorem pathFault?_of_join (hdir : dir ≠ []) (hn : '/' ∉ name)
    (h : pathFault? (Path.join dir name) = none) : pathFault? dir = none := by
  obtain ⟨rest, hrest⟩ := Path.isPrefix_join dir hn
  have hne : dir ++ rest ≠ [] := fun he => hdir (List.append_eq_nil_iff.1 he).1
  unfold pathFault? at h ⊢
  rw [← hrest, if_neg hne] at h
  rw [if_neg hdir]
  split at h
  · contradiction
  · next hnul =>
    rw [if_neg fun hm => hnul (List.mem_append_left _ hm)]
    split at h
    · contradiction
    · next hsize =>
      rw [Text.byteSize_append] at hsize
      rw [if_neg (by omega)]

/-- A file named by an entry of a directory lies there, unless the entry is a link. -/
theorem exists_isLocationOf_of_join (hn : IsListed name)
    (h : fs.resolve .find (Path.join dir name) = .ok (.file loc c)) :
    ∃ out, fs.IsLocationOf dir out ∧
      (loc = out ++ [name] ∨ ∃ target, fs.node? (out ++ [name]) = some (.link target)) := by
  obtain ⟨names, hsplit, hjoin⟩ := Path.exists_splitOn_join dir
  obtain ⟨hfault, way⟩ := resolve_eq_ok_iff.1 h
  have hstart : startOf fs.workingDirectory (Path.join dir name) =
      startOf fs.workingDirectory dir := by
    rw [startOf, startOf, Path.isAbsolute_join dir hn.not_mem_slash]
  rw [hstart, hjoin name hn.not_mem_slash] at way
  obtain ⟨links, out, hout, hlast⟩ := way.exists_of_append (List.cons_ne_nil _ _) (by simp)
  refine ⟨out, ?_, ?_⟩
  · by_cases hdir : dir = []
    · right
      subst hdir
      obtain rfl : names = [] := by
        have hname := hjoin name hn.not_mem_slash
        rw [Path.join, if_pos (by simp), List.splitOn_eq_singleton hn.not_mem_slash] at hname
        exact (List.append_left_inj [name]).1 (hname.symm.trans (List.nil_append _).symm)
      cases hout
      exact ⟨rfl, rfl⟩
    · left
      have hd : fs.node? out = some .directory := hout.holds
      rw [directoryAt?_eq_some_iff, resolve, pathFault?_of_join hdir hn.not_mem_slash hfault]
      dsimp only
      rcases hsplit with heq | heq
      · rw [heq, hout.follow_eq]
      · -- Behind a slash at its end, the path stays where it is.
        obtain ⟨links', hfollow⟩ := hout.follow_append
        rw [heq, hfollow, follow]
        simp [hd, follow]
  · by_cases hlink : ∃ target, fs.node? (out ++ [name]) = some (.link target)
    · exact Or.inr hlink
    · left
      exact hlast.eq_of_singleton hn.toIsProper fun target ht => hlink ⟨target, ht⟩

end FileSystem

end Entries

/-! ### What is written -/

/-- What differs at a location after a run with the output directory `dir`: a directory has been made
for it there, or a document lies there, in the output directory or where a link in it has led. -/
inductive ChangedIn (dir : Path) (fs disk : FileSystem) (loc : Location) : Prop
  | directory (hv : fs.node? loc = none) (hd : disk.node? loc = some .directory)
      (hm : (fs.makeDirectories dir).1.node? loc = some .directory)
  | document {name out c} (hn : IsDocumentName name)
      (hr : disk.resolve .find (Path.join dir name) = .ok (.file loc c))
      (ho : disk.IsLocationOf dir out)
      (hl : loc = out ++ [name] ∨ ∃ target, fs.node? (out ++ [name]) = some (.link target))

/-- All else is as it was. -/
def ChangesOnlyIn (dir : Path) (fs disk : FileSystem) : Prop :=
  ∀ loc, disk.node? loc ≠ fs.node? loc → ChangedIn dir fs disk loc

section Writing

variable {fs made disk : FileSystem} {dir p : Path} {docs : List Document} {loc : Location}
  {c : Bytes} {plan : Plan}

namespace FileSystem

/-- A file stays one while documents are written. -/
theorem resolve_writeAll (h : fs.resolve .find p = .ok (.file loc c))
    (hw : fs.writeAll dir docs = .ok disk) :
    ∃ c', disk.resolve .find p = .ok (.file loc c') := by
  induction docs generalizing fs c with
  | nil =>
    cases hw
    exact ⟨c, h⟩
  | cons doc docs ih =>
    obtain ⟨fs', hdoc, hrest⟩ := exists_of_writeAll_cons hw
    obtain ⟨l, hroom, rfl, -⟩ := writeFile_eq hdoc
    exact ih (resolve_put hroom h (Or.inr (by simp))) hrest

/-- Where something has changed, a document lies. -/
theorem node?_writeAll (hw : fs.writeAll dir docs = .ok disk) (loc : Location) :
    disk.node? loc = fs.node? loc ∨
      ∃ doc ∈ docs, ∃ c, disk.resolve .find (doc.path dir) = .ok (.file loc c) := by
  induction docs generalizing fs with
  | nil =>
    cases hw
    exact Or.inl rfl
  | cons doc docs ih =>
    obtain ⟨fs', hdoc, hrest⟩ := exists_of_writeAll_cons hw
    obtain ⟨l, hroom, rfl, hres⟩ := writeFile_eq hdoc
    rcases ih hrest with hsame | ⟨d, hd, hlies⟩
    · by_cases hl : loc = l
      · right
        obtain ⟨c', hc'⟩ := resolve_writeAll (resolve_find hres) hrest
        exact ⟨doc, List.mem_cons_self, c', hl ▸ hc'⟩
      · left
        rw [hsame, hroom.node?_put_of_ne hl]
    · exact Or.inr ⟨d, List.mem_cons_of_mem _ hd, hlies⟩

/-- No link comes from writing documents. -/
theorem link_of_writeAll (hw : fs.writeAll dir docs = .ok disk) {target : Path}
    (h : disk.node? loc = some (.link target)) : fs.node? loc = some (.link target) := by
  rcases node?_writeAll hw loc with hsame | ⟨doc, -, c, hres⟩
  · rw [← hsame, h]
  · have hfile : disk.node? loc = some (.file c) := (resolve_eq_ok_iff.1 hres).2.holds
    rw [h] at hfile
    simp at hfile

end FileSystem

open FileSystem

theorem changesOnlyIn_makeDirectories (fs : FileSystem) (dir : Path) :
    ChangesOnlyIn dir fs (fs.makeDirectories dir).1 := by
  intro loc hne
  rcases (makesDirectories_makeDirectories fs dir).addsDirectories.node loc with hsame | ⟨hv, hd⟩
  · exact absurd hsame hne
  · exact .directory hv hd hd

theorem changesOnlyIn_writeAll (hdocs : ∀ doc ∈ docs, IsDocumentName doc.fileName)
    (hw : (fs.makeDirectories dir).1.writeAll dir docs = .ok disk) : ChangesOnlyIn dir fs disk := by
  intro loc hne
  have hadds := (makesDirectories_makeDirectories fs dir).addsDirectories
  rcases node?_writeAll hw loc with hsame | ⟨doc, hd, c, hres⟩
  · rw [hsame] at hne
    rcases hadds.node loc with hold | ⟨hv, hnew⟩
    · exact absurd hold hne
    · exact .directory hv (hsame.trans hnew) hnew
  · have hname := hdocs doc hd
    obtain ⟨out, hout, hloc⟩ := exists_isLocationOf_of_join hname.toIsListed hres
    refine .document hname hres hout (hloc.imp_right ?_)
    rintro ⟨target, htarget⟩
    exact ⟨target, hadds.link_iff.1 (link_of_writeAll hw htarget)⟩

/-- What a run reports and changes, however it ends. -/
structure IsConfined (plan : Plan) (fs : FileSystem) (run : Run) : Prop where
  events : ∀ p, .documentWritten p ∈ run.events → LiesIn plan.outputDir p
  written : ∀ report, run.result = .ok report → ∀ p ∈ report.written, LiesIn plan.outputDir p
  disk : ChangesOnlyIn plan.outputDir fs run.disk

theorem liesIn_of_mem_preparing {n : Nat} (h : .documentWritten p ∈ Event.preparing plan n) :
    LiesIn dir p := by
  simp [Event.preparing] at h

theorem liesIn_of_mem_writing (hdocs : ∀ doc ∈ docs, IsDocumentName doc.fileName)
    (h : .documentWritten p ∈ Event.writing dir docs) : LiesIn dir p := by
  obtain ⟨doc, hd, heq⟩ := List.mem_map.1 h
  cases heq
  exact (hdocs doc hd).liesIn dir

theorem isConfined_generate (fs : FileSystem) (plan : Plan) :
    IsConfined plan fs (generate fs plan) := by
  have hnames {scans : List FileScan} {n : Nat} {docs : List Document}
      (h : Scanned fs plan scans n docs) : ∀ doc ∈ docs, IsDocumentName doc.fileName := by
    rw [← h.documents_eq]
    exact fun doc hd => isDocumentName_fileName (fun _ => hasNames_of_scanProject h.scanProject_eq) hd
  obtain ⟨x, hx⟩ := exists_holds fs plan
  cases x with
  | scanFails e =>
    obtain ⟨-, hrun⟩ := hx
    rw [hrun]
    exact ⟨fun p hp => by simp at hp, fun report h => by simp at h, fun loc hne => absurd rfl hne⟩
  | outputFails n e =>
    obtain ⟨_, _, made, -, hmake, -, hrun⟩ := hx
    have hmade := changesOnlyIn_makeDirectories fs plan.outputDir
    rw [hmake] at hmade
    rw [hrun]
    exact ⟨fun p hp => liesIn_of_mem_preparing hp, fun report h => by simp at h, hmade⟩
  | writeFails n k e =>
    obtain ⟨scans, docs, made, disk, _, hscanned, hmake, -, hw, -, hrun⟩ := hx
    have hdocs : ∀ doc ∈ docs.take k, IsDocumentName doc.fileName :=
      fun doc hd => hnames hscanned doc (List.mem_of_mem_take hd)
    rw [hrun]
    refine ⟨fun p hp => ?_, fun report h => by simp at h, ?_⟩
    · rcases List.mem_append.1 hp with hp | hp
      · exact liesIn_of_mem_preparing hp
      · exact liesIn_of_mem_writing hdocs hp
    · exact changesOnlyIn_writeAll hdocs (by rw [hmake]; exact hw)
  | succeeds n =>
    obtain ⟨scans, docs, made, disk, hscanned, hmake, hw, hrun, -⟩ := hx
    have hdocs := hnames hscanned
    rw [hrun]
    refine ⟨fun p hp => ?_, fun report h p hp => ?_, ?_⟩
    · rcases List.mem_append.1 hp with hp | hp
      · exact liesIn_of_mem_preparing hp
      · exact liesIn_of_mem_writing hdocs hp
    · cases h
      obtain ⟨doc, hd, rfl⟩ := List.mem_map.1 hp
      exact (hdocs doc hd).liesIn _
    · exact changesOnlyIn_writeAll hdocs (by rw [hmake]; exact hw)

end Writing

/-- The names that a source file can give are made of name characters, and of backslashes between the
parts of a namespace. So the file name of a page names an entry of the output directory and nothing
else, and whatever a run reads, it writes there alone. -/
theorem documents_confined :
    (∀ path source d, (scanSource path source).declaration = some d →
      d.typeName ≠ [] ∧ (∀ c ∈ d.typeName, isNameChar c) ∧
        (∀ c ∈ d.namespaceName, isNameChar c ∨ c = separator) ∧ IsDocumentName d.pageName) ∧
      ∀ fs plan, IsConfined plan fs (generate fs plan) := by
  refine ⟨fun path source d h => ?_, isConfined_generate⟩
  have hnames := hasNames_of_scanSource h
  refine ⟨fun hnil => ?_, fun c hc => Text.isNameChar_of_mem hnames.typeName hc,
    hnames.namespaceName, hnames.isDocumentName_pageName⟩
  have hword := hnames.typeName
  rw [hnil] at hword
  exact absurd hword (by decide)

/-- A source file that tries to name its page outside. -/
theorem documents_confined_upward :
    (scanSource [] "namespace ../A\\B;class C/../D".toList).declaration =
        some ⟨"A\\B".toList, "C".toList, none, [], []⟩ ∧
      "C".toList ≠ [] ∧ (∀ c ∈ "C".toList, isNameChar c) ∧
        (∀ c ∈ "A\\B".toList, isNameChar c ∨ c = separator) ∧ IsDocumentName "A_B_C.md".toList := by
  have hscan : (scanSource [] "namespace ../A\\B;class C/../D".toList).declaration =
      some ⟨"A\\B".toList, "C".toList, none, [], []⟩ := by cbv
  exact ⟨hscan, documents_confined.1 _ _ _ hscan⟩

end DocPages
