import DocPages.Proofs.Generate.Pages

/-!
# How a run ends

A run ends in one of four ways (`Ending`): the sources cannot be read, the output directory cannot be
made, a document cannot be written, or all is done. What has been reported and what is on the disk
depends on the ending alone (`Ending.Holds`): what a failed run has changed are directories, and the
documents that it has reported.

Main statement: every run has exactly one ending (`existsUnique_ending`).
-/

namespace DocPages

open Page

/-! ### What has been read -/

section Scans

variable {fs : FileSystem} {limit : Nat} {p : Path} {files : List Path} {scan : FileScan}
  {scans : List FileScan} {plan : Plan} {d : Declaration}

theorem scanFile_declaration (h : scanFile fs limit p = .ok scan) (hd : scan.declaration? = some d) :
    ∃ path source, (scanSource path source).declaration = some d := by
  unfold scanFile at h
  split at h
  · contradiction
  · split at h
    · cases h
      contradiction
    · split at h
      · contradiction
      · cases h
        exact ⟨_, _, hd⟩

theorem scanFiles_declaration (h : scanFiles fs limit files = .ok scans)
    (hd : d ∈ declarationsOf scans) :
    ∃ path source, (scanSource path source).declaration = some d := by
  induction files generalizing scans with
  | nil =>
    cases h
    simp [declarationsOf] at hd
  | cons p files ih =>
    unfold scanFiles at h
    split at h
    · contradiction
    · next scan hscan =>
      cases hrest : scanFiles fs limit files with
      | error e =>
        rw [hrest] at h
        contradiction
      | ok rest =>
        rw [hrest] at h
        cases h
        rw [declarationsOf, List.mem_filterMap] at hd
        obtain ⟨s, hs, hd⟩ := hd
        rcases List.mem_cons.1 hs with rfl | hs
        · exact scanFile_declaration hscan hd
        · exact ih hrest (List.mem_filterMap.2 ⟨s, hs, hd⟩)

/-- What has been read from source files has the names that a source file can give. -/
theorem hasNames_of_scanProject (h : scanProject fs plan = .ok scans)
    (hd : d ∈ declarationsOf scans) : d.HasNames := by
  unfold scanProject at h
  split at h
  · contradiction
  · obtain ⟨path, source, hsource⟩ := scanFiles_declaration h hd
    exact hasNames_of_scanSource hsource

end Scans

/-! ### What has been written -/

/-- The file system after some documents have been written, if all of them can be. -/
def FileSystem.writeAll (fs : FileSystem) (dir : Path) (docs : List Document) :
    Except SystemError FileSystem :=
  docs.foldlM (fun fs doc => fs.writeFile (doc.path dir) (Text.toUtf8 doc.content)) fs

section Writing

variable {fs : FileSystem} {dir : Path} {doc : Document} {docs : List Document}

theorem FileSystem.writeAll_cons {fs' : FileSystem}
    (h : fs.writeFile (doc.path dir) (Text.toUtf8 doc.content) = .ok fs') (docs : List Document) :
    fs.writeAll dir (doc :: docs) = fs'.writeAll dir docs := by
  rw [writeAll, List.foldlM_cons, h]
  rfl

/-- When all documents can be written, so can the first one, and the others after it. -/
theorem FileSystem.exists_of_writeAll_cons {disk : FileSystem}
    (h : fs.writeAll dir (doc :: docs) = .ok disk) :
    ∃ fs', fs.writeFile (doc.path dir) (Text.toUtf8 doc.content) = .ok fs' ∧
      fs'.writeAll dir docs = .ok disk := by
  cases hdoc : fs.writeFile (doc.path dir) (Text.toUtf8 doc.content) with
  | error e =>
    rw [writeAll, List.foldlM_cons, hdoc] at h
    contradiction
  | ok fs' => exact ⟨fs', rfl, writeAll_cons hdoc docs ▸ h⟩

/-- Either all documents are written, or all those in front of one that cannot be. -/
theorem writeDocuments_cases (fs : FileSystem) (dir : Path) (docs : List Document) :
    (∃ disk, fs.writeAll dir docs = .ok disk ∧
      writeDocuments fs dir docs = ⟨disk, docs.map (Document.path dir), none⟩) ∨
    ∃ k doc disk e, docs[k]? = some doc ∧ fs.writeAll dir (docs.take k) = .ok disk ∧
      disk.writeFile (doc.path dir) (Text.toUtf8 doc.content) = .error e ∧
      writeDocuments fs dir docs =
        ⟨disk, (docs.take k).map (Document.path dir), some (.writeDocument (doc.path dir) e)⟩ := by
  induction docs generalizing fs with
  | nil => exact Or.inl ⟨fs, rfl, rfl⟩
  | cons doc docs ih =>
    cases hw : fs.writeFile (doc.path dir) (Text.toUtf8 doc.content) with
    | error e =>
      right
      refine ⟨0, doc, fs, e, rfl, rfl, hw, ?_⟩
      have hdoc : writeDocument fs dir doc = .error (.writeDocument (doc.path dir) e) := by
        unfold Document.path at hw
        simp only [writeDocument, hw, Document.path]
      rw [writeDocuments, hdoc]
      rfl
    | ok fs' =>
      have hdoc : writeDocument fs dir doc = .ok (fs', doc.path dir) := by
        unfold Document.path at hw
        simp only [writeDocument, hw, Document.path]
      have hall (ds : List Document) : fs.writeAll dir (doc :: ds) = fs'.writeAll dir ds :=
        FileSystem.writeAll_cons hw ds
      rcases ih fs' with ⟨disk, hdisk, heq⟩ | ⟨k, last, disk, e, hk, hdisk, hlast, heq⟩
      · left
        refine ⟨disk, by rw [hall, hdisk], ?_⟩
        rw [writeDocuments, hdoc]
        simp only [heq, List.map_cons]
      · right
        refine ⟨k + 1, last, disk, e, by simpa using hk, ?_, hlast, ?_⟩
        · rw [List.take_succ_cons, hall, hdisk]
        · rw [writeDocuments, hdoc]
          simp only [heq, List.take_succ_cons, List.map_cons]

end Writing

/-- A link that has the name of a document makes it lie in the same file as a document with another
path. -/
def LinkJoins (disk : FileSystem) (dir : Path) (docs : List Document) : Prop :=
  ∃ d ∈ docs, ∃ e ∈ docs, d.path dir ≠ e.path dir ∧
    disk.fileAt? (d.path dir) = disk.fileAt? (e.path dir) ∧
    ∃ loc target, disk.node? (loc ++ [d.fileName]) = some (.link target)

/-- The last document with a path is what can be read from there. -/
def KeepsLast (disk : FileSystem) (dir : Path) (docs : List Document) : Prop :=
  ∀ p ∈ docs.map (Document.path dir), ∃ doc,
    docs.reverse.find? (fun d => d.path dir = p) = some doc ∧
      disk.readFile p = .ok (Text.toUtf8 doc.content)

section KeepsLast

variable {fs : FileSystem} {dir : Path} {docs before after : List Document}

/-- Writing some documents and then others. -/
theorem exists_writeDocuments_append (h : (writeDocuments fs dir (before ++ after)).failure = none) :
    ∃ fs', (writeDocuments fs' dir after).failure = none ∧
      (writeDocuments fs dir (before ++ after)).disk = (writeDocuments fs' dir after).disk := by
  induction before generalizing fs with
  | nil => exact ⟨fs, h, rfl⟩
  | cons doc before ih =>
    obtain ⟨l, -, -, hrest, hdisk⟩ := writeDocuments_cons h
    obtain ⟨fs', hfailure, heq⟩ := ih hrest
    exact ⟨fs', hfailure, hdisk.trans heq⟩

variable (hname : ∀ doc ∈ docs, FileSystem.IsProper doc.fileName ∧ '/' ∉ doc.fileName)
  (hw : (writeDocuments fs dir docs).failure = none)
  (hjoin : ¬ LinkJoins (writeDocuments fs dir docs).disk dir docs)
include hname hw hjoin

/-- Documents with different paths lie in different files. -/
theorem path_eq_of_fileAt?_eq {d e : Document} (hd : d ∈ docs) (he : e ∈ docs)
    (hat : (writeDocuments fs dir docs).disk.fileAt? (d.path dir) =
      (writeDocuments fs dir docs).disk.fileAt? (e.path dir)) : d.path dir = e.path dir := by
  by_contra hne
  obtain ⟨out, hout⟩ := (writeDocuments fs dir docs).disk.exists_location_join dir
  have hlocation : ∀ doc ∈ docs,
      (∀ target, (writeDocuments fs dir docs).disk.node? (out ++ [doc.fileName]) ≠
        some (.link target)) →
      (writeDocuments fs dir docs).disk.fileAt? (doc.path dir) = some (out ++ [doc.fileName]) := by
    intro doc hdoc hlink
    obtain ⟨loc, c, hres⟩ := exists_fileAt?_of_mem hw hdoc
    obtain ⟨hproper, hslash⟩ := hname doc hdoc
    rw [FileSystem.fileAt?_eq hres, hout _ loc c hproper hslash hlink hres]
  have hd' := hlocation d hd fun target ht =>
    hjoin ⟨d, hd, e, he, hne, hat, out, target, ht⟩
  have he' := hlocation e he fun target ht =>
    hjoin ⟨e, he, d, hd, Ne.symm hne, hat.symm, out, target, ht⟩
  rw [hd', he', Option.some.injEq, List.append_cancel_left_eq, List.cons.injEq] at hat
  exact hne (by rw [Document.path, Document.path, hat.1])

theorem keepsLast_writeDocuments : KeepsLast (writeDocuments fs dir docs).disk dir docs := by
  set disk := (writeDocuments fs dir docs).disk with hdisk
  intro p hp
  obtain ⟨doc, hdoc⟩ : ∃ doc, docs.reverse.find? (fun d => d.path dir = p) = some doc := by
    obtain ⟨d, hd, rfl⟩ := List.mem_map.1 hp
    rw [← Option.isSome_iff_exists, List.find?_isSome]
    exact ⟨d, List.mem_reverse.2 hd, by simp⟩
  refine ⟨doc, hdoc, ?_⟩
  obtain ⟨hpath, after, before, hsplit, hlast⟩ := List.find?_eq_some_iff_append.1 hdoc
  rw [List.reverse_eq_iff, List.reverse_append, List.reverse_cons, List.append_assoc,
    List.singleton_append] at hsplit
  obtain rfl : doc.path dir = p := by simpa using hpath
  obtain ⟨fs', hfailure, heq⟩ := exists_writeDocuments_append (hsplit ▸ hw)
  obtain ⟨l, -, hl, hrest, hcons⟩ := writeDocuments_cons hfailure
  obtain ⟨c, hc, hkeep⟩ := resolve_writeDocuments (FileSystem.resolve_find hl) hrest
  rw [← hcons, ← heq, ← hsplit, ← hdisk] at hc hkeep
  rw [FileSystem.readFile_eq hc, hkeep]
  intro d hd hat
  have hne : d.path dir ≠ doc.path dir := by
    simpa using hlast d (List.mem_reverse.1 hd)
  have hmem : doc ∈ docs := by rw [hsplit]; simp
  have hmem' : d ∈ docs := by
    rw [hsplit]
    exact List.mem_append_right _ (List.mem_cons_of_mem _ hd)
  exact hne (path_eq_of_fileAt?_eq hname hw hjoin hmem' hmem
    (hat.trans (FileSystem.fileAt?_eq hc).symm))

end KeepsLast

/-! ### Endings -/

/-- The ways in which a run ends: the number of declarations that have been found, the number of
documents that have been written, and what went wrong. -/
inductive Ending where
  | scanFails (e : Failure)
  | outputFails (n : Nat) (e : SystemError)
  | writeFails (n k : Nat) (e : SystemError)
  | succeeds (n : Nat)
  deriving DecidableEq, Repr

/-- The scan finds `n` declarations, which have the documents `docs`. -/
structure Scanned (fs : FileSystem) (plan : Plan) (scans : List FileScan) (n : Nat)
    (docs : List Document) : Prop where
  scanProject_eq : scanProject fs plan = .ok scans
  length_declarations : (declarationsOf scans).length = n
  documents_eq : documents (declarationsOf scans) = docs
  length_documents : docs.length = n + 2

/-- What is reported before the first document is written. -/
def Event.preparing (plan : Plan) (n : Nat) : List Event :=
  [.scanStarted plan.extension, .scanFinished n, .generateStarted]

/-- What is reported of written documents. -/
def Event.writing (dir : Path) (docs : List Document) : List Event :=
  docs.map fun doc => .documentWritten (doc.path dir)

/-- What the result, the events and the disk are when a run ends so. -/
def Ending.Holds (fs : FileSystem) (plan : Plan) : Ending → Prop
  | scanFails e =>
    scanProject fs plan = .error e ∧
      generate fs plan = ⟨.error e, [.scanStarted plan.extension], fs⟩
  | outputFails n e => ∃ scans docs made,
    Scanned fs plan scans n docs ∧
      fs.makeDirectories plan.outputDir = (made, .error e) ∧
      FileSystem.AddsDirectories fs made ∧
      generate fs plan = ⟨.error (.createOutput plan.outputDir e), Event.preparing plan n, made⟩
  | writeFails n k e => ∃ scans docs made disk doc,
    Scanned fs plan scans n docs ∧
      fs.makeDirectories plan.outputDir = (made, .ok ()) ∧
      docs[k]? = some doc ∧
      made.writeAll plan.outputDir (docs.take k) = .ok disk ∧
      disk.writeFile (doc.path plan.outputDir) (Text.toUtf8 doc.content) = .error e ∧
      generate fs plan =
        ⟨.error (.writeDocument (doc.path plan.outputDir) e),
          Event.preparing plan n ++ Event.writing plan.outputDir (docs.take k), disk⟩
  | succeeds n => ∃ scans docs made disk,
    Scanned fs plan scans n docs ∧
      fs.makeDirectories plan.outputDir = (made, .ok ()) ∧
      made.writeAll plan.outputDir docs = .ok disk ∧
      generate fs plan =
        ⟨.ok ⟨n, docs.map (Document.path plan.outputDir),
            (disk.canonicalPath? plan.outputDir).getD plan.outputDir,
            scans.filterMap FileScan.skipped?⟩,
          Event.preparing plan n ++ Event.writing plan.outputDir docs, disk⟩ ∧
      (¬ LinkJoins disk plan.outputDir docs → KeepsLast disk plan.outputDir docs)

/-- The ending that the result and the events of a run tell. -/
def Run.ending (run : Run) : Ending :=
  match run.result, run.events with
  | .ok report, _ => .succeeds report.declarations
  | .error (.createOutput _ e), [_, .scanFinished n, _] => .outputFails n e
  | .error (.writeDocument _ e), _ :: .scanFinished n :: _ :: written =>
    .writeFails n written.length e
  | .error e, _ => .scanFails e

section Endings

variable {fs : FileSystem} {plan : Plan} {x : Ending}

theorem Ending.Holds.ending_generate (h : x.Holds fs plan) : (generate fs plan).ending = x := by
  cases x with
  | scanFails e =>
    obtain ⟨-, hrun⟩ := h
    rw [hrun]
    cases e <;> rfl
  | outputFails n e =>
    obtain ⟨_, _, _, -, -, -, hrun⟩ := h
    rw [hrun]
    rfl
  | writeFails n k e =>
    obtain ⟨_, docs, _, _, doc, -, -, hk, -, -, hrun⟩ := h
    have hlt : k < docs.length := (List.getElem?_eq_some_iff.1 hk).1
    have hlength : (Event.writing plan.outputDir (docs.take k)).length = k := by
      rw [Event.writing, List.length_map, List.length_take_of_le (Nat.le_of_lt hlt)]
    rw [hrun]
    exact congrArg (Ending.writeFails n · e) hlength
  | succeeds n =>
    obtain ⟨_, _, _, _, -, -, -, hrun, -⟩ := h
    rw [hrun]
    rfl

theorem scanned_of_scanProject {scans : List FileScan} (h : scanProject fs plan = .ok scans) :
    Scanned fs plan scans (declarationsOf scans).length (documents (declarationsOf scans)) :=
  ⟨h, rfl, rfl, length_documents _⟩

theorem exists_holds (fs : FileSystem) (plan : Plan) : ∃ x : Ending, x.Holds fs plan := by
  cases hscan : scanProject fs plan with
  | error e =>
    refine ⟨.scanFails e, hscan, ?_⟩
    rw [generate, hscan]
  | ok scans =>
    have hscanned := scanned_of_scanProject hscan
    have hadds := (FileSystem.makesDirectories_makeDirectories fs plan.outputDir).addsDirectories
    set docs := documents (declarationsOf scans) with hdocs
    cases hmake : fs.makeDirectories plan.outputDir with
    | mk made result =>
      rw [hmake] at hadds
      cases result with
      | error e =>
        refine ⟨.outputFails _ e, scans, docs, made, hscanned, hmake, hadds, ?_⟩
        simp only [generate, hscan, prepareOutput, hmake]
        rfl
      | ok u =>
        have hevents (written : List Document) :
            (written.map (Document.path plan.outputDir)).map Event.documentWritten =
              Event.writing plan.outputDir written := List.map_map
        rcases writeDocuments_cases made plan.outputDir docs with
          ⟨disk, hdisk, hall⟩ | ⟨k, doc, disk, e, hk, hdisk, hfail, hall⟩
        · refine ⟨.succeeds _, scans, docs, made, disk, hscanned, hmake, hdisk, ?_, fun hjoin => ?_⟩
          · simp only [generate, hscan, prepareOutput, hmake, ← hdocs, hall, hevents]
            rfl
          · have hname : ∀ doc ∈ docs, FileSystem.IsProper doc.fileName ∧ '/' ∉ doc.fileName :=
              fun doc hd => isProper_fileName (fun d hd => hasNames_of_scanProject hscan hd) hd
            have hfailure : (writeDocuments made plan.outputDir docs).failure = none := by rw [hall]
            have hkeeps := keepsLast_writeDocuments hname hfailure
            rw [hall] at hkeeps
            exact hkeeps hjoin
        · refine ⟨.writeFails _ k e, scans, docs, made, disk, doc, hscanned, hmake, hk, hdisk,
            hfail, ?_⟩
          simp only [generate, hscan, prepareOutput, hmake, ← hdocs, hall, hevents]
          rfl

end Endings

/-- Every run ends in exactly one way. -/
theorem existsUnique_ending (fs : FileSystem) (plan : Plan) :
    ∃! ending : Ending, ending.Holds fs plan := by
  obtain ⟨x, hx⟩ := exists_holds fs plan
  refine ⟨x, hx, fun y hy => ?_⟩
  rw [← hx.ending_generate, hy.ending_generate]

end DocPages
