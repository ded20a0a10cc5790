import DocPages.Proofs.Discovery.Grow
import DocPages.Proofs.Generate.Confined

/-!
# Running again

A run leaves behind what a second one finds. Where there are no links and documents do not have the
extension of source files, the second run reads what the first one has read: the tree has grown by
directories and documents alone. It finds its output directory there, and it writes the same documents
to the files they are in. So it does not matter whether the output directory lies below the source
directory, nor whether documents lie in one file.

Main statement: a second run is the first one over again (`generate_again`). That a tree without links
stays one, however a run ends, is `isTree_generate` and `hasNoLinks_generate`.
-/

namespace DocPages

open Page FileSystem

/-! ### Reading again -/

section Reading

variable {fs fs' : FileSystem} {limit : Nat} {p : Path} {files : List Path} {plan : Plan}
  {scans : List FileScan} {named : Text → Prop}

theorem scanFile_congr (h : fs'.resolve .find p = fs.resolve .find p) :
    scanFile fs' limit p = scanFile fs limit p := by
  unfold scanFile size readFile
  rw [h]

theorem scanFiles_congr (h : ∀ p ∈ files, fs'.resolve .find p = fs.resolve .find p) :
    scanFiles fs' limit files = scanFiles fs limit files := by
  induction files with
  | nil => rfl
  | cons p files ih =>
    rw [scanFiles, scanFiles, scanFile_congr (h p List.mem_cons_self),
      ih fun q hq => h q (List.mem_cons_of_mem _ hq)]

/-- Files that do not have the extension of source files do not change what is read. -/
theorem scanProject_of_grows (h : Grows named fs fs') (htree : fs.IsTree) (hfs : fs.HasNoLinks)
    (hfs' : fs'.HasNoLinks)
    (hnamed : ∀ name, named name → IsListed name →
      ∀ dir, hasExtension plan.extension (Path.join dir name) = false)
    (hscan : scanProject fs plan = .ok scans) : scanProject fs' plan = .ok scans := by
  cases hfiles : sourceFiles fs plan with
  | error e =>
    rw [scanProject, hfiles] at hscan
    contradiction
  | ok files =>
    rw [scanProject, hfiles] at hscan
    have hfiles' : sourceFiles fs' plan = .ok files ∧
        ∀ p ∈ files, fs'.resolve .find p = fs.resolve .find p := by
      unfold sourceFiles at hfiles ⊢
      split at hfiles
      · next hdir =>
        obtain ⟨base, hroot⟩ := Option.isSome_iff_exists.1 hdir
        rw [if_pos (h.toExtends.isDirectory hdir)]
        cases hrules : Rule.ofPatterns plan.exclude with
        | error e =>
          rw [hrules] at hfiles
          contradiction
        | ok rules =>
          rw [hrules] at hfiles
          dsimp only at hfiles ⊢
          rw [h.filesBelow_eq hfs hfs' hnamed htree hroot]
          exact ⟨hfiles, fun p hp => h.resolve_of_mem_filesBelow hfs hnamed hfiles hp⟩
      · contradiction
    rw [scanProject, hfiles'.1]
    exact (scanFiles_congr hfiles'.2).trans hscan

end Reading

/-! ### Writing again -/

/-- The location of the file in which a document lies, and what the document puts there. -/
def Document.fileIn (disk : FileSystem) (dir : Path) (doc : Document) : Location × Bytes :=
  ((disk.fileAt? (doc.path dir)).getD [], Text.toUtf8 doc.content)

section Writing

variable {fs disk : FileSystem} {dir : Path} {docs : List Document}

/-- Documents that have been written were put at the locations where they lie in the end. -/
theorem writeDocuments_eq_putFiles (hw : (writeDocuments fs dir docs).failure = none)
    (hdisk : (writeDocuments fs dir docs).disk = disk) :
    disk = fs.putFiles (docs.map (Document.fileIn disk dir)) ∧
      ∀ doc ∈ docs, fs.HasRoom (doc.fileIn disk dir).1 ∧
        ∃ c, disk.resolve .write (doc.path dir) = .ok (.file (doc.fileIn disk dir).1 c) := by
  induction docs generalizing fs with
  | nil => exact ⟨hdisk.symm, List.forall_mem_nil _⟩
  | cons doc docs ih =>
    obtain ⟨l, hl, hdoc, hrest, heq⟩ := writeDocuments_cons hw
    rw [heq] at hdisk
    obtain ⟨hput, hall⟩ := ih hrest hdisk
    obtain ⟨c, hc, -⟩ := resolve_writeDocuments hdoc hrest
    rw [hdisk] at hc
    have hfile : doc.fileIn disk dir = (l, Text.toUtf8 doc.content) := by
      rw [Document.fileIn, fileAt?_eq (resolve_find hc), Option.getD_some]
    refine ⟨?_, fun d hd => ?_⟩
    · rw [List.map_cons, hfile]
      exact hput
    · rcases List.mem_cons.1 hd with rfl | hd
      · rw [hfile]
        exact ⟨hl, c, hc⟩
      · exact ⟨hl.of_put (hall d hd).1, (hall d hd).2⟩

/-- Documents are written to the files that their paths lead to. -/
theorem writeDocuments_of_files
    (h : ∀ doc ∈ docs, ∃ c,
      fs.resolve .write (doc.path dir) = .ok (.file (doc.fileIn disk dir).1 c)) :
    writeDocuments fs dir docs = ⟨fs.putFiles (docs.map (Document.fileIn disk dir)),
      docs.map (Document.path dir), none⟩ := by
  induction docs generalizing fs with
  | nil => rfl
  | cons doc docs ih =>
    obtain ⟨c, hc⟩ := h doc List.mem_cons_self
    have hroom := hasRoom_of_holds (resolve_eq_ok_iff.1 hc).2.holds (Or.inl rfl)
    set fs' := fs.put (doc.fileIn disk dir).1 (.file (Text.toUtf8 doc.content)) with hfs'
    have hdoc : writeDocument fs dir doc = .ok (fs', doc.path dir) := by
      unfold Document.path at hc
      simp only [writeDocument, writeFile, hc, Document.path]
      rfl
    have hrest : ∀ d ∈ docs, ∃ c,
        fs'.resolve .write (d.path dir) = .ok (.file (d.fileIn disk dir).1 c) := by
      intro d hd
      obtain ⟨c', hc'⟩ := h d (List.mem_cons_of_mem _ hd)
      exact ⟨_, resolve_put hroom hc' (Or.inl rfl)⟩
    rw [writeDocuments, hdoc]
    simp only [ih hrest, List.map_cons]
    rfl

/-- To write the same documents again changes nothing. -/
theorem writeDocuments_again (hw : (writeDocuments fs dir docs).failure = none) :
    writeDocuments (writeDocuments fs dir docs).disk dir docs = writeDocuments fs dir docs := by
  obtain ⟨hput, hall⟩ := writeDocuments_eq_putFiles hw rfl
  have hagain := writeDocuments_of_files fun doc hd => (hall doc hd).2
  set disk := (writeDocuments fs dir docs).disk with hdisk
  set files := docs.map (Document.fileIn disk dir) with hfiles
  have hfixed : disk.putFiles files = disk := calc
    disk.putFiles files = (fs.putFiles files).putFiles files := congrArg (·.putFiles files) hput
    _ = fs.putFiles files := putFiles_putFiles fs files
    _ = disk := hput.symm
  rw [hagain, hfixed]
  rcases writeDocuments_cases fs dir docs with ⟨last, -, heq⟩ | ⟨_, _, _, _, -, -, -, heq⟩
  · rw [heq] at hdisk
    rw [heq, hdisk]
  · rw [heq] at hw
    contradiction

end Writing

/-! ### What a run adds -/

section Grows

variable {fs fs' made : FileSystem} {dir : Path} {docs : List Document}

theorem FileSystem.MakesNoLink.hasNoLinks (h : MakesNoLink fs fs') (hfs : fs.HasNoLinks) :
    fs'.HasNoLinks := fun loc target hl => hfs loc target (h loc target hl)

/-- What documents add are files with their names, all in one directory. -/
theorem grows_writeDocuments (hname : ∀ doc ∈ docs, IsProper doc.fileName ∧ '/' ∉ doc.fileName)
    (hmade : Grows (fun name => ∃ doc ∈ docs, doc.fileName = name) fs made)
    (hlinks : made.HasNoLinks) (hw : (writeDocuments made dir docs).failure = none) :
    Grows (fun name => ∃ doc ∈ docs, doc.fileName = name) fs (writeDocuments made dir docs).disk := by
  obtain ⟨hput, hall⟩ := writeDocuments_eq_putFiles hw rfl
  have hdisk := (MakesNoLink.writeDocuments hw).hasNoLinks hlinks
  obtain ⟨out, hout⟩ := (writeDocuments made dir docs).disk.exists_location_join dir
  rw [hput]
  apply hmade.putFiles
  intro f hf
  obtain ⟨doc, hd, rfl⟩ := List.mem_map.1 hf
  obtain ⟨hroom, c, hres⟩ := hall doc hd
  obtain ⟨hproper, hslash⟩ := hname doc hd
  have hloc := hout _ _ c hproper hslash (hdisk _) (resolve_find hres)
  exact ⟨hroom, out, doc.fileName, hloc, doc, hd, rfl⟩

end Grows

/-! ### What every run keeps -/

section Invariant

variable {P : FileSystem → Prop} {fs disk : FileSystem} {dir : Path} {docs : List Document}

theorem invariant_writeAll
    (hwrite : ∀ {fs fs' p c}, P fs → FileSystem.writeFile fs p c = .ok fs' → P fs')
    (h : P fs) (hw : fs.writeAll dir docs = .ok disk) : P disk := by
  induction docs generalizing fs with
  | nil =>
    cases hw
    exact h
  | cons doc docs ih =>
    obtain ⟨fs', hdoc, hrest⟩ := exists_of_writeAll_cons hw
    exact ih (hwrite h hdoc) hrest

/-- What making directories and writing a file keep, a run keeps however it ends. -/
theorem invariant_generate
    (hmake : ∀ {fs} (p : Path), P fs → P (FileSystem.makeDirectories fs p).1)
    (hwrite : ∀ {fs fs' p c}, P fs → FileSystem.writeFile fs p c = .ok fs' → P fs')
    (h : P fs) (plan : Plan) : P (generate fs plan).disk := by
  have hmade {made : FileSystem} {result : Except SystemError Unit}
      (hm : fs.makeDirectories plan.outputDir = (made, result)) : P made := by
    have hmake' := hmake plan.outputDir h
    rwa [hm] at hmake'
  obtain ⟨x, hx⟩ := exists_holds fs plan
  cases x with
  | scanFails e =>
    obtain ⟨-, hrun⟩ := hx
    rw [hrun]
    exact h
  | outputFails n e =>
    obtain ⟨_, _, _, -, hm, -, hrun⟩ := hx
    rw [hrun]
    exact hmade hm
  | writeFails n k e =>
    obtain ⟨_, _, _, _, _, -, hm, -, hw, -, hrun⟩ := hx
    rw [hrun]
    exact invariant_writeAll hwrite (hmade hm) hw
  | succeeds n =>
    obtain ⟨_, _, _, _, -, hm, hw, hrun, -⟩ := hx
    rw [hrun]
    exact invariant_writeAll hwrite (hmade hm) hw

theorem isTree_generate (h : fs.IsTree) (plan : Plan) : (generate fs plan).disk.IsTree :=
  invariant_generate (fun p hfs => hfs.makeDirectories p) (fun hfs hw => hfs.writeFile hw) h plan

theorem hasNoLinks_generate (h : fs.HasNoLinks) (plan : Plan) :
    (generate fs plan).disk.HasNoLinks := by
  refine invariant_generate (fun {fs} p hfs loc target hl => ?_) (fun hfs hw => ?_) h plan
  · have hadds := (makesDirectories_makeDirectories fs p).addsDirectories
    exact hfs loc target (hadds.link_iff.1 hl)
  · obtain ⟨l, -, rfl, -⟩ := writeFile_eq hw
    exact (MakesNoLink.put (by simp)).hasNoLinks hfs

end Invariant

/-! ### The second run -/

section Again

variable {fs made : FileSystem} {plan : Plan} {scans : List FileScan} {report : Report}

/-- What has been done in a run that succeeds. -/
structure Succeeds (fs : FileSystem) (plan : Plan) (scans : List FileScan) (made : FileSystem) :
    Prop where
  reads : scanProject fs plan = .ok scans
  prepares : fs.makeDirectories plan.outputDir = (made, .ok ())
  writes : (writeDocuments made plan.outputDir (documents (declarationsOf scans))).failure = none

theorem exists_succeeds (h : (generate fs plan).result = .ok report) :
    ∃ scans made, Succeeds fs plan scans made := by
  unfold generate at h
  cases hs : scanProject fs plan with
  | error e => simp [hs] at h
  | ok scans =>
    cases hm : fs.makeDirectories plan.outputDir with
    | mk made result =>
      cases result with
      | error e => simp [hs, prepareOutput, hm] at h
      | ok u =>
        cases hw : (writeDocuments made plan.outputDir (documents (declarationsOf scans))).failure with
        | some e => simp [hs, prepareOutput, hm, hw] at h
        | none => exact ⟨scans, made, hs, hm, hw⟩

/-- A run that has written all documents. -/
def Run.finished (plan : Plan) (scans : List FileScan) (w : Writing) : Run where
  result := .ok {
    declarations := (declarationsOf scans).length
    written := w.written
    outputDir := (w.disk.canonicalPath? plan.outputDir).getD plan.outputDir
    skipped := scans.filterMap FileScan.skipped? }
  events := Event.preparing plan (declarationsOf scans).length ++ w.written.map .documentWritten
  disk := w.disk

namespace Succeeds

variable (h : Succeeds fs plan scans made)
include h

theorem generate_eq : generate fs plan =
    .finished plan scans (writeDocuments made plan.outputDir (documents (declarationsOf scans))) := by
  unfold generate
  simp only [h.reads, prepareOutput, h.prepares, h.writes]
  rfl

theorem isProper_fileName : ∀ doc ∈ documents (declarationsOf scans),
    IsProper doc.fileName ∧ '/' ∉ doc.fileName :=
  fun _ hd => DocPages.isProper_fileName (fun _ hd => hasNames_of_scanProject h.reads hd) hd

/-- What a run that succeeds has left behind is good for another one. -/
theorem again (htree : fs.IsTree) (hfs : fs.HasNoLinks)
    (hextension : Text.sameIgnoringCase plan.extension "md".toList = false) :
    let disk := (writeDocuments made plan.outputDir (documents (declarationsOf scans))).disk
    Succeeds disk plan scans disk := by
  intro disk
  have hadds := (makesDirectories_makeDirectories fs plan.outputDir).addsDirectories
  rw [h.prepares] at hadds
  have hmade : made.HasNoLinks := fun loc target hl => hfs loc target (hadds.link_iff.1 hl)
  have hdisk : disk.HasNoLinks := (MakesNoLink.writeDocuments h.writes).hasNoLinks hmade
  refine ⟨?reads, ?prepares, ?writes⟩
  case reads =>
    have hgrows := grows_writeDocuments h.isProper_fileName hadds.grows hmade h.writes
    apply scanProject_of_grows hgrows htree hfs hdisk _ h.reads
    rintro name ⟨doc, hd, rfl⟩ hlisted p
    have hnames : ∀ d ∈ declarationsOf scans, d.HasNames :=
      fun d hd => hasNames_of_scanProject h.reads hd
    have hname := isDocumentName_fileName hnames hd
    rw [hasExtension, Path.extension?_join p hlisted, hname.extensionOfName?_eq]
    exact hextension
  case prepares =>
    have hgrows :=
      grows_writeDocuments h.isProper_fileName (AddsDirectories.refl made).grows hmade h.writes
    apply makeDirectories_again h.prepares
    intro hd
    exact hgrows.toExtends.isDirectory hd
  case writes =>
    rw [writeDocuments_again h.writes]
    exact h.writes

end Succeeds

/-- Where there are no links and documents do not have the extension of source files, a run that
follows one that succeeded has its result, reports its events and changes nothing. -/
theorem generate_again (htree : fs.IsTree) (hfs : fs.HasNoLinks)
    (hextension : Text.sameIgnoringCase plan.extension "md".toList = false)
    (h : (generate fs plan).result = .ok report) :
    generate (generate fs plan).disk plan = generate fs plan := by
  obtain ⟨scans, made, hrun⟩ := exists_succeeds h
  have hagain := hrun.again htree hfs hextension
  rw [hrun.generate_eq]
  exact hagain.generate_eq.trans (congrArg _ (writeDocuments_again hrun.writes))

end Again

/-- The documents may lie below the source directory. -/
theorem generate_again_nested :
    let fs := twoFiles "class A".toList "class B".toList
    let plan := { twoFilesPlan with outputDir := "/s/o".toList }
    (∃ report, (generate fs plan).result = .ok report) ∧
      generate (generate fs plan).disk plan = generate fs plan := by
  intro fs plan
  set first := bareType [] ['A'] "/s/a.php".toList
  set second := bareType [] ['B'] "/s/b.php".toList
  have hrun : scanProject fs plan = .ok (scansOf first second) := by
    have hfiles : sourceFiles fs plan = .ok ["/s/a.php".toList, "/s/b.php".toList] :=
      sourceFiles_twoFiles _ _
    rw [scanProject, hfiles]
    cbv
  have hresult : ∃ report, (generate fs plan).result = .ok report := by
    have hdocs : documents (declarationsOf (scansOf first second)) =
        [⟨"A.md".toList, declarationPage first⟩, ⟨"B.md".toList, declarationPage second⟩,
          ⟨indexName, index [first, second]⟩, ⟨referenceName, reference [first, second]⟩] := rfl
    simp only [generate, hrun, hdocs]
    generalize declarationPage first = c₁
    generalize declarationPage second = c₂
    generalize index [first, second] = c₃
    generalize reference [first, second] = c₄
    exact ⟨⟨2, ["/s/o/A.md".toList, "/s/o/B.md".toList, "/s/o/index.md".toList,
      "/s/o/api-reference.md".toList], "/s/o".toList, []⟩, by cbv⟩
  refine ⟨hresult, ?_⟩
  obtain ⟨report, hreport⟩ := hresult
  exact generate_again (by decide) (node?_twoFiles_ne_link _ _) (by decide) hreport

end DocPages
