import DocPages.Proofs.Discovery.Walk
import DocPages.Proofs.Generate.Writing
import DocPages.Proofs.Page.Documents
import Mathlib

/-!
# Which pages survive a run

A run writes the documents one after the other, so a document is lost when a later one goes to its
file. Where no link has the name of a document, this is so when a later one has its name. File names
clash for some declarations of different names, for example for a type in a namespace and a global type
with a low line in its name (`twoFiles`).

Main statement: all documents are kept exactly when every declaration has its own page
(`documents_kept_iff`).
-/

namespace DocPages

open Page

/-! ### Where the documents lie -/

section Documents

variable {ds : List Declaration} {doc : Document}

theorem Declaration.HasNames.isProper_pageName {d : Declaration} :
    FileSystem.IsProper d.pageName := by
  have hlength : 3 ≤ d.pageName.length := by
    rw [pageName_eq, List.length_append]
    exact Nat.le_add_left 3 _
  refine ⟨?_, fun h => ?_⟩
  · rintro (h | h)
    · simp [h] at hlength
    · simp [h] at hlength
  · simp [h] at hlength

/-- The name of a document is the name of an entry of a directory. -/
theorem isProper_fileName (h : ∀ d ∈ ds, d.HasNames) (hd : doc ∈ documents ds) :
    FileSystem.IsProper doc.fileName ∧ '/' ∉ doc.fileName := by
  rw [documents, List.mem_append, List.mem_map] at hd
  rcases hd with ⟨d, hd, rfl⟩ | hd
  · refine ⟨Declaration.HasNames.isProper_pageName, fun hslash => ?_⟩
    rcases (h d hd).mem_pageName hslash with hc | hc
    · exact absurd hc (by decide)
    · exact absurd hc (by decide)
  · have hindex : FileSystem.IsProper indexName ∧ '/' ∉ indexName :=
      ⟨⟨by decide, by decide⟩, by decide⟩
    have hreference : FileSystem.IsProper referenceName ∧ '/' ∉ referenceName :=
      ⟨⟨by decide, by decide⟩, by decide⟩
    simp only [List.mem_cons, List.not_mem_nil, or_false] at hd
    rcases hd with rfl | rfl
    · exact hindex
    · exact hreference

/-- Where no link has the name of a document, documents lie in distinct files exactly when they have
distinct names. -/
theorem nodup_fileAt?_iff {fs : FileSystem} (dir : Path) (h : ∀ d ∈ ds, d.HasNames)
    (hfile : ∀ doc ∈ documents ds, ∃ loc c, fs.resolve .find (doc.path dir) = .ok (.file loc c))
    (hlink : ∀ loc name target, fs.node? (loc ++ [name]) = some (.link target) →
      ∀ doc ∈ documents ds, doc.fileName ≠ name) :
    ((documents ds).map fun doc => fs.fileAt? (doc.path dir)).Nodup ↔
      ((documents ds).map Document.fileName).Nodup := by
  obtain ⟨out, hout⟩ := fs.exists_location_join dir
  have hat : ∀ doc ∈ documents ds, fs.fileAt? (doc.path dir) = some (out ++ [doc.fileName]) := by
    intro doc hd
    obtain ⟨loc, c, hres⟩ := hfile doc hd
    obtain ⟨hproper, hslash⟩ := isProper_fileName h hd
    have hloc := hout _ loc c hproper hslash (fun target ht => hlink _ _ _ ht doc hd rfl) hres
    rw [FileSystem.fileAt?_eq hres, hloc]
  have hinj : Function.Injective fun name : Text => some (out ++ [name]) := by
    intro a b hab
    simpa using hab
  rw [List.map_congr_left hat, ← List.nodup_map_iff hinj, List.map_map]
  rfl

end Documents

/-! ### A project with two files -/

/-- The directory `/s` with the source files `a.php` and `b.php`. -/
def twoFiles (a b : Text) : FileSystem where
  entries := [(["s".toList], .directory), (["s".toList, "a.php".toList], .file (Text.toUtf8 a)),
    (["s".toList, "b.php".toList], .file (Text.toUtf8 b))]
  workingDirectory := []
  distinct := by simp

/-- The plan to document the directory `/s` in the directory `/o`. -/
def twoFilesPlan : Plan := ⟨"/s".toList, "/o".toList, "php".toList, 1000, []⟩

/-- A type without documentation and members. -/
def bareType (namespaceName name path : Text) : Declaration := ⟨namespaceName, name, none, [], path⟩

/-- What has been read when two files declare these types. -/
def scansOf (first second : Declaration) : List FileScan :=
  [.extracted ⟨some first, []⟩, .extracted ⟨some second, []⟩]

theorem node?_twoFiles_ne_link (a b : Text) (loc : Location) (target : Path) :
    (twoFiles a b).node? loc ≠ some (.link target) := by
  cases loc with
  | nil => simp [FileSystem.node?]
  | cons n loc =>
    intro h
    obtain ⟨before, after, heq, -⟩ := List.lookup_eq_some_iff.1 h
    have hmem : (n :: loc, Node.link target) ∈ (twoFiles a b).entries := by
      rw [heq]
      exact List.mem_append_right _ List.mem_cons_self
    simp [twoFiles] at hmem

theorem sourceFiles_twoFiles (a b : Text) :
    sourceFiles (twoFiles a b) twoFilesPlan = .ok ["/s/a.php".toList, "/s/b.php".toList] := by
  have hdir : (twoFiles a b).isDirectory "/s".toList := by cbv
  have hs : (twoFiles a b).directoryAt? "/s".toList = some ["s".toList] := by cbv
  have hchildren : (twoFiles a b).childPaths "/s".toList ["s".toList] =
      ["/s/a.php".toList, "/s/b.php".toList] := by cbv
  have ha : (twoFiles a b).directoryAt? "/s/a.php".toList = none := by cbv
  have hb : (twoFiles a b).directoryAt? "/s/b.php".toList = none := by cbv
  refine (if_pos hdir).trans ?_
  show (twoFiles a b).filesBelow (hasExtension "php".toList) (excludes [] "/s".toList) "/s".toList =
    _
  unfold FileSystem.filesBelow
  simp only [hs, FileSystem.walkFrom, hchildren]
  rw [FileSystem.walk_of_file ha, if_pos (by cbv), FileSystem.walk_of_file hb, if_pos (by cbv),
    FileSystem.walk]
  cbv

/-! ### Kept documents -/

/-- The documents of declarations with distinct names have distinct file names exactly when no two of
the names clash and none is the name of the index. A run that succeeds keeps all documents exactly
when they lie in distinct files, which is the same condition if no link has the name of a document. -/
theorem documents_kept_iff {ds : List Declaration}
    (hscan : ∀ d ∈ ds, ∃ path source, (scanSource path source).declaration = some d)
    (hnames : (ds.map Declaration.qualifiedName).Nodup) :
    (((documents ds).map Document.fileName).Nodup ↔ HaveOwnPages ds) ∧
      ∀ (fs : FileSystem) (plan : Plan) (scans : List FileScan) (report : Report),
        scanProject fs plan = .ok scans → declarationsOf scans = ds →
        (generate fs plan).result = .ok report →
        ((generate fs plan).disk.Keeps plan.outputDir (documents ds) ↔
          ((documents ds).map fun doc =>
            (generate fs plan).disk.fileAt? (doc.path plan.outputDir)).Nodup) ∧
        ((∀ loc name target, fs.node? (loc ++ [name]) = some (.link target) →
            ∀ doc ∈ documents ds, doc.fileName ≠ name) →
          ((generate fs plan).disk.Keeps plan.outputDir (documents ds) ↔ HaveOwnPages ds)) := by
  have h : ∀ d ∈ ds, d.HasNames := by
    intro d hd
    obtain ⟨path, source, hsource⟩ := hscan d hd
    exact hasNames_of_scanSource hsource
  refine ⟨nodup_fileName_documents_iff h, fun fs plan scans report hs hds hr => ?_⟩
  obtain ⟨hfailure, hdisk⟩ := generate_eq_ok hs hr
  rw [hds] at hfailure hdisk
  set w := writeDocuments (prepareOutput fs plan.outputDir).1 plan.outputDir (documents ds) with hw
  have hfile : ∀ doc ∈ documents ds, ∃ loc c,
      w.disk.resolve .find (doc.path plan.outputDir) = .ok (.file loc c) :=
    fun doc hd => exists_fileAt?_of_mem hfailure hd
  have hkept : w.disk.Keeps plan.outputDir (documents ds) ↔
      ((documents ds).map fun doc => w.disk.fileAt? (doc.path plan.outputDir)).Nodup := by
    constructor
    · exact nodup_fileAt?_of_keeps (nodup_content_documents h hnames)
    · exact keeps_writeDocuments hfailure
  rw [hdisk]
  refine ⟨hkept, fun hlink => ?_⟩
  have hmade : fs.MakesNoLink w.disk :=
    (FileSystem.MakesNoLink.prepareOutput fs plan.outputDir).trans (.writeDocuments hfailure)
  have hlocations := nodup_fileAt?_iff plan.outputDir h hfile
    fun loc name target ht => hlink loc name target (hmade _ _ ht)
  rw [hkept, hlocations, nodup_fileName_documents_iff h]

theorem documents_kept_twoFiles :
    let fs := twoFiles "class A".toList "class B".toList
    let ds := [bareType [] ['A'] "/s/a.php".toList, bareType [] ['B'] "/s/b.php".toList]
    (generate fs twoFilesPlan).disk.Keeps "/o".toList (documents ds) := by
  intro fs ds
  set first := bareType [] ['A'] "/s/a.php".toList
  set second := bareType [] ['B'] "/s/b.php".toList
  have hscan : ∀ d ∈ ds, ∃ path source, (scanSource path source).declaration = some d := by
    intro d hd
    rcases List.mem_cons.1 hd with rfl | hd
    · exact ⟨"/s/a.php".toList, "class A".toList, by cbv⟩
    · rw [List.mem_singleton.1 hd]
      exact ⟨"/s/b.php".toList, "class B".toList, by cbv⟩
  have hrun : scanProject fs twoFilesPlan = .ok (scansOf first second) := by
    rw [scanProject, sourceFiles_twoFiles]
    cbv
  have hresult : ∃ report, (generate fs twoFilesPlan).result = .ok report := by
    have hdocs : documents (declarationsOf (scansOf first second)) =
        [⟨"A.md".toList, declarationPage first⟩, ⟨"B.md".toList, declarationPage second⟩,
          ⟨indexName, index ds⟩, ⟨referenceName, reference ds⟩] := rfl
    simp only [generate, hrun, hdocs]
    generalize declarationPage first = c₁
    generalize declarationPage second = c₂
    generalize index ds = c₃
    generalize reference ds = c₄
    exact ⟨⟨2, ["/o/A.md".toList, "/o/B.md".toList, "/o/index.md".toList,
      "/o/api-reference.md".toList], "/o".toList, []⟩, by cbv⟩
  obtain ⟨report, hreport⟩ := hresult
  have hkept := documents_kept_iff hscan (by decide)
  have hown : HaveOwnPages ds := hkept.1.1 (by decide)
  refine ((hkept.2 fs twoFilesPlan _ report hrun rfl hreport).2 fun loc name target h => ?_).2 hown
  exact absurd h (node?_twoFiles_ne_link _ _ _ _)

/-- The page of `A\B` is lost to that of `A_B`. -/
theorem documents_lost_twoFiles :
    let fs := twoFiles "namespace A;class B".toList "class A_B".toList
    let first := bareType ['A'] ['B'] "/s/a.php".toList
    let second := bareType [] "A_B".toList "/s/b.php".toList
    scanProject fs twoFilesPlan = .ok (scansOf first second) ∧
      ([first, second].map Declaration.qualifiedName).Nodup ∧
      ¬ ((documents [first, second]).map Document.fileName).Nodup ∧
      (∃ report, (generate fs twoFilesPlan).result = .ok report) ∧
      declarationPage first ≠ declarationPage second ∧
      (generate fs twoFilesPlan).disk.readFile (Path.join "/o".toList first.pageName) =
        .ok (Text.toUtf8 (declarationPage second)) := by
  intro fs first second
  have hrun : scanProject fs twoFilesPlan = .ok (scansOf first second) := by
    rw [scanProject, sourceFiles_twoFiles]
    cbv
  have hdocs : documents (declarationsOf (scansOf first second)) =
      [⟨"A_B.md".toList, declarationPage first⟩, ⟨"A_B.md".toList, declarationPage second⟩,
        ⟨indexName, index [first, second]⟩, ⟨referenceName, reference [first, second]⟩] := rfl
  refine ⟨hrun, by decide, by decide, ?_, by decide, ?_⟩
  all_goals
    simp only [generate, hrun, hdocs]
    generalize declarationPage first = c₁
    generalize declarationPage second = c₂
    generalize index [first, second] = c₃
    generalize reference [first, second] = c₄
  · exact ⟨⟨2, ["/o/A_B.md".toList, "/o/A_B.md".toList, "/o/index.md".toList,
      "/o/api-reference.md".toList], "/o".toList, []⟩, by cbv⟩
  · cbv

end DocPages
