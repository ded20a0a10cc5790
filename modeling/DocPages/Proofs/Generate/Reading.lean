import DocPages.Proofs.Declaration.Outline
import DocPages.Proofs.Discovery.Delete
import DocPages.Proofs.Generate.Pages
import DocPages.Proofs.Text.LineEnding
import DocPages.Proofs.Text.Utf8

/-!
# Reading source files

What a source file declares does not depend on the form of its line endings. A file with too many bytes is
passed over, and nothing of it comes into the result: what is read are the declarations of the other files
(`declarations_scanProject`), each of which knows the path it was found at (`sourcePath_of_declarationOf?`).

Main statements: line endings are unified as in one round, so files that differ in them alone have the same
declaration (`scanFile_lineEndings`), and a lower limit leaves out the declarations of larger files and
nothing else, as if these files had been deleted (`scanProject_withLimit`).
-/

namespace DocPages

open Text FileSystem

variable {fs : FileSystem} {limit : Nat} {p q : Path} {files : List Path} {plan : Plan}

/-! ### The path of a declaration -/

theorem declaration_scanSource (p q : Path) (t : Text) : (scanSource q t).declaration =
    (scanSource p t).declaration.map fun d => { d with sourcePath := q } := by
  rw [scanSource, scanSource, declaration_extract, declaration_extract, Token.described?, Token.described?,
    Option.map_map]
  rfl

theorem sourcePath_scanSource {t : Text} {d : Declaration} (h : (scanSource p t).declaration = some d) :
    d.sourcePath = p := by
  rw [declaration_scanSource p p, Option.map_eq_some_iff] at h
  obtain ⟨_, -, rfl⟩ := h
  rfl

/-! ### Line endings of a file -/

theorem scanFile_of_readFile {content : Bytes} (h : fs.readFile p = .ok content)
    (hsize : content.length ≤ limit) :
    scanFile fs limit p = .ok (.extracted (scanSource p (unifyLineEndings (ofUtf8Lossy content)))) := by
  obtain ⟨loc, hres⟩ := resolve_of_readFile h
  rw [scanFile, size_eq hres, h]
  exact if_neg (Nat.not_lt.2 hsize)

theorem unifyLineEndings_of_mem {s t : Text} (ht : '\r' ∉ t)
    (hs : s ∈ [t, withPairs t, withReturns t]) : unifyLineEndings s = t := by
  simp only [List.mem_cons, List.not_mem_nil, or_false] at hs
  rcases hs with rfl | rfl | rfl
  · exact unifyLineEndings_of_not_mem ht
  · exact unifyLineEndings_withPairs ht
  · exact unifyLineEndings_withReturns ht

/-- Line endings are unified as in one round from left to right, by which no carriage return is left and
there is nothing more to do, and texts are unified one by one unless a pair is torn apart between them. So
a text without carriage returns is what its forms with other line endings become, and files that hold them
have the same declaration, up to the path. -/
theorem scanFile_lineEndings :
    (∀ t, unifyLineEndings t = inOneRound t ∧
      unifyLineEndings t = (if '\r' ∈ t then returnToFeed (joinReturnFeed t) else t) ∧
      '\r' ∉ unifyLineEndings t ∧ unifyLineEndings (unifyLineEndings t) = unifyLineEndings t) ∧
    (∀ s t, unifyLineEndings (s ++ t) = unifyLineEndings s ++ unifyLineEndings t ↔
      ¬ (s.getLast? = some '\r' ∧ t.head? = some '\n')) ∧
    ∀ t, '\r' ∉ t → ∀ s ∈ [t, withPairs t, withReturns t], unifyLineEndings s = t ∧
      ∀ (fs : FileSystem) limit p, fs.readFile p = .ok (toUtf8 s) → (toUtf8 s).length ≤ limit →
        scanFile fs limit p = .ok (.extracted (scanSource p t)) ∧
          (scanSource p t).declaration =
            (scanSource [] t).declaration.map fun d => { d with sourcePath := p } := by
  refine ⟨fun t => ⟨unifyLineEndings_eq_inOneRound t, unifyLineEndings_eq_ite t,
    not_mem_unifyLineEndings t, unifyLineEndings_unifyLineEndings t⟩, unifyLineEndings_append_iff,
    fun t ht s hs => ⟨unifyLineEndings_of_mem ht hs, fun fs limit p hread hsize => ⟨?_, ?_⟩⟩⟩
  · rw [scanFile_of_readFile hread hsize, ofUtf8Lossy_toUtf8, unifyLineEndings_of_mem ht hs]
  · exact declaration_scanSource [] p t

theorem readFile_twoFiles (a b : Text) :
    (twoFiles a b).readFile "/s/a.php".toList = .ok (toUtf8 a) ∧
      (twoFiles a b).readFile "/s/b.php".toList = .ok (toUtf8 b) :=
  ⟨by cbv, by cbv⟩

theorem scanFile_lineEndings_twoFiles :
    let t := "class É\n{}\n".toList
    let fs := twoFiles (withPairs t) (withReturns t)
    '\r' ∉ t ∧ withPairs t = "class É\r\n{}\r\n".toList ∧ withReturns t = "class É\r{}\r".toList ∧
      scanFile fs 100 "/s/a.php".toList = .ok (.extracted (scanSource "/s/a.php".toList t)) ∧
      scanFile fs 100 "/s/b.php".toList = .ok (.extracted (scanSource "/s/b.php".toList t)) := by
  intro t fs
  have ht : '\r' ∉ t := by decide
  obtain ⟨hread, hread'⟩ := readFile_twoFiles (withPairs t) (withReturns t)
  have hpairs := (scanFile_lineEndings.2.2 t ht _ (by simp)).2 fs 100 _ hread (by decide)
  have hreturns := (scanFile_lineEndings.2.2 t ht _ (by simp)).2 fs 100 _ hread' (by decide)
  exact ⟨ht, rfl, rfl, hpairs.1, hreturns.1⟩

/-! ### Files that are too large -/

/-- Whether a path leads to something with more than `limit` bytes. -/
def FileSystem.exceeds (fs : FileSystem) (limit : Nat) (p : Path) : Bool :=
  match fs.size p with
  | .ok size => limit < size
  | .error _ => false

/-- The declaration of the file that a path leads to, however large it is. -/
def declarationOf? (fs : FileSystem) (p : Path) : Option Declaration :=
  match fs.readFile p with
  | .ok content => (scanSource p (unifyLineEndings (ofUtf8Lossy content))).declaration
  | .error _ => none

/-- The declarations of the files that have at most `limit` bytes. -/
def declarationsIn (fs : FileSystem) (limit : Nat) (files : List Path) : List Declaration :=
  (files.filter fun p => !fs.exceeds limit p).filterMap (declarationOf? fs)

/-- The plan with another limit. -/
def Plan.withLimit (plan : Plan) (limit : Nat) : Plan := { plan with maxFileSize := limit }

/-- The file system without the source files of a plan that have more than `limit` bytes. -/
def FileSystem.withoutLarge (fs : FileSystem) (plan : Plan) (limit : Nat) : FileSystem :=
  match sourceFiles fs plan with
  | .ok files => fs.without ((files.filter (fs.exceeds limit)).filterMap fs.fileAt?)
  | .error _ => fs

theorem sourcePath_of_declarationOf? {d : Declaration} (h : declarationOf? fs p = some d) :
    d.sourcePath = p := by
  unfold declarationOf? at h
  split at h
  · exact sourcePath_scanSource h
  · contradiction

/-! #### One file -/

section Large

variable {loc : Location} {c : Bytes} {limit' : Nat}

theorem exceeds_eq (h : fs.resolve .find p = .ok (.file loc c)) :
    fs.exceeds limit p = decide (limit < c.length) := by
  rw [exceeds, size_eq h]

/-- Paths that lead to one file lead to one size. -/
theorem exceeds_congr (hp : fs.fileAt? p = some loc) (hq : fs.fileAt? q = some loc) :
    fs.exceeds limit p = fs.exceeds limit q := by
  obtain ⟨c, hres, hnode⟩ := resolve_of_fileAt? hp
  obtain ⟨d, hres', hnode'⟩ := resolve_of_fileAt? hq
  obtain rfl := Node.file.inj (Option.some.inj (hnode.symm.trans hnode'))
  rw [exceeds_eq hres, exceeds_eq hres']

theorem exceeds_mono (h : limit ≤ limit') (hp : fs.exceeds limit' p) : fs.exceeds limit p := by
  unfold exceeds at hp ⊢
  split at hp
  · exact decide_eq_true (Nat.lt_of_le_of_lt h (of_decide_eq_true hp))
  · contradiction

theorem exists_scanFile (limit : Nat) (h : fs.isFile p) : ∃ scan, scanFile fs limit p = .ok scan ∧
    scan.declaration? = if fs.exceeds limit p then none else declarationOf? fs p := by
  obtain ⟨loc, c, hres⟩ := isFile_iff.1 h
  rw [exceeds_eq hres, declarationOf?, readFile_eq hres]
  by_cases hsize : limit < c.length
  · refine ⟨.skipped ⟨p, c.length, limit⟩, ?_, by rw [decide_eq_true hsize]; rfl⟩
    rw [scanFile, size_eq hres]
    exact if_pos hsize
  · refine ⟨_, scanFile_of_readFile (readFile_eq hres) (Nat.le_of_not_lt hsize), ?_⟩
    rw [decide_eq_false hsize]
    rfl

/-! #### All files -/

theorem exists_scanFiles (limit : Nat) (h : ∀ p ∈ files, fs.isFile p) :
    ∃ scans, scanFiles fs limit files = .ok scans ∧
      declarationsOf scans = declarationsIn fs limit files := by
  induction files with
  | nil => exact ⟨[], rfl, rfl⟩
  | cons p files ih =>
    obtain ⟨scan, hscan, hdeclaration⟩ := exists_scanFile limit (h p List.mem_cons_self)
    obtain ⟨scans, hscans, hdeclarations⟩ := ih fun q hq => h q (List.mem_cons_of_mem _ hq)
    refine ⟨scan :: scans, by rw [scanFiles, hscan, hscans]; rfl, ?_⟩
    rw [declarationsOf, List.filterMap_cons, hdeclaration, declarationsIn, List.filter_cons]
    cases fs.exceeds limit p with
    | true => exact hdeclarations
    | false =>
      rw [Bool.not_false, if_pos rfl, List.filterMap_cons]
      cases declarationOf? fs p with
      | none => exact hdeclarations
      | some d => exact congrArg (d :: ·) hdeclarations

theorem isFile_of_mem_sourceFiles (h : sourceFiles fs plan = .ok files) (hp : p ∈ files) :
    fs.isFile p := by
  obtain ⟨rules, -, hfiles⟩ := sourceFiles_eq_ok_iff.1 h
  obtain ⟨names, hsource⟩ := (mem_filesBelow_iff hfiles).1 hp
  exact hsource.isFile

/-- The declarations that are read are those of the source files that are not too large. -/
theorem declarations_scanProject (fs : FileSystem) (plan : Plan) :
    (scanProject fs plan).map declarationsOf =
      (sourceFiles fs plan).map (declarationsIn fs plan.maxFileSize) := by
  cases hfiles : sourceFiles fs plan with
  | error e =>
    rw [scanProject, hfiles]
    rfl
  | ok files =>
    have hfile : ∀ p ∈ files, fs.isFile p := fun p hp => isFile_of_mem_sourceFiles hfiles hp
    obtain ⟨scans, hscans, hdeclarations⟩ := exists_scanFiles plan.maxFileSize hfile
    rw [scanProject, hfiles]
    simp only [hscans, Except.map, hdeclarations]

/-! #### Another limit -/

/-- Declarations are picked by their paths as files are. -/
theorem filter_declarationOf? (keep : Path → Bool) (files : List Path) :
    (files.filterMap (declarationOf? fs)).filter (fun d => keep d.sourcePath) =
      (files.filter keep).filterMap (declarationOf? fs) := by
  rw [List.filter_filterMap, List.filterMap_filter]
  refine List.filterMap_congr fun p _ => ?_
  cases hd : declarationOf? fs p with
  | none => rw [Option.filter_none, ite_self]
  | some d => rw [Option.filter_some, sourcePath_of_declarationOf? hd]

theorem declarationsIn_of_le (h : limit ≤ limit') (files : List Path) :
    declarationsIn fs limit files =
      (declarationsIn fs limit' files).filter fun d => !fs.exceeds limit d.sourcePath := by
  rw [declarationsIn, declarationsIn, filter_declarationOf? fun p => !fs.exceeds limit p,
    List.filter_filter]
  refine congrArg _ (List.filter_congr fun p _ => ?_)
  cases hp : fs.exceeds limit' p with
  | false => rw [Bool.not_false, Bool.and_true]
  | true => rw [exceeds_mono h hp, Bool.not_true, Bool.false_and]

/-! #### Deleted files -/

theorem holdsFiles_filterMap_fileAt? (fs : FileSystem) (files : List Path) :
    fs.HoldsFiles (files.filterMap fs.fileAt?) := by
  intro loc hloc
  obtain ⟨p, -, hp⟩ := List.mem_filterMap.1 hloc
  obtain ⟨c, -, hc⟩ := resolve_of_fileAt? hp
  exact ⟨c, hc⟩

/-- The files that are kept are those that are not too large. -/
theorem keeps_eq_not_exceeds (h : ∀ p ∈ files, fs.isFile p) (hp : p ∈ files) :
    fs.keeps ((files.filter (fs.exceeds limit)).filterMap fs.fileAt?) p = !fs.exceeds limit p := by
  obtain ⟨loc, c, hres⟩ := isFile_iff.1 (h p hp)
  have hmem : loc ∈ (files.filter (fs.exceeds limit)).filterMap fs.fileAt? ↔ fs.exceeds limit p := by
    constructor
    · intro hloc
      obtain ⟨q, hq, hat⟩ := List.mem_filterMap.1 hloc
      rw [exceeds_congr (fileAt?_eq hres) hat]
      exact (List.mem_filter.1 hq).2
    · intro hlarge
      exact List.mem_filterMap.2 ⟨p, List.mem_filter.2 ⟨hp, hlarge⟩, fileAt?_eq hres⟩
  rw [Bool.eq_iff_iff, keeps_iff hres, hmem, Bool.not_eq_true, Bool.not_eq_true']

/-- What is read of a file that is not deleted is what was read. -/
theorem declarationsIn_without {gone : List Location} (h : fs.HoldsFiles gone)
    (hfiles : ∀ p ∈ files, fs.isFile p ∧ fs.keeps gone p) :
    declarationsIn (fs.without gone) limit files = declarationsIn fs limit files := by
  have hresolve {p : Path} (hp : p ∈ files) :
      (fs.without gone).resolve .find p = fs.resolve .find p := by
    obtain ⟨hfile, hkeeps⟩ := hfiles p hp
    obtain ⟨loc, c, hres⟩ := isFile_iff.1 hfile
    rw [hres, h.resolve_without_iff.2 ⟨hres, (keeps_iff hres).1 hkeeps⟩]
  have hexceeds {p : Path} (hp : p ∈ files) :
      (fs.without gone).exceeds limit p = fs.exceeds limit p := by
    rw [exceeds, exceeds, size, size, hresolve hp]
  have hdeclaration {p : Path} (hp : p ∈ files) :
      declarationOf? (fs.without gone) p = declarationOf? fs p := by
    rw [declarationOf?, declarationOf?, readFile, readFile, hresolve hp]
  rw [declarationsIn, declarationsIn, List.filter_congr fun p hp => congrArg (!·) (hexceeds hp)]
  exact List.filterMap_congr fun p hp => hdeclaration (List.mem_filter.1 hp).1

theorem sourceFiles_withoutLarge (h : sourceFiles fs plan = .ok files) :
    sourceFiles (fs.withoutLarge plan limit) plan =
      .ok (files.filter fun p => !fs.exceeds limit p) := by
  obtain ⟨rules, hrules, hfiles⟩ := sourceFiles_eq_ok_iff.1 h
  have hholds := holdsFiles_filterMap_fileAt? fs (files.filter (fs.exceeds limit))
  rw [withoutLarge, h]
  refine sourceFiles_eq_ok_iff.2 ⟨rules, hrules, (hholds.filesBelow_without hfiles).trans ?_⟩
  exact congrArg _ (List.filter_congr fun p hp =>
    keeps_eq_not_exceeds (fun q hq => isFile_of_mem_sourceFiles h hq) hp)

theorem declarationsIn_withoutLarge (h : sourceFiles fs plan = .ok files) :
    declarationsIn (fs.withoutLarge plan limit) limit (files.filter fun p => !fs.exceeds limit p) =
      declarationsIn fs limit files := by
  have hfile {p : Path} (hp : p ∈ files) : fs.isFile p := isFile_of_mem_sourceFiles h hp
  rw [withoutLarge, h]
  refine (declarationsIn_without (holdsFiles_filterMap_fileAt? fs _) fun p hp => ?_).trans ?_
  · obtain ⟨hp, hsmall⟩ := List.mem_filter.1 hp
    exact ⟨hfile hp, (keeps_eq_not_exceeds (fun q hq => hfile hq) hp).trans hsmall⟩
  · rw [declarationsIn, declarationsIn, List.filter_filter]
    simp only [Bool.and_self]

/-- With the lower one of two limits, exactly the declarations of larger files are left out of those that
the other one gives, in the same order, and what is read is what would be read if these files had been
deleted. -/
theorem scanProject_withLimit (fs : FileSystem) (plan : Plan) (h : limit ≤ limit') :
    (scanProject fs (plan.withLimit limit)).map declarationsOf =
        (scanProject fs (plan.withLimit limit')).map (fun scans =>
          (declarationsOf scans).filter fun d => !fs.exceeds limit d.sourcePath) ∧
      (scanProject fs (plan.withLimit limit)).map declarationsOf =
        (scanProject (fs.withoutLarge plan limit) (plan.withLimit limit)).map declarationsOf := by
  have hread (fs : FileSystem) (limit : Nat) : (scanProject fs (plan.withLimit limit)).map declarationsOf =
      (sourceFiles fs plan).map (declarationsIn fs limit) :=
    declarations_scanProject fs (plan.withLimit limit)
  have hpick (keep : Declaration → Bool) (scans : Except Failure (List FileScan)) :
      scans.map (fun scans => (declarationsOf scans).filter keep) =
        (scans.map declarationsOf).map (List.filter keep) := by
    cases scans <;> rfl
  rw [hpick, hread, hread, hread]
  cases hfiles : sourceFiles fs plan with
  | error e =>
    rw [withoutLarge, hfiles]
    exact ⟨rfl, by rw [hfiles]⟩
  | ok files =>
    rw [sourceFiles_withoutLarge hfiles]
    exact ⟨congrArg _ (declarationsIn_of_le h files),
      congrArg _ (declarationsIn_withoutLarge hfiles).symm⟩

/-- The second file is too large for the lower limit. -/
theorem scanProject_withLimit_twoFiles :
    let fs := twoFiles "class A".toList "class Bee".toList
    let first := bareType [] "A".toList "/s/a.php".toList
    let second := bareType [] "Bee".toList "/s/b.php".toList
    7 ≤ 9 ∧ scanProject fs (twoFilesPlan.withLimit 9) = .ok (scansOf first second) ∧
      (scanProject fs (twoFilesPlan.withLimit 7)).map declarationsOf = .ok [first] ∧
      (scanProject (fs.withoutLarge twoFilesPlan 7) (twoFilesPlan.withLimit 7)).map declarationsOf =
        .ok [first] := by
  intro fs first second
  have hall : scanProject fs (twoFilesPlan.withLimit 9) = .ok (scansOf first second) := by
    have hfiles : sourceFiles fs (twoFilesPlan.withLimit 9) =
        .ok ["/s/a.php".toList, "/s/b.php".toList] := sourceFiles_twoFiles _ _
    rw [scanProject, hfiles]
    cbv
  have hfirst : fs.exceeds 7 first.sourcePath = false := by cbv
  have hsecond : fs.exceeds 7 second.sourcePath = true := by cbv
  have hkept : [first, second].filter (fun d => !fs.exceeds 7 d.sourcePath) = [first] := by
    rw [List.filter_cons, List.filter_cons, hfirst, hsecond]
    rfl
  obtain ⟨hpick, hdelete⟩ := scanProject_withLimit fs twoFilesPlan (show 7 ≤ 9 by decide)
  rw [hall] at hpick
  have hlow := hpick.trans (congrArg Except.ok hkept)
  exact ⟨by decide, hall, hlow, hdelete.symm.trans hlow⟩

end Large

end DocPages
