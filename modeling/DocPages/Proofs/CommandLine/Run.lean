import DocPages.CommandLine.Run
import DocPages.Proofs.CommandLine.Arguments
import DocPages.Proofs.Generate.Outcome

/-!
# What the command does

The command is a run of `generate` (`Refines`): on the plan of the settings with the directories
that the command line names (`IsPlan`), between a banner and, if the run succeeds, a footer that
says where the documents are. If the settings cannot be loaded the command fails as a run without
events does (`IsRun`), whatever directories the command line names.

Main statement: every command line that is accepted does that, and two that differ in nothing but
whether documents are reported leave the same files, and print the same but for the lines of the
documents (`run_refines`).
-/

namespace DocPages

namespace CommandLine

variable {fs : FileSystem} {env : Environment} {a : Arguments} {plan : Plan} {e : Failure}

/-! ### The plan -/

/-- `plan` is `loaded` with the directories that the command line names, seen from the root. -/
structure Overrides (root : Path) (a : Arguments) (loaded plan : Plan) : Prop where
  sourceDir_of_some : ∀ dir, a.source = some dir → plan.sourceDir = Path.join root dir
  sourceDir_of_none : a.source = none → plan.sourceDir = loaded.sourceDir
  outputDir_of_some : ∀ dir, a.output = some dir → plan.outputDir = Path.join root dir
  outputDir_of_none : a.output = none → plan.outputDir = loaded.outputDir
  extension_eq : plan.extension = loaded.extension
  maxFileSize_eq : plan.maxFileSize = loaded.maxFileSize
  exclude_eq : plan.exclude = loaded.exclude

/-- The settings of the root directory can be loaded, and make the plan with the arguments. -/
def IsPlan (fs : FileSystem) (a : Arguments) (plan : Plan) : Prop :=
  ∃ loaded, loadPlan fs (rootOf fs a) = .ok loaded ∧ Overrides (rootOf fs a) a loaded plan

/-- The arguments and the settings determine the plan. -/
theorem Overrides.eq {root : Path} {loaded p q : Plan} (hp : Overrides root a loaded p)
    (hq : Overrides root a loaded q) : p = q := by
  have hsource : p.sourceDir = q.sourceDir := by
    cases h : a.source with
    | none => rw [hp.sourceDir_of_none h, hq.sourceDir_of_none h]
    | some dir => rw [hp.sourceDir_of_some dir h, hq.sourceDir_of_some dir h]
  have houtput : p.outputDir = q.outputDir := by
    cases h : a.output with
    | none => rw [hp.outputDir_of_none h, hq.outputDir_of_none h]
    | some dir => rw [hp.outputDir_of_some dir h, hq.outputDir_of_some dir h]
  calc p = ⟨p.sourceDir, p.outputDir, p.extension, p.maxFileSize, p.exclude⟩ := rfl
    _ = ⟨q.sourceDir, q.outputDir, loaded.extension, loaded.maxFileSize, loaded.exclude⟩ := by
      rw [hsource, houtput, hp.extension_eq, hp.maxFileSize_eq, hp.exclude_eq]
    _ = q := by rw [← hq.extension_eq, ← hq.maxFileSize_eq, ← hq.exclude_eq]

theorem exists_planFor_of_loadPlan {loaded : Plan} (h : loadPlan fs (rootOf fs a) = .ok loaded) :
    ∃ plan, planFor fs a = .ok plan ∧ Overrides (rootOf fs a) a loaded plan := by
  refine ⟨_, by rw [planFor, h]; rfl, ?_⟩
  exact {
    sourceDir_of_some := fun dir hdir => by rw [hdir]; rfl
    sourceDir_of_none := fun hnone => by rw [hnone]; rfl
    outputDir_of_some := fun dir hdir => by rw [hdir]; rfl
    outputDir_of_none := fun hnone => by rw [hnone]; rfl
    extension_eq := rfl
    maxFileSize_eq := rfl
    exclude_eq := rfl }

theorem planFor_eq_error_iff : planFor fs a = .error e ↔ loadPlan fs (rootOf fs a) = .error e := by
  cases h : loadPlan fs (rootOf fs a) with
  | error e' => rw [planFor, h]; exact Iff.rfl
  | ok loaded =>
    obtain ⟨plan, hplan, -⟩ := exists_planFor_of_loadPlan h
    simp only [hplan, reduceCtorEq]

theorem planFor_eq_ok_iff : planFor fs a = .ok plan ↔ IsPlan fs a plan := by
  constructor
  · intro h
    cases hload : loadPlan fs (rootOf fs a) with
    | error e => exact absurd (h.symm.trans (planFor_eq_error_iff.2 hload)) nofun
    | ok loaded =>
      obtain ⟨plan', hplan', hover⟩ := exists_planFor_of_loadPlan hload
      obtain rfl := Except.ok.inj (hplan'.symm.trans h)
      exact ⟨loaded, hload, hover⟩
  · rintro ⟨loaded, hload, hover⟩
    obtain ⟨plan', hplan', hover'⟩ := exists_planFor_of_loadPlan hload
    rw [hplan', hover'.eq hover]

theorem IsPlan.eq {p q : Plan} (hp : IsPlan fs a p) (hq : IsPlan fs a q) : p = q :=
  Except.ok.inj ((planFor_eq_ok_iff.2 hp).symm.trans (planFor_eq_ok_iff.2 hq))

theorem not_isPlan_of_loadPlan (h : loadPlan fs (rootOf fs a) = .error e) : ¬ IsPlan fs a plan := by
  rintro ⟨loaded, hload, -⟩
  rw [h] at hload
  contradiction

/-! ### Progress -/

/-- The line that reports an event. -/
def notice : Event → Text
  | .scanStarted extension => line ("Scanning ".toList ++ extension ++ " files...".toList)
  | .scanFinished n => line ("   Found ".toList ++ (toString n).toList ++ " classes".toList)
  | .generateStarted => line "Generating documentation...".toList
  | .documentWritten p => line ("   Wrote ".toList ++ p)

/-- The lines that report some events, in order. -/
def notices (events : List Event) : Text := events.flatMap notice

/-- Whether an event is that a document has been written. -/
def isWritten : Event → Bool
  | .documentWritten _ => true
  | _ => false

/-- The events that are reported: all of them, or all but the documents that have been written. -/
def reported (verbose : Bool) (events : List Event) : List Event :=
  if verbose then events else events.filter fun event => !isWritten event

theorem flatMap_eventText (verbose : Bool) (events : List Event) :
    events.flatMap (eventText verbose) = notices (reported verbose events) := by
  cases verbose with
  | true =>
    have h : eventText true = notice := by funext event; cases event <;> rfl
    rw [h]
    rfl
  | false =>
    induction events with
    | nil => rfl
    | cons event events ih =>
      rw [List.flatMap_cons, ih]
      cases event <;> rfl

/-- The events are those of a run up to some point: the source files are read, then the documents
are reported. -/
def InOrder (events : List Event) : Prop :=
  ∃ (extension : Text) (n : Nat) (written : List Path),
    events <+: [.scanStarted extension, .scanFinished n, .generateStarted] ++
      written.map Event.documentWritten

theorem inOrder_generate (fs : FileSystem) (plan : Plan) : InOrder (generate fs plan).events := by
  obtain ⟨x, hx⟩ := exists_holds fs plan
  cases x with
  | scanFails e =>
    obtain ⟨-, hrun⟩ := hx
    rw [hrun]
    exact ⟨plan.extension, 0, [], _, rfl⟩
  | outputFails n e =>
    obtain ⟨_, _, _, -, -, -, hrun⟩ := hx
    rw [hrun]
    exact ⟨plan.extension, n, [], List.prefix_rfl⟩
  | writeFails n k e =>
    obtain ⟨_, docs, _, _, _, -, -, -, -, -, hrun⟩ := hx
    rw [hrun]
    refine ⟨plan.extension, n, (docs.take k).map (Document.path plan.outputDir), ?_⟩
    rw [List.map_map]
    exact List.prefix_rfl
  | succeeds n =>
    obtain ⟨_, docs, _, _, -, -, -, hrun, -⟩ := hx
    rw [hrun]
    refine ⟨plan.extension, n, docs.map (Document.path plan.outputDir), ?_⟩
    rw [List.map_map]
    exact List.prefix_rfl

/-! ### The run -/

section IsRun

variable {r : Run} {report : Report}

/-- The run that the arguments ask for: that of the plan, and if there is none because the settings
cannot be loaded, one that fails at once. -/
def IsRun (fs : FileSystem) (a : Arguments) (r : Run) : Prop :=
  (∃ plan, IsPlan fs a plan ∧ r = generate fs plan) ∨
    ∃ e, loadPlan fs (rootOf fs a) = .error e ∧ r = ⟨.error e, [], fs⟩

/-- The settings can be loaded, and the run of the plan that they make succeeds. -/
def Succeeds (fs : FileSystem) (a : Arguments) (report : Report) : Prop :=
  ∃ plan, IsPlan fs a plan ∧ (generate fs plan).result = .ok report

theorem exists_isRun (fs : FileSystem) (a : Arguments) : ∃ r, IsRun fs a r := by
  cases hload : loadPlan fs (rootOf fs a) with
  | error e => exact ⟨_, Or.inr ⟨e, hload, rfl⟩⟩
  | ok loaded =>
    obtain ⟨plan, -, hover⟩ := exists_planFor_of_loadPlan hload
    exact ⟨_, Or.inl ⟨plan, ⟨loaded, hload, hover⟩, rfl⟩⟩

theorem IsRun.eq_generate (h : IsRun fs a r) (hplan : IsPlan fs a plan) : r = generate fs plan := by
  rcases h with ⟨plan', hplan', rfl⟩ | ⟨e, hload, -⟩
  · rw [hplan'.eq hplan]
  · exact absurd hplan (not_isPlan_of_loadPlan hload)

theorem IsRun.eq_of_loadPlan (h : IsRun fs a r) (hload : loadPlan fs (rootOf fs a) = .error e) :
    r = ⟨.error e, [], fs⟩ := by
  rcases h with ⟨plan, hplan, -⟩ | ⟨e', hload', rfl⟩
  · exact absurd hplan (not_isPlan_of_loadPlan hload)
  · rw [Except.error.inj (hload'.symm.trans hload)]

theorem IsRun.result_eq_ok_iff (h : IsRun fs a r) :
    r.result = .ok report ↔ Succeeds fs a report := by
  constructor
  · intro hresult
    rcases h with ⟨plan, hplan, rfl⟩ | ⟨e, -, rfl⟩
    · exact ⟨plan, hplan, hresult⟩
    · contradiction
  · rintro ⟨plan, hplan, hresult⟩
    rw [h.eq_generate hplan, hresult]

theorem IsRun.not_succeeds (h : IsRun fs a r) (he : r.result = .error e) :
    ¬ ∃ report, Succeeds fs a report := by
  rintro ⟨report, hreport⟩
  rw [h.result_eq_ok_iff.2 hreport] at he
  contradiction

theorem IsRun.inOrder (h : IsRun fs a r) : InOrder r.events := by
  rcases h with ⟨plan, -, rfl⟩ | ⟨e, -, rfl⟩
  · exact inOrder_generate fs plan
  · exact ⟨[], 0, [], List.nil_prefix⟩

/-- Whether documents are reported has nothing to do with the run. -/
theorem IsRun.setVerbose (h : IsRun fs a r) (verbose : Bool) :
    IsRun fs { a with verbose := verbose } r := by
  rcases h with ⟨plan, hplan, rfl⟩ | hload
  · have hplan : planFor fs a = .ok plan := planFor_eq_ok_iff.2 hplan
    exact Or.inl ⟨plan, planFor_eq_ok_iff.1 hplan, rfl⟩
  · exact Or.inr hload

end IsRun

/-! ### The command -/

section Command

variable {r : Run}

/-- Whether what is printed has colours. -/
def isColored (env : Environment) (a : Arguments) : Bool := !a.noColor && env.colorsRuns

/-- What a command does whose run is `r`. -/
def resultOf (env : Environment) (a : Arguments) (r : Run) : Result :=
  let output := banner (isColored env a) ++ notices (reported a.verbose r.events)
  match r.result with
  | .error e => ⟨1, output, some e, r.disk⟩
  | .ok report => ⟨0, output ++ footer (isColored env a) report.outputDir, none, r.disk⟩

theorem execute_eq_resultOf (h : IsRun fs a r) : execute fs env a = resultOf env a r := by
  rcases h with ⟨plan, hplan, rfl⟩ | ⟨e, hload, rfl⟩
  · rw [execute, planFor_eq_ok_iff.2 hplan]
    simp only [flatMap_eventText, resultOf]
    rfl
  · rw [execute, planFor_eq_error_iff.2 hload]
    cases hverbose : a.verbose <;> simp [resultOf, reported, notices, isColored, hverbose]

/-- What is printed at the end: a footer if the command succeeds, and nothing if it does not. -/
def IsEnding (fs : FileSystem) (env : Environment) (a : Arguments) (exitCode : Nat)
    (ending : Text) : Prop :=
  (exitCode = 0 ∧ ∃ report, Succeeds fs a report ∧
      ending = footer (isColored env a) report.outputDir) ∨
    exitCode ≠ 0 ∧ ending = []

/-- A command does what the run does that its arguments ask for. -/
structure Refines (fs : FileSystem) (env : Environment) (a : Arguments) (done : Result) : Prop where
  exitCode_eq_zero_iff : done.exitCode = 0 ↔ ∃ report, Succeeds fs a report
  exitCode_eq_one_iff : done.exitCode = 1 ↔ ¬ ∃ report, Succeeds fs a report
  output_eq : ∃ r ending, IsRun fs a r ∧ InOrder r.events ∧ IsEnding fs env a done.exitCode ending ∧
    done.output = banner (isColored env a) ++ notices (reported a.verbose r.events) ++ ending
  disk_eq : ∀ plan, IsPlan fs a plan → done.disk = (generate fs plan).disk
  /-- Settings that cannot be loaded end the command, whatever directories are named. -/
  unsettled : ∀ e, loadPlan fs (rootOf fs a) = .error e →
    done.exitCode = 1 ∧ done.failure = some e ∧ done.disk = fs

/-- Two commands differ in the lines of the documents that are written, and in nothing else. -/
structure DiffersInDocuments (fs : FileSystem) (env : Environment) (a : Arguments)
    (quiet verbose : Result) : Prop where
  exitCode_eq : verbose.exitCode = quiet.exitCode
  failure_eq : verbose.failure = quiet.failure
  disk_eq : verbose.disk = quiet.disk
  output_eq : ∃ r ending, IsRun fs a r ∧ IsEnding fs env a quiet.exitCode ending ∧
    verbose.output = banner (isColored env a) ++ notices r.events ++ ending ∧
    quiet.output = banner (isColored env a) ++
      notices (r.events.filter fun event => !isWritten event) ++ ending

theorem exists_ending (h : IsRun fs a r) (env : Environment) : ∃ ending,
    IsEnding fs env a (resultOf env a r).exitCode ending ∧
      ∀ verbose, (resultOf env { a with verbose := verbose } r).output =
        banner (isColored env a) ++ notices (reported verbose r.events) ++ ending := by
  unfold resultOf
  cases hresult : r.result with
  | error e =>
    exact ⟨[], Or.inr ⟨Nat.one_ne_zero, rfl⟩, fun verbose => (List.append_nil _).symm⟩
  | ok report =>
    exact ⟨_, Or.inl ⟨rfl, report, h.result_eq_ok_iff.1 hresult, rfl⟩, fun verbose => rfl⟩

theorem disk_resultOf (env : Environment) (a : Arguments) (r : Run) :
    (resultOf env a r).disk = r.disk := by
  unfold resultOf
  cases r.result <;> rfl

theorem exitCode_resultOf (h : IsRun fs a r) (env : Environment) :
    (resultOf env a r).exitCode = 0 ∧ (∃ report, Succeeds fs a report) ∨
      (resultOf env a r).exitCode = 1 ∧ ¬ ∃ report, Succeeds fs a report := by
  unfold resultOf
  cases hresult : r.result with
  | error e => exact Or.inr ⟨rfl, h.not_succeeds hresult⟩
  | ok report => exact Or.inl ⟨rfl, report, h.result_eq_ok_iff.1 hresult⟩

theorem refines_execute (fs : FileSystem) (env : Environment) (a : Arguments) :
    Refines fs env a (execute fs env a) := by
  obtain ⟨r, hr⟩ := exists_isRun fs a
  obtain ⟨ending, hending, houtput⟩ := exists_ending hr env
  have hcode := exitCode_resultOf hr env
  rw [execute_eq_resultOf hr]
  exact {
    exitCode_eq_zero_iff := by rcases hcode with ⟨hcode, hs⟩ | ⟨hcode, hs⟩ <;> simp [hcode, hs]
    exitCode_eq_one_iff := by rcases hcode with ⟨hcode, hs⟩ | ⟨hcode, hs⟩ <;> simp [hcode, hs]
    output_eq := ⟨r, ending, hr, hr.inOrder, hending, houtput a.verbose⟩
    disk_eq := fun plan hplan => by rw [disk_resultOf, hr.eq_generate hplan]
    unsettled := fun e hload => by rw [hr.eq_of_loadPlan hload]; exact ⟨rfl, rfl, rfl⟩ }

theorem differsInDocuments_execute (fs : FileSystem) (env : Environment) (ha : a.verbose = false) :
    DiffersInDocuments fs env a (execute fs env a) (execute fs env { a with verbose := true }) := by
  obtain ⟨r, hr⟩ := exists_isRun fs a
  obtain ⟨ending, hending, houtput⟩ := exists_ending hr env
  have hquiet : { a with verbose := false } = a := by rw [← ha]
  rw [execute_eq_resultOf hr, execute_eq_resultOf (hr.setVerbose true)]
  refine {
    exitCode_eq := ?_
    failure_eq := ?_
    disk_eq := by rw [disk_resultOf, disk_resultOf]
    output_eq := ⟨r, ending, hr, hending, houtput true, hquiet ▸ houtput false⟩ }
  -- Neither the exit code nor the failure depends on what is reported.
  all_goals
    unfold resultOf
    cases r.result <;> rfl

end Command

theorem run_of_parse {words : List Text} (h : Arguments.parse words = .ok a) :
    run fs env words = execute fs env a := by
  rw [run, h]

/-- A project in the directory `/p`, with no files in the directory of its sources. -/
def emptyProject : FileSystem where
  entries := [(["p".toList], .directory), (["p".toList, "src".toList], .directory)]
  workingDirectory := []
  distinct := by simp

/-- A command line for it. -/
def emptyProjectWords : List Text := ["--path=/p", "-s", "src"].map String.toList

/-- The same command line, with the request to report documents. -/
def emptyProjectWordsVerbose : List Text := ["--path=/p", "-vs", "src"].map String.toList

/-- What the first command line asks for. -/
def emptyProjectArguments : Arguments := ⟨some "/p".toList, some "src".toList, none, false, false⟩

end CommandLine

end DocPages
