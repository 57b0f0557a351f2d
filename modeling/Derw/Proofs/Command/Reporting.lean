import Derw.Proofs.Command.Batch
import Derw.Proofs.Job.Growth

/-!
# Proofs/Command/Reporting — a file without a program has a report

The first stage of `check` and `compile` reads the source of a file as a module document, and leaves
a module or an error behind. Later stages take neither away (`Job.IsDecided.run`), so at the end a
job without a program is one about which something is reported (`reportLines_ne_nil`), and the
command fails (`status_concluded_of_mem`).

There is one exception. A source without a single character is not read at all, so that the job of
an empty file ends as it began, and nothing is said about it.
-/

namespace Derw

namespace Job

variable {j : Job}

/-! ## Stages -/

/-- Something has come of the job: a module or an error. -/
def IsDecided (j : Job) : Prop := j.module.isSome = true ∨ j.errors ≠ []

/-- A stage takes no error back. -/
theorem errors_prefix_step (j : Job) (stage : Stage) : j.errors <+: (j.step stage).errors := by
  cases stage with
  | classify =>
    rw [step, classify]
    split <;> exact List.prefix_rfl
  | parse parser =>
    have hblocks : j.errors <+: (j.report (j.blocks.filterMap unknownBlock?)).errors :=
      List.prefix_append _ _
    cases parser with
    | none => exact hblocks
    | some p =>
      rw [step, parse]
      split
      next =>
        split
        next => exact hblocks
        next => exact hblocks.trans (List.prefix_append _ _)
      next => exact hblocks
  | decode =>
    rw [step, decode]
    split
    next => exact List.prefix_rfl
    next =>
      split
      next => exact List.prefix_rfl
      next => exact List.prefix_append _ _
  | collisions =>
    rw [step, findCollisions]
    split
    next => exact List.prefix_rfl
    next =>
      dsimp only
      split <;> exact List.prefix_rfl
  | names =>
    rw [step, checkNames]
    split
    next => exact List.prefix_rfl
    next =>
      split
      next => exact List.prefix_rfl
      next => exact List.prefix_append _ _
  | compile target =>
    rw [step, compile]
    split <;> exact List.prefix_rfl

theorem IsDecided.step (h : j.IsDecided) (stage : Stage) : (j.step stage).IsDecided := by
  rcases h with hmodule | herrors
  · obtain ⟨m, hm⟩ := Option.isSome_iff_exists.mp hmodule
    exact .inl (by rw [step_module hm]; rfl)
  · exact .inr fun hnil => herrors (List.prefix_nil.mp (hnil ▸ j.errors_prefix_step stage))

/-- What has come of a job is not lost in later stages. -/
theorem IsDecided.run (h : j.IsDecided) (stages : List Stage) : (j.run stages).IsDecided := by
  induction stages generalizing j with
  | nil => exact h
  | cons stage stages ih => exact ih (h.step stage)

/-- To read a source is to get a module or an error. -/
theorem isDecided_decode (h : j.source ≠ "") : j.decode.IsDecided := by
  rw [decode]
  split
  next hskip =>
    have hsource : j.source.isEmpty = false := by simpa using h
    rw [hsource, Bool.or_false] at hskip
    exact .inl hskip
  next =>
    split
    next => exact .inl rfl
    next => exact .inr (by simp [report])

end Job

namespace Command

/-! ## Jobs of commands -/

/-- Whether a task works on module documents. -/
def Task.analyses : Task → Bool
  | .check | .compile .. => true
  | .blocks => false

theorem exists_stagesOf {task : Task} (h : task.analyses = true) :
    ∃ later, stagesOf task = .decode :: later := by
  cases task with
  | blocks => cases h
  | check => exact ⟨_, rfl⟩
  | compile target folder => exact ⟨_, rfl⟩

/-- Nothing comes of an empty file. -/
theorem jobOf_empty {task : Task} (h : task.analyses = true) (config : Config) (file : String) :
    jobOf task config (file, "") = { file, source := "", config } := by
  cases task with
  | blocks => cases h
  | check => rfl
  | compile target folder => rfl

theorem isDecided_jobOf_iff {task : Task} (h : task.analyses = true) (config : Config)
    (file source : String) :
    (jobOf task config (file, source)).IsDecided ↔ source ≠ "" := by
  constructor
  · rintro hdecided rfl
    rw [jobOf_empty h] at hdecided
    simp [Job.IsDecided] at hdecided
  · intro hsource
    obtain ⟨later, hlater⟩ := exists_stagesOf h
    rw [jobOf, hlater]
    exact (Job.isDecided_decode hsource).run later

/-- Of a job there is a program or a report. -/
theorem reportLines_ne_nil {j : Job} (h : j.IsDecided) (hnone : program? j = none) :
    reportLines j ≠ [] := by
  intro hnil
  have hfindings := (reportLines_eq_nil_iff j).mp hnil
  rw [program?, hfindings] at hnone
  have hmodule : j.module = none := Option.map_eq_none_iff.mp hnone
  rcases h with hsome | herrors
  · rw [hmodule] at hsome
    cases hsome
  · rw [Job.hasFindings, Bool.or_eq_false_iff] at hfindings
    exact herrors (by simpa using hfindings.1)

/-! ## What a command says in the end -/

/-- What a command has said when it has acted, and the tree it leaves. -/
def acted (tree : FileTree) (task : Task) (jobs : List Job) : Outcome × FileTree :=
  (perform FileTree.disk {} (actions task (targetOf task) jobs)).run tree

theorem concluded_eq (tree : FileTree) (task : Task) (jobs : List Job) :
    concluded tree task jobs = reported jobs (acted tree task jobs).1 := rfl

theorem perform_write (o : Outcome) (path content : String) (todo : List Action) (tree : FileTree) :
    (perform FileTree.disk o (.write path content :: todo)).run tree =
      match (writeOutput FileTree.disk path content).run tree with
      | (.error text, seen) => (o.failed text, seen)
      | (.ok _, seen) => (perform FileTree.disk o todo).run seen := by
  rw [perform, StateT.run_bind]
  cases (writeOutput FileTree.disk path content).run tree with
  | mk written seen => cases written <;> rfl

/-- Acting ends with nothing to complain about, or at the first action that fails. -/
theorem perform_cases (o : Outcome) (todo : List Action) (tree : FileTree) :
    (∃ out, ((perform FileTree.disk o todo).run tree).1 = { o with out }) ∨
      ∃ out text, ((perform FileTree.disk o todo).run tree).1
        = Outcome.failed { o with out } text := by
  induction todo generalizing o tree with
  | nil => exact .inl ⟨o.out, rfl⟩
  | cons action todo ih =>
    cases action with
    | print text => exact ih { o with out := o.out ++ text } tree
    | write path content =>
      rw [perform_write]
      cases (writeOutput FileTree.disk path content).run tree with
      | mk written seen =>
        cases written with
        | error text => exact .inr ⟨o.out, text, rfl⟩
        | ok done => exact ih o seen

theorem status_concluded_of_mem {tree : FileTree} {task : Task} {jobs : List Job} {j : Job}
    (hj : j ∈ jobs) (hlines : reportLines j ≠ []) : (concluded tree task jobs).status = 1 := by
  have hsome : (jobs.flatMap reportLines).isEmpty = false := by
    rw [Bool.eq_false_iff, ne_eq, List.isEmpty_iff, List.flatMap_eq_nil_iff]
    exact fun hnil => hlines (hnil j hj)
  rw [concluded_eq, acted]
  rcases perform_cases {} (actions task (targetOf task) jobs) tree with
    ⟨out, hacted⟩ | ⟨out, text, hacted⟩
  · rw [hacted, reported]
    simp [hsome]
  · rw [hacted]
    rfl

theorem err_concluded_of_status {tree : FileTree} {task : Task} {jobs : List Job}
    (h : (acted tree task jobs).1.status = 0) :
    (concluded tree task jobs).err = reportText jobs := by
  rw [acted] at h
  rw [concluded_eq, acted]
  rcases perform_cases {} (actions task (targetOf task) jobs) tree with
    ⟨out, hacted⟩ | ⟨out, text, hacted⟩
  · rw [hacted, reported]
    exact String.empty_append
  · rw [hacted] at h
    cases h

/-- A task that works on module documents still does when its target is settled. -/
theorem analyses_of_settleTarget {config : Config} {task settled : Task}
    (h : settleTarget config task = .ok settled) : settled.analyses = task.analyses := by
  cases task with
  | blocks | check => exact Except.ok.inj h ▸ rfl
  | compile target folder =>
    obtain ⟨used, rfl⟩ := exists_of_settleTarget h
    rfl

/-- **Only an empty file is passed over in silence.** Whatever the configuration, `check` and
`compile` end with a module or an error for every file but an empty one. So a file of which there is
no program, and which is not empty, has a report, and the command fails; what it then says is the
reports on all files, unless it was stopped before by a program that could not be written. A
configuration that cannot be used is a failure too. -/
theorem reported_unless_empty {task : Task} (htask : task.analyses = true) :
    (∀ (config : Config) (file source : String),
      let j := jobOf task config (file, source)
      (j.module.isSome = true ∨ j.errors ≠ []) ↔ source ≠ "") ∧
    ∀ (tree : FileTree) (path : String) (sources : List (String × String)), sources ≠ [] →
      (∀ source ∈ sources, tree.read source.1 = .ok source.2) →
      let outcome := outcomeOn tree ⟨task, path, sources.map (·.1)⟩
      (∀ text, settledOn tree path task = .error text → outcome = Outcome.failed {} text) ∧
      ∀ config settled, settledOn tree path task = .ok (config, settled) →
        ∀ source ∈ sources, program? (jobOf settled config source) = none →
          (reportLines (jobOf settled config source) ≠ [] ↔ source.2 ≠ "") ∧
            (source.2 ≠ "" → outcome.status = 1 ∧
              ((acted tree settled (sources.map (jobOf settled config))).1.status = 0 →
                outcome.err = reportText (sources.map (jobOf settled config)))) := by
  refine ⟨isDecided_jobOf_iff htask, fun tree path sources hne hread => ?_⟩
  intro outcome
  refine ⟨fun text herror => outcomeOn_of_error herror (mt List.map_eq_nil_iff.mp hne),
    fun config settled hsettled source hsource hnone => ?_⟩
  have hanalyses : settled.analyses = true :=
    (analyses_of_settleTarget (loaded_of_settledOn hsettled).2).trans htask
  have hlines : source.2 ≠ "" → reportLines (jobOf settled config source) ≠ [] :=
    fun hfull => reportLines_ne_nil ((isDecided_jobOf_iff hanalyses ..).mpr hfull) hnone
  refine ⟨⟨fun hreport hempty => hreport ?_, hlines⟩, fun hfull => ?_⟩
  · rw [show source = (source.1, "") from Prod.ext rfl hempty, jobOf_empty hanalyses]
    rfl
  · have houtcome : outcome = concluded tree settled (sources.map (jobOf settled config)) :=
      outcomeOn_of_ok hsettled hne hread
    rw [houtcome]
    exact ⟨status_concluded_of_mem (List.mem_map_of_mem hsource) (hlines hfull),
      err_concluded_of_status⟩

/-- A single space is read as a document without a module. -/
theorem reported_unless_empty_blank :
    let tree : FileTree := ⟨["work"], [(["work", "blank"], " ")], [], .usual⟩
    let j := jobOf .check .default ("blank", " ")
    let outcome := outcomeOn tree ⟨.check, "", ["blank"]⟩
    Task.check.analyses = true ∧ tree.read "blank" = .ok " " ∧ (program? j).isNone = true ∧
      (j.module.isSome = true ∨ j.errors ≠ []) ∧ reportLines j ≠ [] ∧ outcome.status = 1 ∧
      outcome.err = "error: blank: [D001] empty module document\n" := by
  intro tree j outcome
  obtain ⟨hread, hsettled, hprogram, hacted, htext⟩ :
      tree.read "blank" = .ok " " ∧ settledOn tree "" .check = .ok (.default, .check) ∧
        (program? j).isNone = true ∧ (acted tree .check [j]).1.status = 0 ∧
        reportText [j] = "error: blank: [D001] empty module document\n" := by
    decide +kernel
  have hanalyses : Task.check.analyses = true := rfl
  have hfull : " " ≠ "" := by decide
  obtain ⟨hdecided, hcommand⟩ := reported_unless_empty hanalyses
  obtain ⟨-, h⟩ := hcommand tree "" [("blank", " ")] (List.cons_ne_nil _ _)
    (List.forall_mem_singleton.mpr hread)
  obtain ⟨hlines, hfails⟩ :=
    h _ _ hsettled ("blank", " ") List.mem_cons_self (Option.isNone_iff_eq_none.mp hprogram)
  obtain ⟨hstatus, herr⟩ := hfails hfull
  exact ⟨hanalyses, hread, hprogram, (hdecided .default "blank" " ").mpr hfull, hlines.mpr hfull,
    hstatus, (herr hacted).trans htext⟩

/-- An empty file has neither a module nor an error, and nobody is told. -/
theorem not_reported_empty :
    let tree : FileTree := ⟨["work"], [(["work", "empty"], "")], [], .usual⟩
    let j := jobOf .check .default ("empty", "")
    tree.read "empty" = .ok "" ∧ ¬(j.module.isSome = true ∨ j.errors ≠ []) ∧
      (program? j).isNone = true ∧ reportLines j = [] ∧
      outcomeOn tree ⟨.check, "", ["empty"]⟩ = { status := 0 } ∧
      outcomeOn tree ⟨.compile "js" "", "", ["empty"]⟩ = { status := 0 } := by
  decide +kernel

end Command

end Derw
