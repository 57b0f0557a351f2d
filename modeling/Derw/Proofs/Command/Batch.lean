import Derw.Proofs.Command.Looking
import Derw.Proofs.Command.Workers

/-!
# Proofs/Command/Batch — compiling many files is compiling each of them

A command finds the same configuration and the same sources whether it is given many files or one
(`outcomeOn_eq`). Without a folder, what `compile` says is put together from what it says of
each job (`concluded_compile`), so many files add up (`compile_files`): their programs and
reports stand one after another, and the command fails if it fails on one of them. Since the workers
leave the same jobs behind in every order (`Workers.finished_of_reaches`), that order cannot be
seen.
-/

namespace Derw.Command

/-! ## What a command comes to -/

/-- What a command says, run in a tree. -/
def outcomeOn (tree : FileTree) (i : Invocation) : Outcome :=
  ((runInvocation FileTree.disk i).run tree).1

/-- The configuration with which a task is run in a tree, and the task it then is; or why it cannot
be run. -/
def settledOn (tree : FileTree) (path : String) (task : Task) : Except String (Config × Task) :=
  match ((loadConfig FileTree.disk path).run tree).1 with
  | .error text => .error text
  | .ok config => (settleTarget config task).map (config, ·)

/-- What a command says once all files have been worked on. -/
def concluded (tree : FileTree) (task : Task) (jobs : List Job) : Outcome :=
  reported jobs ((perform FileTree.disk {} (actions task (targetOf task) jobs)).run tree).1

theorem loaded_of_settledOn {tree : FileTree} {path : String} {task settled : Task}
    {config : Config} (h : settledOn tree path task = .ok (config, settled)) :
    ((loadConfig FileTree.disk path).run tree).1 = .ok config ∧
      settleTarget config task = .ok settled := by
  rw [settledOn] at h
  split at h
  next => nomatch h
  next loaded hloaded =>
    cases hsettled : settleTarget loaded task with
    | error text => rw [hsettled] at h; nomatch h
    | ok used =>
      rw [hsettled] at h
      obtain ⟨rfl, rfl⟩ := Prod.mk.inj (Except.ok.inj h)
      exact ⟨hloaded, hsettled⟩

/-- A command on at least one file: it settles what to do, reads the files, acts, and reports. -/
theorem runInvocation_run (tree : FileTree) (path : String) (task : Task) {files : List String}
    (hfiles : files ≠ []) :
    (runInvocation FileTree.disk ⟨task, path, files⟩).run tree =
      match settledOn tree path task with
      | .error text => (Outcome.failed {} text, tree)
      | .ok (config, settled) =>
        match (readSources FileTree.disk files).run tree with
        | (.error text, seen) => (Outcome.failed {} text, seen)
        | (.ok sources, seen) =>
          let jobs := sources.map (jobOf settled config)
          let acted := (perform FileTree.disk {} (actions settled (targetOf settled) jobs)).run seen
          (reported jobs acted.1, acted.2) := by
  have hsome : files.isEmpty = false := by simpa using hfiles
  rw [settledOn, runInvocation]
  simp only [hsome, Bool.false_eq_true, if_false, (looks_loadConfig path).run_bind]
  cases ((loadConfig FileTree.disk path).run tree).1 with
  | error text => rfl
  | ok config =>
    dsimp only
    cases settleTarget config task with
    | error text => rfl
    | ok settled =>
      dsimp only
      rw [StateT.run_bind]
      cases (readSources FileTree.disk files).run tree with
      | mk read seen => cases read <;> rfl

/-- What a command says, if it is given at least one file. -/
theorem outcomeOn_eq (tree : FileTree) (path : String) (task : Task) {files : List String}
    (hfiles : files ≠ []) :
    outcomeOn tree ⟨task, path, files⟩ =
      match settledOn tree path task with
      | .error text => Outcome.failed {} text
      | .ok (config, settled) =>
        match (readSources FileTree.disk files).run tree with
        | (.error text, _) => Outcome.failed {} text
        | (.ok sources, seen) => concluded seen settled (sources.map (jobOf settled config)) := by
  rw [outcomeOn, runInvocation_run tree path task hfiles]
  cases settledOn tree path task with
  | error text => rfl
  | ok settled =>
    dsimp only
    cases (readSources FileTree.disk files).run tree with
    | mk read seen => cases read <;> rfl

/-- A task that cannot be run fails on any files. -/
theorem outcomeOn_of_error {tree : FileTree} {path text : String} {task : Task}
    (h : settledOn tree path task = .error text) {files : List String} (hfiles : files ≠ []) :
    outcomeOn tree ⟨task, path, files⟩ = Outcome.failed {} text := by
  rw [outcomeOn_eq tree path task hfiles, h]

/-- On files that can be read, what a task says depends on their jobs. -/
theorem outcomeOn_of_ok {tree : FileTree} {path : String} {task settled : Task} {config : Config}
    (h : settledOn tree path task = .ok (config, settled)) {sources : List (String × String)}
    (hne : sources ≠ []) (hsources : ∀ source ∈ sources, tree.read source.1 = .ok source.2) :
    outcomeOn tree ⟨task, path, sources.map (·.1)⟩
      = concluded tree settled (sources.map (jobOf settled config)) := by
  rw [outcomeOn_eq tree path task (mt List.map_eq_nil_iff.mp hne), h]
  dsimp only
  rw [readSources_run tree hsources]

/-- A task of compiling stays one, into the same folder. -/
theorem exists_of_settleTarget {config : Config} {target folder : String} {settled : Task}
    (h : settleTarget config (.compile target folder) = .ok settled) :
    ∃ used, settled = .compile used folder := by
  rw [settleTarget] at h
  split at h
  next => exact ⟨_, (Except.ok.inj h).symm⟩
  split at h
  next => exact ⟨_, (Except.ok.inj h).symm⟩
  next => nomatch h

/-! ## What is said of a job -/

/-- Nothing is reported about a job in which no stage has found anything. -/
theorem reportLines_eq_nil_iff (j : Job) : reportLines j = [] ↔ j.hasFindings = false := by
  rw [reportLines, Job.hasFindings]
  cases j.module <;> simp

/-- Whether a job is printed: it has a module, and nothing is reported about it. -/
def isPrinted (j : Job) : Bool := j.module.isSome && (reportLines j).isEmpty

theorem program?_map_snd (j : Job) :
    (program? j).map (·.2) = if isPrinted j then some j.output else none := by
  rw [program?, isPrinted]
  cases hfindings : j.hasFindings with
  | false =>
    rw [(reportLines_eq_nil_iff j).mpr hfindings]
    cases j.module <;> rfl
  | true =>
    have hlines : (reportLines j).isEmpty = false := by
      rw [Bool.eq_false_iff, ne_eq, List.isEmpty_iff, reportLines_eq_nil_iff, hfindings]
      decide
    rw [hlines, Bool.and_false]
    rfl

/-- Compiling without a folder prints the jobs about which nothing is reported. -/
theorem actions_compile (target extension : String) (jobs : List Job) :
    actions (.compile target "") extension jobs
      = ((jobs.filter isPrinted).map (·.output)).map .print := by
  have houtputs : (jobs.filter isPrinted).map (·.output)
      = (jobs.filterMap program?).map (·.2) := by
    rw [List.map_filterMap, ← List.filterMap_eq_map, List.filterMap_filter]
    exact congrArg (jobs.filterMap ·) (funext fun j => (program?_map_snd j).symm)
  rw [houtputs, List.map_map]
  rfl

theorem perform_print {m : Type → Type} [Monad m] (disk : Disk m) (o : Outcome)
    (texts : List String) :
    perform disk o (texts.map .print) = pure { o with out := o.out ++ String.join texts } := by
  induction texts generalizing o with
  | nil => rw [String.join_nil, String.append_empty]; rfl
  | cons text texts ih =>
    rw [String.join_cons, ← String.append_assoc]
    exact ih { o with out := o.out ++ text }

/-- The lines of reports, as they are written. -/
def reportText (jobs : List Job) : String :=
  String.join ((jobs.flatMap reportLines).map (· ++ "\n"))

theorem concluded_compile (tree : FileTree) (target : String) (jobs : List Job) :
    concluded tree (.compile target "") jobs =
      { out := String.join ((jobs.filter isPrinted).map (·.output))
        err := reportText jobs
        status := if (jobs.flatMap reportLines).isEmpty then 0 else 1 } := by
  have hprinted : ((perform FileTree.disk {} (actions (.compile target "") target jobs)).run tree).1
      = { out := String.join ((jobs.filter isPrinted).map (·.output)) } := by
    rw [actions_compile, perform_print, String.empty_append]
    rfl
  rw [concluded, targetOf, hprinted, reported, reportText]
  exact congrArg (Outcome.mk _ · _) String.empty_append

/-! ## Many files -/

theorem join_flatMap {α : Type} (f : α → List String) (items : List α) :
    String.join (items.flatMap f) = String.join (items.map fun item => String.join (f item)) := by
  induction items with
  | nil => rfl
  | cons item items ih =>
    rw [List.flatMap_cons, String.join_append, ih, List.map_cons, String.join_cons]

theorem join_map_empty {α : Type} (items : List α) :
    String.join (items.map fun _ => "") = "" := by
  induction items with
  | nil => rfl
  | cons item items ih => rw [List.map_cons, String.join_cons, ih]; rfl

/-- What is printed of jobs is what is printed of each. -/
theorem out_concluded (tree : FileTree) (target : String) (jobs : List Job) :
    (concluded tree (.compile target "") jobs).out
      = String.join (jobs.map fun j => (concluded tree (.compile target "") [j]).out) := by
  have heach : (jobs.filter isPrinted).map (·.output)
      = jobs.flatMap fun j => ([j].filter isPrinted).map (·.output) := by
    induction jobs with
    | nil => rfl
    | cons j jobs ih =>
      rw [List.flatMap_cons, ← ih, ← List.map_append, ← List.filter_append, List.singleton_append]
  simp only [concluded_compile]
  rw [heach, join_flatMap]

/-- What is reported about jobs is what is reported about each. -/
theorem err_concluded (tree : FileTree) (target : String) (jobs : List Job) :
    (concluded tree (.compile target "") jobs).err
      = String.join (jobs.map fun j => (concluded tree (.compile target "") [j]).err) := by
  simp only [concluded_compile, reportText, List.map_flatMap, join_flatMap, List.flatMap_singleton]

theorem status_concluded (tree : FileTree) (target : String) (jobs : List Job) :
    (concluded tree (.compile target "") jobs).status = 1
      ↔ ∃ j ∈ jobs, (concluded tree (.compile target "") [j]).status = 1 := by
  simp [concluded_compile]

/-- Files that can be read have sources. -/
theorem exists_sources {tree : FileTree} {files : List String}
    (h : ∀ file ∈ files, ∃ source, tree.read file = .ok source) :
    ∃ sources : List (String × String),
      files = sources.map (·.1) ∧ ∀ source ∈ sources, tree.read source.1 = .ok source.2 := by
  induction files with
  | nil => exact ⟨[], rfl, fun _ h => absurd h List.not_mem_nil⟩
  | cons file files ih =>
    obtain ⟨source, hsource⟩ := h file List.mem_cons_self
    obtain ⟨sources, rfl, hsources⟩ := ih fun other hmem => h other (List.mem_cons_of_mem _ hmem)
    exact ⟨(file, source) :: sources, rfl, List.forall_mem_cons.mpr ⟨hsource, hsources⟩⟩

/-- **Compiling files together is compiling them one by one.** Without a folder and with at least
one file, what is printed is what is printed for each file alone, one after another, and the command
fails if and only if it fails on one of them. If it can be run at all, the same holds of what is
reported, exactly the modules about which nothing is reported are printed, and in whatever order the
workers go, they come to an end with the jobs from which this is concluded. If it cannot be run, it
says why once, as it does for each file alone. -/
theorem compile_files (tree : FileTree) (path target : String) {files : List String}
    (hfiles : files ≠ []) (hread : ∀ file ∈ files, ∃ source, tree.read file = .ok source) :
    let batch := outcomeOn tree ⟨.compile target "", path, files⟩
    let alone := fun file => outcomeOn tree ⟨.compile target "", path, [file]⟩
    batch.out = String.join (files.map fun file => (alone file).out) ∧
      (batch.status = 1 ↔ ∃ file ∈ files, (alone file).status = 1) ∧
      match settledOn tree path (.compile target "") with
      | .error text =>
        batch = Outcome.failed {} text ∧ ∀ file ∈ files, alone file = batch
      | .ok (config, task) =>
        batch.err = String.join (files.map fun file => (alone file).err) ∧
          ∃ jobs : List Job, files.map (Workers.resultOf tree config task) = jobs.map .ok ∧
            batch.out = String.join ((jobs.filter isPrinted).map (·.output)) ∧
            concluded tree task jobs = batch ∧
            (WellFounded fun next pool => Workers.Step tree config task pool next) ∧
            ∀ pool, Workers.Reaches tree config task files pool →
              (¬∃ next, Workers.Step tree config task pool next) →
                pool = jobs.map fun j => .finished (.ok j) := by
  intro batch alone
  cases hsettled : settledOn tree path (.compile target "") with
  | error text =>
    have hbatch : batch = Outcome.failed {} text := outcomeOn_of_error hsettled hfiles
    have hsame (file : String) : alone file = batch :=
      (outcomeOn_of_error hsettled (List.cons_ne_nil file [])).trans hbatch.symm
    obtain ⟨file, hfile⟩ := List.exists_mem_of_ne_nil _ hfiles
    refine ⟨?_, ?_, hbatch, fun file _ => hsame file⟩
    · simp only [hsame, hbatch]
      exact (join_map_empty files).symm
    · simp only [hsame, exists_and_right, and_iff_right (⟨file, hfile⟩ : ∃ file, file ∈ files)]
  | ok settled =>
    obtain ⟨config, task⟩ := settled
    obtain ⟨hconfig, htask⟩ := loaded_of_settledOn hsettled
    obtain ⟨used, rfl⟩ := exists_of_settleTarget htask
    obtain ⟨sources, rfl, hsources⟩ := exists_sources hread
    let jobs := sources.map (jobOf (.compile used "") config)
    have hbatch : batch = concluded tree (.compile used "") jobs :=
      outcomeOn_of_ok hsettled (fun h => hfiles (congrArg _ h)) hsources
    have hjob : ∀ source ∈ sources, alone source.1
        = concluded tree (.compile used "") [jobOf (.compile used "") config source] :=
      fun source hsource => outcomeOn_of_ok hsettled (List.cons_ne_nil source [])
        (List.forall_mem_singleton.mpr (hsources source hsource))
    have heach (told : Outcome → String) : (sources.map (·.1)).map (fun file => told (alone file))
        = jobs.map fun j => told (concluded tree (.compile used "") [j]) := by
      rw [List.map_map, List.map_map]
      exact List.map_congr_left fun source hsource => congrArg told (hjob source hsource)
    refine ⟨?_, ?_, ?_, jobs, Workers.map_resultOf hsources, ?_, hbatch.symm,
      Workers.wellFounded_step, fun pool hpool hend => ?_⟩
    · rw [heach, hbatch, out_concluded]
    · rw [hbatch, status_concluded]
      simp only [jobs, List.mem_map, exists_exists_and_eq_and]
      exact exists_congr fun source => and_congr_right fun h => by rw [hjob source h]
    · rw [heach, hbatch, err_concluded]
    · rw [hbatch, concluded_compile]
    · have hworkers := ((looks_loadConfig path tree).2 config hconfig).workers_pos
      rw [Workers.finished_of_reaches hworkers hpool hend, Workers.map_resultOf hsources,
        List.map_map]
      rfl

/-- The second module is printed; the first brings a message of its own. -/
theorem compile_files_mixed :
    let tree : FileTree :=
      ⟨["work"], [(["work", "good"], "name: Good"), (["work", "bad"], "errors: [old]")], [], .usual⟩
    (tree.read "bad" = .ok "errors: [old]" ∧ tree.read "good" = .ok "name: Good") ∧
      outcomeOn tree ⟨.compile "js" "", "", ["bad"]⟩ = ⟨"", "error: bad: old\n", 1⟩ ∧
      outcomeOn tree ⟨.compile "js" "", "", ["good"]⟩ = ⟨"", "", 0⟩ ∧
      let batch := outcomeOn tree ⟨.compile "js" "", "", ["bad", "good"]⟩
      batch.out = "" ∧ batch.err = "error: bad: old\n" ∧ batch.status = 1 := by
  intro tree
  obtain ⟨hbad, hgood, hsettled, haloneBad, haloneGood⟩ :
      tree.read "bad" = .ok "errors: [old]" ∧ tree.read "good" = .ok "name: Good" ∧
        settledOn tree "" (.compile "js" "") = .ok (.default, .compile "js" "") ∧
        outcomeOn tree ⟨.compile "js" "", "", ["bad"]⟩ = ⟨"", "error: bad: old\n", 1⟩ ∧
        outcomeOn tree ⟨.compile "js" "", "", ["good"]⟩ = ⟨"", "", 0⟩ := by
    decide +kernel
  have h := compile_files tree "" "js" (List.cons_ne_nil "bad" ["good"])
    (List.forall_mem_cons.mpr ⟨⟨_, hbad⟩, List.forall_mem_singleton.mpr ⟨_, hgood⟩⟩)
  rw [hsettled] at h
  obtain ⟨hout, hstatus, herr, -⟩ := h
  simp only [List.map_cons, List.map_nil, haloneBad, haloneGood] at hout herr
  have hfails := hstatus.mpr ⟨"bad", List.mem_cons_self, congrArg Outcome.status haloneBad⟩
  exact ⟨⟨hbad, hgood⟩, haloneBad, haloneGood, hout.trans (by decide), herr.trans (by decide),
    hfails⟩

/-- With no file the command fails, although it fails on no file. A configuration that cannot be
used is reported once, not once for each file. -/
theorem compile_files_not_additive :
    (let alone := fun file => outcomeOn ⟨[], [], [], .usual⟩ ⟨.compile "" "", "", [file]⟩
      let batch := outcomeOn ⟨[], [], [], .usual⟩ ⟨.compile "" "", "", []⟩
      ¬(batch.status = 1 ↔ ∃ file ∈ ([] : List String), (alone file).status = 1)) ∧
    (let tree : FileTree :=
        ⟨[], [(["bad.yaml"], "workers: -1"), (["a"], ""), (["b"], "")], [], .usual⟩
      let alone := fun file => outcomeOn tree ⟨.compile "" "", "bad.yaml", [file]⟩
      let batch := outcomeOn tree ⟨.compile "" "", "bad.yaml", ["a", "b"]⟩
      ¬batch.err = String.join (["a", "b"].map fun file => (alone file).err)) := by
  decide +kernel

end Derw.Command
