import Derw.Proofs.Command.Reporting
import Derw.Proofs.File.Places

/-!
# Proofs/Command/Folder — which programs are in the folder in the end

`compile` writes each program into the folder under the name of its module, with the target behind
it. A name is any text, and it is followed like a path. So in the end the last program written to a
place stands there, and all other files are as they were (`fileAt?_of_perform`). A run that
succeeds has nothing to report, so each module is written as it was read (`program?_jobOf`).

So nothing is lost if no name leads out of the folder and the modules of different files have
different names (`NamesApart`, `compile_into_folder`). Nothing sees to that: two modules may have
the same name, or one that leads elsewhere, and the command succeeds all the same.
-/

namespace Derw

/-! ## Stages -/

/-- A module that is left without messages has been left as it was. -/
theorem Module.adding_eq_self {m : Module} {found : List String}
    (h : (m.adding found).errors = []) : m.adding found = m := by
  refine m.adding_of_subset fun text htext => ?_
  have hmem := m.mem_errors_adding.mpr (.inr htext)
  rw [h] at hmem
  cases hmem

namespace Job

variable {j : Job} {target : String}

theorem run_of_module_none (h : j.module = none) (target : String) :
    j.run [.collisions, .names, .compile target] = j := by
  simp only [run, List.foldl_cons, List.foldl_nil, step, findCollisions, h, checkNames, compile]

/-- If nothing has been found in the end, the module is the same, and compiled. -/
theorem run_of_module_some {m : Module} (h : j.module = some m) (htarget : target.isEmpty = false)
    (hquiet : (j.run [.collisions, .names, .compile target]).hasFindings = false) :
    (j.run [.collisions, .names, .compile target]).module = some m ∧
      (j.run [.collisions, .names, .compile target]).output = m.compile (.ofName target) := by
  obtain ⟨found, hchecked⟩ :
      ∃ found, (j.run [.collisions, .names]).module = some (m.adding found) :=
    ⟨_, run_module h _⟩
  have hcompiled : j.run [.collisions, .names, .compile target]
      = { j.run [.collisions, .names] with
          module := some (m.adding found)
          output := (m.adding found).compile (.ofName target) } := by
    change (j.run [.collisions, .names]).compile target = _
    rw [compile, hchecked]
    dsimp only
    rw [htarget]
    rfl
  rw [hcompiled, hasFindings, Bool.or_eq_false_iff] at hquiet
  have hsame : m.adding found = m := Module.adding_eq_self (by simpa using hquiet.2)
  rw [hcompiled, hsame]
  exact ⟨rfl, rfl⟩

end Job

namespace Command

/-! ## Modules and their programs -/

/-- The module that a file is read as. -/
def decoded (config : Config) (source : String × String) : Option Module :=
  (Job.decode { file := source.1, source := source.2, config }).module

/-- The declarations of a module are in the document, even if its name is not. -/
theorem body_of_decoded {config : Config} {source : String × String} {m : Module}
    (h : decoded config source = some m) :
    ∃ document, Module.ofDocument source.2 = .ok document ∧ m.body = document.body := by
  rw [decoded, Job.decode] at h
  split at h
  next => cases h
  split at h
  next document hdocument =>
    refine ⟨document, hdocument, ?_⟩
    obtain rfl := Option.some.inj h
    split <;> rfl
  next => cases h

/-- Files with the same content have the same program. -/
theorem compile_eq_of_decoded {config : Config} {source other : String × String} {m m' : Module}
    (h : decoded config source = some m) (h' : decoded config other = some m')
    (heq : source.2 = other.2) (target : Script.Target) : m.compile target = m'.compile target := by
  obtain ⟨document, hdocument, hbody⟩ := body_of_decoded h
  obtain ⟨document', hdocument', hbody'⟩ := body_of_decoded h'
  rw [heq, hdocument'] at hdocument
  obtain rfl := Except.ok.inj hdocument
  rw [Module.compile, Module.compile, hbody, hbody']

theorem jobOf_compile (config : Config) (source : String × String) (used folder : String) :
    jobOf (.compile used folder) config source
      = (Job.decode { file := source.1, source := source.2, config }).run
          [.collisions, .names, .compile used] := rfl

/-- **A file about which nothing is reported is compiled as it was read.** -/
theorem program?_jobOf {config : Config} {source : String × String} {used folder : String}
    (hused : used.isEmpty = false)
    (h : reportLines (jobOf (.compile used folder) config source) = []) :
    program? (jobOf (.compile used folder) config source)
      = (decoded config source).map fun m => (m, m.compile (.ofName used)) := by
  have hquiet := (reportLines_eq_nil_iff _).mp h
  rw [program?, hquiet, if_neg Bool.false_ne_true, decoded]
  rw [jobOf_compile] at hquiet ⊢
  cases hread : (Job.decode { file := source.1, source := source.2, config }).module with
  | none =>
    rw [Job.run_of_module_none hread, hread, Option.map_none, Option.map_none]
  | some m =>
    obtain ⟨hmodule, houtput⟩ := Job.run_of_module_some hread hused hquiet
    rw [hmodule, houtput, Option.map_some, Option.map_some]

/-! ## Writing programs -/

theorem writeOutput_run (tree : FileTree) (path content : String) :
    (writeOutput FileTree.disk path content).run tree =
      match tree.makeFolders (Text.Path.parent path) with
      | .error e => (.error ("creating output directory: " ++ e.message), tree)
      | .ok made =>
        match made.write path content with
        | .error e => (.error ("writing " ++ path ++ ": " ++ e.message), made)
        | .ok written => (.ok (), written) := by
  rw [writeOutput, FileTree.disk]
  dsimp only
  rw [FileTree.run_change_bind]
  cases tree.makeFolders (Text.Path.parent path) with
  | error e => rfl
  | ok made =>
    dsimp only
    rw [FileTree.run_change_bind]
    cases made.write path content <;> rfl

/-- A program that has been written stands at the place of its path; no other file is changed. -/
theorem fileAt?_of_writeOutput {tree written : FileTree} {path content : String}
    (h : (writeOutput FileTree.disk path content).run tree = (.ok (), written)) :
    written.home = tree.home ∧ ∀ p, written.fileAt? p
      = if p = tree.placeOf path then some content else tree.fileAt? p := by
  rw [writeOutput_run] at h
  cases hmade : tree.makeFolders (Text.Path.parent path) with
  | error e => rw [hmade] at h; cases h
  | ok made =>
    rw [hmade] at h
    cases hwrite : made.write path content with
    | error e => simp only [hwrite] at h; cases h
    | ok changed =>
      simp only [hwrite] at h
      obtain rfl : changed = written := (Prod.mk.inj h).2
      obtain ⟨hhome, hfiles⟩ := FileTree.files_of_makeFolders hmade
      obtain ⟨hhome', hplaces⟩ := FileTree.fileAt?_of_write hwrite
      refine ⟨hhome'.trans hhome, fun p => ?_⟩
      rw [hplaces, FileTree.placeOf_congr hhome, FileTree.fileAt?, FileTree.fileAt?, hfiles]

/-- Files written one after the other: the last one at each place stands there. -/
theorem fileAt?_of_perform {o : Outcome} {writes : List (String × String)} {tree : FileTree}
    (h : ((perform FileTree.disk o (writes.map fun w => .write w.1 w.2)).run tree).1.status = 0)
    (p : Position) :
    (((perform FileTree.disk o (writes.map fun w => .write w.1 w.2)).run tree).2).fileAt? p
      = ((writes.map fun w => (tree.placeOf w.1, w.2)).reverse.lookup p).or (tree.fileAt? p) := by
  induction writes generalizing o tree with
  | nil => rfl
  | cons w writes ih =>
    rw [List.map_cons, perform_write] at h ⊢
    cases hwritten : (writeOutput FileTree.disk w.1 w.2).run tree with
    | mk result written =>
      rw [hwritten] at h
      cases result with
      | error text => cases h
      | ok done =>
        obtain ⟨hhome, hfiles⟩ := fileAt?_of_writeOutput hwritten
        refine (ih h).trans ?_
        simp only [FileTree.placeOf_congr hhome]
        rw [List.map_cons, List.reverse_cons, List.lookup_append, Option.or_assoc, hfiles,
          List.lookup_cons, List.lookup_nil]
        by_cases hp : p = tree.placeOf w.1
        · rw [if_pos hp, beq_iff_eq.mpr hp, Option.some_or]
        · rw [if_neg hp, beq_eq_false_iff_ne.mpr hp, Option.none_or]

/-! ## A run that succeeds -/

/-- The tree that a command leaves. -/
def treeAfter (tree : FileTree) (i : Invocation) : FileTree :=
  ((runInvocation FileTree.disk i).run tree).2

theorem of_status_reported {jobs : List Job} {o : Outcome} (h : (reported jobs o).status = 0) :
    o.status = 0 ∧ ∀ j ∈ jobs, reportLines j = [] := by
  rw [reported] at h
  split at h
  next hfailed => exact absurd h (by simpa using hfailed)
  next hdone =>
    refine ⟨by simpa using hdone, ?_⟩
    rw [← List.flatMap_eq_nil_iff, ← List.isEmpty_iff]
    by_contra hlines
    dsimp only at h
    rw [if_neg hlines] at h
    cases h

theorem treeAfter_of_ok {tree : FileTree} {path : String} {task settled : Task} {config : Config}
    (h : settledOn tree path task = .ok (config, settled)) {sources : List (String × String)}
    (hne : sources ≠ []) (hread : ∀ source ∈ sources, tree.read source.1 = .ok source.2) :
    treeAfter tree ⟨task, path, sources.map (·.1)⟩
      = (acted tree settled (sources.map (jobOf settled config))).2 := by
  rw [treeAfter, runInvocation_run tree path task (mt List.map_eq_nil_iff.mp hne), h]
  dsimp only
  rw [readSources_run tree hread]
  rfl

/-- A command that succeeds has nothing to report, and it has done all it had to do. -/
theorem acted_of_status {tree : FileTree} {task : Task} {path : String}
    {sources : List (String × String)}
    (hread : ∀ source ∈ sources, tree.read source.1 = .ok source.2)
    (h : (outcomeOn tree ⟨task, path, sources.map (·.1)⟩).status = 0) :
    ∃ config settled, settledOn tree path task = .ok (config, settled) ∧
      (∀ source ∈ sources, reportLines (jobOf settled config source) = []) ∧
      (acted tree settled (sources.map (jobOf settled config))).1.status = 0 ∧
      treeAfter tree ⟨task, path, sources.map (·.1)⟩
        = (acted tree settled (sources.map (jobOf settled config))).2 := by
  have hne : sources ≠ [] := by
    rintro rfl
    cases h
  cases hsettled : settledOn tree path task with
  | error text =>
    rw [outcomeOn_of_error hsettled (mt List.map_eq_nil_iff.mp hne)] at h
    cases h
  | ok settled =>
    obtain ⟨config, settled⟩ := settled
    rw [outcomeOn_of_ok hsettled hne hread, concluded_eq] at h
    obtain ⟨hacted, hquiet⟩ := of_status_reported h
    exact ⟨config, settled, rfl, fun source hsource => hquiet _ (List.mem_map_of_mem hsource),
      hacted, treeAfter_of_ok hsettled hne hread⟩

theorem mem_targets_of_settledOn {tree : FileTree} {path target folder folder' used : String}
    {config : Config}
    (h : settledOn tree path (.compile target folder) = .ok (config, .compile used folder')) :
    used ∈ Config.targets := by
  obtain ⟨hconfig, hsettled⟩ := loaded_of_settledOn h
  rw [settleTarget] at hsettled
  split at hsettled
  next =>
    obtain ⟨rfl, -⟩ := Task.compile.inj (Except.ok.inj hsettled)
    exact ((looks_loadConfig path tree).2 config hconfig).target_mem
  split at hsettled
  next htarget =>
    obtain ⟨rfl, -⟩ := Task.compile.inj (Except.ok.inj hsettled)
    exact List.contains_iff_mem.mp htarget
  next => cases hsettled

/-! ## Names of programs -/

/-- The name of a module's program, by components. -/
def fileName (used : String) (m : Module) : List String :=
  FileTree.components (m.name ++ "." ++ used)

/-- Whatever a module is called, the name of its program ends in a component that is a name. -/
theorem follow_fileName_ne_nil {used : String} (hused : used ∈ Config.targets) (m : Module)
    (p : Position) : Position.follow p (fileName used m) ≠ [] := by
  obtain ⟨hlength, hplain⟩ :
      used.toList.length = 2 ∧ ∀ c ∈ '.' :: used.toList, (c == '/') = false := by
    rcases List.mem_pair.mp hused with rfl | rfl <;> simp
  obtain ⟨ws, w, hw⟩ := Text.splitWhere_append_of_not hplain m.name.toList
  have hname : fileName used m
      = ws.map String.ofList ++ [String.ofList (w ++ '.' :: used.toList)] := by
    rw [fileName, FileTree.components, String.toList_append, String.toList_append,
      List.append_assoc]
    exact (congrArg _ hw).trans List.map_append
  -- with its target behind it, the last component is too long for `.` and `..`
  have hlong : 3 ≤ (w ++ '.' :: used.toList).length := by simp [hlength]
  rw [hname, Position.follow_append]
  change Position.step _ _ ≠ []
  rw [Text.Path.step_ofList]
  generalize w ++ '.' :: used.toList = last at hlong
  have hstay : ¬(last == [] || last == ['.']) = true := by
    rintro h
    rcases (Bool.or_eq_true ..).mp h with h | h <;> simp [beq_iff_eq.mp h] at hlong
  have hup : ¬(last == ['.', '.']) = true := by
    rintro h
    simp [beq_iff_eq.mp h] at hlong
  rw [if_neg hstay, if_neg hup]
  exact List.append_ne_nil_of_right_ne_nil _ (List.cons_ne_nil _ _)

/-- No module has a name that leads out of a folder, and in the folder the names of modules of
different files lead to different places. -/
structure NamesApart (tree : FileTree) (config : Config) (used : String)
    (sources : List (String × String)) : Prop where
  inside : ∀ source ∈ sources, ∀ m ∈ decoded config source,
    Position.climbs 0 (fileName used m) = false
  apart : ∀ source ∈ sources, ∀ m ∈ decoded config source,
    ∀ other ∈ sources, ∀ m' ∈ decoded config other,
      Position.follow [] (fileName used m) = Position.follow [] (fileName used m') →
        tree.placeOf source.1 = tree.placeOf other.1

/-- Where the program of a module is written. -/
def programPlace (tree : FileTree) (folder used : String) (m : Module) : Position :=
  Position.follow (tree.placeOf folder) (fileName used m)

/-- The programs of modules, with their places. -/
def programs (tree : FileTree) (folder used : String) (modules : List Module) :
    List (Position × String) :=
  modules.map fun m => (programPlace tree folder used m, m.compile (.ofName used))

section

variable {tree : FileTree} {config : Config} {folder used : String}
variable {sources : List (String × String)}

theorem actions_into_folder (hfolder : folder ≠ "") (hused : used.isEmpty = false)
    (hquiet : ∀ source ∈ sources, reportLines (jobOf (.compile used folder) config source) = []) :
    actions (.compile used folder) used (sources.map (jobOf (.compile used folder) config))
      = ((sources.filterMap (decoded config)).map fun m =>
          (Text.Path.join folder (m.name ++ "." ++ used), m.compile (.ofName used))).map
        fun w => .write w.1 w.2 := by
  have hsome : folder.isEmpty = false := by simpa using hfolder
  have hprograms : (sources.map (jobOf (.compile used folder) config)).filterMap program?
      = (sources.filterMap (decoded config)).map fun m => (m, m.compile (.ofName used)) := by
    rw [List.filterMap_map, List.map_filterMap]
    exact List.filterMap_congr fun source hsource => program?_jobOf hused (hquiet source hsource)
  rw [actions]
  simp only [hsome, Bool.false_eq_true, if_false]
  rw [hprograms, List.map_map, List.map_map]
  rfl

theorem programPlace_eq {m : Module} (h : Position.climbs 0 (fileName used m) = false) :
    programPlace tree folder used m
      = tree.placeOf folder ++ Position.follow [] (fileName used m) := by
  have hinside := Position.follow_of_not_climbs (tree.placeOf folder) [] h
  rwa [List.append_nil] at hinside

theorem lookup_eq_some {α : Type} {entries : List (Position × α)} {p : Position} {a : α}
    (hmem : (p, a) ∈ entries) (h : ∀ b, (p, b) ∈ entries → b = a) : entries.lookup p = some a := by
  cases hlookup : entries.lookup p with
  | none =>
    have := List.lookup_eq_none_iff.mp hlookup (p, a) hmem
    simp at this
  | some b =>
    obtain ⟨before, later, rfl, -⟩ := List.lookup_eq_some_iff.mp hlookup
    rw [h b (by simp)]

namespace NamesApart

variable {source other : String × String} {m m' : Module}

/-- Two programs have the same place only if their files do. -/
theorem placeOf_eq (h : NamesApart tree config used sources) (hsource : source ∈ sources)
    (hm : m ∈ decoded config source) (hother : other ∈ sources) (hm' : m' ∈ decoded config other)
    (heq : programPlace tree folder used m = programPlace tree folder used m') :
    tree.placeOf source.1 = tree.placeOf other.1 := by
  rw [programPlace_eq (h.inside source hsource m hm),
    programPlace_eq (h.inside other hother m' hm')] at heq
  exact h.apart source hsource m hm other hother m' hm' (List.append_cancel_left heq)

/-- No program is lost to another one. -/
theorem lookup_programs (h : NamesApart tree config used sources)
    (hread : ∀ source ∈ sources, tree.read source.1 = .ok source.2) (hsource : source ∈ sources)
    (hm : m ∈ decoded config source) :
    (programs tree folder used (sources.filterMap (decoded config))).reverse.lookup
        (programPlace tree folder used m) = some (m.compile (.ofName used)) := by
  refine lookup_eq_some (List.mem_reverse.mpr (List.mem_map.mpr
    ⟨m, List.mem_filterMap.mpr ⟨source, hsource, hm⟩, rfl⟩)) fun text htext => ?_
  obtain ⟨m', hmem, hprogram⟩ := List.mem_map.mp (List.mem_reverse.mp htext)
  obtain ⟨other, hother, hm'⟩ := List.mem_filterMap.mp hmem
  obtain ⟨hplace, rfl⟩ := Prod.mk.inj hprogram
  have hfile := h.placeOf_eq hother hm' hsource hm hplace
  have hcontent : other.2 = source.2 := by
    have hfound := FileTree.fileAt?_of_read (hread other hother)
    rw [hfile, FileTree.fileAt?_of_read (hread source hsource)] at hfound
    exact (Option.some.inj hfound).symm
  exact compile_eq_of_decoded hm' hm hcontent _

end NamesApart

/-- **A folder keeps every program whose name is its own.** After a run of `compile` with a folder
that succeeds, each place holds the last program that was written there, and what no program was
written to is as before. Each file that was read as a module has its program in a file of its own
inside the folder, if no name of a module leads out of the folder and no two files have modules
whose names lead to the same place. -/
theorem compile_into_folder {path target : String} (hfolder : folder ≠ "")
    (hread : ∀ source ∈ sources, tree.read source.1 = .ok source.2)
    (hstatus : (outcomeOn tree ⟨.compile target folder, path, sources.map (·.1)⟩).status = 0) :
    ∃ config used,
      settledOn tree path (.compile target folder) = .ok (config, .compile used folder) ∧
      let after := treeAfter tree ⟨.compile target folder, path, sources.map (·.1)⟩
      (∀ p, after.fileAt? p
        = ((programs tree folder used (sources.filterMap (decoded config))).reverse.lookup p).or
            (tree.fileAt? p)) ∧
      (NamesApart tree config used sources →
        ∀ source ∈ sources, ∀ m ∈ decoded config source,
          let place := programPlace tree folder used m
          tree.placeOf folder <+: place ∧ place ≠ tree.placeOf folder ∧
            after.fileAt? place = some (m.compile (.ofName used)) ∧
            ∀ other ∈ sources, ∀ m' ∈ decoded config other,
              tree.placeOf other.1 ≠ tree.placeOf source.1 →
                programPlace tree folder used m' ≠ place) := by
  obtain ⟨config, settled, hsettled, hquiet, hacted, hafter⟩ := acted_of_status hread hstatus
  obtain ⟨used, rfl⟩ := exists_of_settleTarget (loaded_of_settledOn hsettled).2
  have htarget := mem_targets_of_settledOn hsettled
  have hused : used.isEmpty = false := by
    rcases List.mem_pair.mp htarget with rfl | rfl <;> decide
  refine ⟨config, used, hsettled, ?_⟩
  intro after
  have hfiles (p : Position) : after.fileAt? p
      = ((programs tree folder used (sources.filterMap (decoded config))).reverse.lookup p).or
          (tree.fileAt? p) := by
    rw [acted, targetOf, actions_into_folder hfolder hused hquiet] at hacted
    rw [show after = _ from hafter, acted, targetOf, actions_into_folder hfolder hused hquiet,
      fileAt?_of_perform hacted, List.map_map]
    simp only [Function.comp_def, FileTree.placeOf_join tree hfolder]
    rfl
  refine ⟨hfiles, fun hapart source hsource m hm => ?_⟩
  intro place
  have hplace : place = tree.placeOf folder ++ Position.follow [] (fileName used m) :=
    programPlace_eq (hapart.inside source hsource m hm)
  refine ⟨hplace ▸ List.prefix_append _ _, fun heq => ?_, ?_, fun other hother m' hm' hne heq => ?_⟩
  · rw [hplace] at heq
    exact follow_fileName_ne_nil htarget m [] (List.append_right_eq_self.mp heq)
  · rw [hfiles, hapart.lookup_programs hread hsource hm, Option.some_or]
  · exact hne (hapart.placeOf_eq hother hm' hsource hm heq)

end

/-- Two modules called `Main`, one of them in a folder of its own. -/
theorem compile_into_folder_parts :
    let tree : FileTree :=
      ⟨["work"], [(["work", "a"], "name: Main"), (["work", "b"], "name: parts/Main")], [], .usual⟩
    let i : Invocation := ⟨.compile "js" "out", "", ["a", "b"]⟩
    (tree.read "a" = .ok "name: Main" ∧ tree.read "b" = .ok "name: parts/Main") ∧
      (outcomeOn tree i).status = 0 ∧
      (treeAfter tree i).fileAt? ["work", "out", "Main.js"] = some "" ∧
      (treeAfter tree i).fileAt? ["work", "out", "parts", "Main.js"] = some "" := by
  intro tree i
  let sources : List (String × String) := [("a", "name: Main"), ("b", "name: parts/Main")]
  -- the name of a module, which tells its place, and its program
  let told := fun source => (decoded .default source).map fun m => (m.name, m.compile .javaScript)
  obtain ⟨hfirst, hsecond, hsettled, hstatus, hmain, hparts⟩ :
      tree.read "a" = .ok "name: Main" ∧ tree.read "b" = .ok "name: parts/Main" ∧
        settledOn tree "" (.compile "js" "out") = .ok (.default, .compile "js" "out") ∧
        (outcomeOn tree i).status = 0 ∧ told ("a", "name: Main") = some ("Main", "") ∧
        told ("b", "name: parts/Main") = some ("parts/Main", "") := by
    decide +kernel
  have hread : ∀ source ∈ sources, tree.read source.1 = .ok source.2 :=
    List.forall_mem_cons.mpr ⟨hfirst, List.forall_mem_singleton.mpr hsecond⟩
  obtain ⟨main, hmain, htoldMain⟩ := Option.map_eq_some_iff.mp hmain
  obtain ⟨parts, hparts, htoldParts⟩ := Option.map_eq_some_iff.mp hparts
  obtain ⟨hmainName, hmainText⟩ := Prod.mk.inj htoldMain
  obtain ⟨hpartsName, hpartsText⟩ := Prod.mk.inj htoldParts
  have hapart : NamesApart tree .default "js" sources := by
    constructor <;>
    · simp only [sources, List.forall_mem_cons, hmain, hparts, Option.mem_some_iff, forall_eq',
        fileName, hmainName, hpartsName]
      decide +kernel
  obtain ⟨config, used, hused, -, hkeeps⟩ := compile_into_folder (by decide) hread hstatus
  obtain ⟨rfl, htask⟩ := Prod.mk.inj (Except.ok.inj (hsettled.symm.trans hused))
  obtain ⟨rfl, -⟩ := Task.compile.inj htask
  obtain ⟨-, -, hA, -⟩ := hkeeps hapart ("a", "name: Main") (by decide) main hmain
  obtain ⟨-, -, hB, -⟩ := hkeeps hapart ("b", "name: parts/Main") (by decide) parts hparts
  rw [programPlace, fileName, hmainName] at hA
  rw [programPlace, fileName, hpartsName] at hB
  exact ⟨⟨hfirst, hsecond⟩, hstatus, hA.trans (congrArg some hmainText),
    hB.trans (congrArg some hpartsText)⟩

/-- Two modules of one name share one file. A name that leads out of the folder is written there,
and nothing into the folder. Either way the command succeeds. -/
theorem not_kept_in_folder :
    (let tree : FileTree :=
        ⟨["work"], [(["work", "a"], "name: Main"), (["work", "b"], "name: Main")], [], .usual⟩
      let i : Invocation := ⟨.compile "js" "out", "", ["a", "b"]⟩
      (decoded .default ("a", "name: Main")).isSome = true ∧
        (decoded .default ("b", "name: Main")).isSome = true ∧ (outcomeOn tree i).status = 0 ∧
        (treeAfter tree i).files.map (·.1)
          = [["work", "a"], ["work", "b"], ["work", "out", "Main.js"]]) ∧
    (let tree : FileTree := ⟨["work"], [(["work", "a"], "name: ../Main")], [], .usual⟩
      let i : Invocation := ⟨.compile "js" "out", "", ["a"]⟩
      (decoded .default ("a", "name: ../Main")).isSome = true ∧ (outcomeOn tree i).status = 0 ∧
        (treeAfter tree i).files.map (·.1) = [["work", "a"], ["work", "Main.js"]]) := by
  decide +kernel

end Command

end Derw
