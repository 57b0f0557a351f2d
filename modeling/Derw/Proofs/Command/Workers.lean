import Derw.Command.Basic
import Derw.File.Tree
import Mathlib.Data.Set.List
import Mathlib.Logic.Relation

/-!
# Proofs/Command/Workers — several workers on several files

Files are worked on at once, by as many workers as the configuration allows. What the workers have
in front of them is a list with one place for each file (`Place`). A worker takes up the next file
that waits, reads it, runs the stages one by one, and leaves the job in the file's place; between
any two of these steps the others may take any number of theirs (`Step`).

No step changes what will stand in a place in the end (`Place.outcome`), a step is possible as long
as not all places are finished (`exists_step`), and every step leaves less to do
(`toDo_lt_of_step`). So the workers come to an end, in whatever order they run, and what they
leave behind is the same each time (`finished_of_reaches`).
-/

namespace Derw.Command.Workers

/-- Where the work on a file stands. -/
inductive Place
  | waiting (file : String)
  | taken (file : String)
  | working (job : Job) (left : List Stage)
  | finished (result : Except FileError Job)

/-- Whether a worker is at the place. -/
def Place.isBusy : Place → Bool
  | taken _ | working .. => true
  | waiting _ | finished _ => false

variable (tree : FileTree) (config : Config) (task : Task)

/-- What becomes of a file: its job, unless it cannot be read. -/
def resultOf (file : String) : Except FileError Job :=
  (tree.read file).map fun source => jobOf task config (file, source)

variable {tree config task} in
/-- The results of files that can be read are their jobs. -/
theorem map_resultOf {sources : List (String × String)}
    (h : ∀ source ∈ sources, tree.read source.1 = .ok source.2) :
    (sources.map (·.1)).map (resultOf tree config task)
      = (sources.map (jobOf task config)).map .ok := by
  rw [List.map_map, List.map_map]
  exact List.map_congr_left fun source hsource => congrArg (Except.map _) (h source hsource)

/-- What a worker does next at its place. -/
inductive Place.Step : Place → Place → Prop
  | read {file source : String} (h : tree.read file = .ok source) :
      Step (.taken file) (.working { file, source, config } (stagesOf task))
  | fail {file : String} {e : FileError} (h : tree.read file = .error e) :
      Step (.taken file) (.finished (.error e))
  | stage (job : Job) (stage : Stage) (left : List Stage) :
      Step (.working job (stage :: left)) (.working (job.step stage) left)
  | finish (job : Job) : Step (.working job []) (.finished (.ok job))

/-- One step of one worker: a free one takes up the first file that waits, or a busy one goes on. -/
inductive Step : List Place → List Place → Prop
  | take {before after : List Place} {file : String}
      (hfirst : ∀ p ∈ before, ∀ other, p ≠ .waiting other)
      (hfree : ((before ++ .waiting file :: after).countP Place.isBusy : Int) < config.workers) :
      Step (before ++ .waiting file :: after) (before ++ .taken file :: after)
  | work {before after : List Place} {p q : Place} (h : p.Step tree config task q) :
      Step (before ++ p :: after) (before ++ q :: after)

/-- The places after any number of steps from when all files wait. -/
abbrev Reaches (files : List String) (pool : List Place) : Prop :=
  Relation.ReflTransGen (Step tree config task) (files.map .waiting) pool

/-! ## What does not change -/

/-- What a place holds when the work on its file is finished. -/
def Place.outcome : Place → Except FileError Job
  | waiting file | taken file => resultOf tree config task file
  | working job left => .ok (job.run left)
  | finished result => result

variable {tree config task}

theorem Place.Step.outcome_eq {p q : Place} (h : p.Step tree config task q) :
    q.outcome tree config task = p.outcome tree config task := by
  cases h with
  | read h => rw [outcome, outcome, resultOf, h]; rfl
  | fail h => rw [outcome, outcome, resultOf, h]; rfl
  | stage job stage left => rfl
  | finish job => rfl

theorem Step.map_outcome {pool next : List Place} (h : Step tree config task pool next) :
    next.map (·.outcome tree config task) = pool.map (·.outcome tree config task) := by
  cases h with
  | take => rw [List.map_append, List.map_append]; rfl
  | work h =>
    rw [List.map_append, List.map_append, List.map_cons, List.map_cons, h.outcome_eq]

/-- At any time, the places are on the way to the results of their files. -/
theorem map_outcome_of_reaches {files : List String} {pool : List Place}
    (h : Reaches tree config task files pool) :
    pool.map (·.outcome tree config task) = files.map (resultOf tree config task) := by
  induction h with
  | refl => rw [List.map_map]; rfl
  | tail _ hstep ih => exact hstep.map_outcome.trans ih

/-! ## Progress -/

theorem Place.exists_step_of_isBusy {p : Place} (h : p.isBusy = true) :
    ∃ q, p.Step tree config task q := by
  match p, h with
  | .taken file, _ =>
    cases hread : tree.read file with
    | ok source => exact ⟨_, .read hread⟩
    | error e => exact ⟨_, .fail hread⟩
  | .working job [], _ => exact ⟨_, .finish job⟩
  | .working job (stage :: left), _ => exact ⟨_, .stage job stage left⟩

/-- A place where no worker is and nobody waits is finished. -/
theorem Place.eq_finished {p : Place} (hidle : p.isBusy = false) (h : ∀ file, p ≠ .waiting file) :
    ∃ result, p = .finished result := by
  match p, hidle with
  | .waiting file, _ => exact absurd rfl (h file)
  | .finished result, _ => exact ⟨result, rfl⟩

/-- The first place that waits, if one does. -/
theorem exists_first_waiting {pool : List Place} {file : String} (h : .waiting file ∈ pool) :
    ∃ before first after, pool = before ++ .waiting first :: after ∧
      ∀ p ∈ before, ∀ other, p ≠ .waiting other := by
  induction pool with
  | nil => exact absurd h List.not_mem_nil
  | cons p pool ih =>
    by_cases hp : ∃ first, p = .waiting first
    · obtain ⟨first, rfl⟩ := hp
      exact ⟨[], first, pool, rfl, fun p hp => absurd hp List.not_mem_nil⟩
    · have hrest : .waiting file ∈ pool :=
        (List.mem_cons.mp h).resolve_left fun heq => hp ⟨file, heq.symm⟩
      obtain ⟨before, first, after, rfl, hbefore⟩ := ih hrest
      refine ⟨p :: before, first, after, rfl, fun q hq other heq => ?_⟩
      rcases List.mem_cons.mp hq with rfl | hq
      · exact hp ⟨other, heq⟩
      · exact hbefore q hq other heq

/-- **No file is left behind**: with a worker at all, there is a next step until every place is
finished. -/
theorem exists_step (hworkers : 0 < config.workers) (pool : List Place) :
    (∃ next, Step tree config task pool next) ∨
      ∃ results : List (Except FileError Job), pool = results.map .finished := by
  by_cases hbusy : ∃ p ∈ pool, p.isBusy = true
  · obtain ⟨p, hp, hbusy⟩ := hbusy
    obtain ⟨before, after, rfl⟩ := List.append_of_mem hp
    obtain ⟨q, hq⟩ := Place.exists_step_of_isBusy hbusy
    exact .inl ⟨_, .work hq⟩
  have hidle : ∀ p ∈ pool, p.isBusy = false := fun p hp =>
    Bool.eq_false_iff.mpr fun h => hbusy ⟨p, hp, h⟩
  by_cases hwaiting : ∃ file, .waiting file ∈ pool
  · -- nobody is busy, so whoever is there can take the first file that waits
    obtain ⟨file, hfile⟩ := hwaiting
    obtain ⟨before, first, after, rfl, hbefore⟩ := exists_first_waiting hfile
    have hcount : (before ++ .waiting first :: after).countP Place.isBusy = 0 :=
      List.countP_eq_zero.mpr fun p hp => by rw [hidle p hp]; decide
    exact .inl ⟨_, .take hbefore (by rw [hcount]; exact hworkers)⟩
  · have hfinished : ∀ p ∈ pool, p ∈ Set.range Place.finished := fun p hp =>
      (Place.eq_finished (hidle p hp) fun file h => hwaiting ⟨file, h ▸ hp⟩).imp fun _ h => h.symm
    obtain ⟨results, h⟩ : pool ∈ Set.range (List.map Place.finished) := by
      rw [Set.range_list_map]
      exact hfinished
    exact .inr ⟨results, h.symm⟩

/-! ## The end -/

/-- How many steps are left at a place. -/
def Place.toDo (task : Task) : Place → Nat
  | waiting _ => (stagesOf task).length + 3
  | taken _ => (stagesOf task).length + 2
  | working _ left => left.length + 1
  | finished _ => 0

theorem Place.Step.toDo_lt {p q : Place} (h : p.Step tree config task q) :
    q.toDo task < p.toDo task := by
  cases h <;> simp [toDo]

/-- How many steps are left at all places. -/
def toDo (task : Task) : List Place → Nat
  | [] => 0
  | p :: pool => p.toDo task + toDo task pool

theorem toDo_append (before after : List Place) :
    toDo task (before ++ after) = toDo task before + toDo task after := by
  induction before with
  | nil => rw [List.nil_append, toDo, Nat.zero_add]
  | cons p before ih => rw [List.cons_append, toDo, toDo, ih, Nat.add_assoc]

theorem toDo_lt_of_step {pool next : List Place} (h : Step tree config task pool next) :
    toDo task next < toDo task pool := by
  cases h with
  | take =>
    simp only [toDo_append, toDo, Place.toDo]
    omega
  | work h =>
    have := h.toDo_lt
    simp only [toDo_append, toDo]
    omega

/-- **The workers come to an end**: no sequence of steps goes on forever. -/
theorem wellFounded_step : WellFounded fun next pool => Step tree config task pool next :=
  Subrelation.wf toDo_lt_of_step (measure (toDo task)).wf

/-- **Every order of steps ends with the results of the files, each in its place.** -/
theorem finished_of_reaches (hworkers : 0 < config.workers) {files : List String}
    {pool : List Place} (h : Reaches tree config task files pool)
    (hend : ¬∃ next, Step tree config task pool next) :
    pool = (files.map (resultOf tree config task)).map .finished := by
  obtain ⟨results, rfl⟩ := (exists_step hworkers pool).resolve_left hend
  have hresults := map_outcome_of_reaches h
  rw [List.map_map] at hresults
  rw [← hresults]
  simp [Place.outcome, Function.comp_def]

end Derw.Command.Workers
