import Derw.Job.Basic
import Derw.Proofs.Name.Collision

/-!
# Proofs/Job/Growth — what becomes of a module while stages run

Once a job has a module, a stage can do one thing to it: add the messages it finds, as far as the
module does not have them (`Module.adding`). What a stage finds depends on the configuration and on
the declarations (`Stage.found`), and no stage changes either. So a run adds what all its stages
find, taken together (`Job.run_module`), and to find something twice adds nothing.
-/

namespace Derw

/-! ## Adding messages -/

/-- The module with those of the messages that it does not have yet, each once. -/
def Module.adding (m : Module) (found : List String) : Module :=
  m.withErrors ((Text.distinct found).filter fun text => !m.errors.contains text)

namespace Module

variable (m : Module)

theorem adding_of_subset {found : List String} (h : ∀ text ∈ found, text ∈ m.errors) :
    m.adding found = m := by
  have hnone : (Text.distinct found).filter (fun text => !m.errors.contains text) = [] := by
    refine List.filter_eq_nil_iff.mpr fun text htext => ?_
    simpa using h text (Text.mem_distinct.mp htext)
  rw [adding, hnone, withErrors, List.append_nil]

theorem adding_nil : m.adding [] = m := m.adding_of_subset fun _ h => absurd h List.not_mem_nil

theorem mem_errors_adding {found : List String} {text : String} :
    text ∈ (m.adding found).errors ↔ text ∈ m.errors ∨ text ∈ found := by
  rw [adding, withErrors, List.mem_append, List.mem_filter, Text.mem_distinct]
  by_cases h : text ∈ m.errors <;> simp [h]

/-- Adding some messages and then others adds all of them. -/
theorem adding_adding (found more : List String) :
    (m.adding found).adding more = m.adding (found ++ more) := by
  have hmore : (Text.distinct more).filter (fun text => !(m.adding found).errors.contains text)
      = ((Text.distinct more).filter fun text => !found.contains text).filter
          fun text => !m.errors.contains text := by
    rw [List.filter_filter]
    refine List.filter_congr fun text _ => ?_
    rw [← Bool.not_or, Bool.not_inj_iff, Bool.eq_iff_iff, Bool.or_eq_true, List.contains_iff_mem,
      List.contains_iff_mem, List.contains_iff_mem]
    exact m.mem_errors_adding
  rw [adding, hmore, adding, adding, withErrors, withErrors, withErrors, Text.distinct_append,
    List.filter_append, List.append_assoc]

end Module

/-! ## Stages -/

/-- What a stage finds to say about declarations. -/
def Stage.found (config : Config) (body : List Decl) : Stage → List String
  | .collisions =>
    if config.reportsCollisions then (Name.collisions body).map Name.collisionMessage else []
  | .names =>
    match Name.Checker.ofPatterns config.suggestionDistance config.knownGlobals with
    | .ok checker => body.flatMap (checker.declMessages (Name.topLevelNames body))
    | .error _ => []
  | .classify | .parse _ | .decode | .compile _ => []

namespace Job

variable {j : Job} {m : Module}

theorem step_config (j : Job) (stage : Stage) : (j.step stage).config = j.config := by
  cases stage with
  | classify =>
    rw [step, classify]
    split <;> rfl
  | parse parser =>
    cases parser with
    | none => rfl
    | some p =>
      rw [step, parse]
      split
      next => split <;> rfl
      next => rfl
  | decode =>
    rw [step, decode]
    split
    next => rfl
    next => split <;> rfl
  | collisions =>
    rw [step, findCollisions]
    split
    next => rfl
    next =>
      dsimp only
      split <;> rfl
  | names =>
    rw [step, checkNames]
    split
    next => rfl
    next => split <;> rfl
  | compile target =>
    rw [step, compile]
    split <;> rfl

/-- A stage adds what it finds, and does nothing else to the module. -/
theorem step_module (h : j.module = some m) (stage : Stage) :
    (j.step stage).module = some (m.adding (stage.found j.config m.body)) := by
  cases stage with
  | classify =>
    rw [Stage.found, m.adding_nil, step, classify]
    split <;> exact h
  | parse parser =>
    have hwants : (j.report (j.blocks.filterMap unknownBlock?)).wantsParser = false := by
      rw [wantsParser, report, h]
      rfl
    rw [Stage.found, m.adding_nil]
    cases parser with
    | none => exact h
    | some p =>
      rw [step, parse]
      rw [hwants]
      exact h
  | decode => rw [Stage.found, m.adding_nil, step, decode, h]; exact h
  | collisions =>
    rw [Stage.found, step, findCollisions, h]
    dsimp only
    split
    next => rfl
    next => rw [m.adding_nil]
  | names =>
    rw [Stage.found, step, checkNames, h]
    dsimp only
    cases Name.Checker.ofPatterns j.config.suggestionDistance j.config.knownGlobals with
    | ok checker => rfl
    | error pattern => exact h.trans (congrArg some m.adding_nil.symm)
  | compile target => rw [Stage.found, m.adding_nil, step, compile, h]

theorem run_append (j : Job) (earlier later : List Stage) :
    j.run (earlier ++ later) = (j.run earlier).run later := List.foldl_append

theorem run_config (j : Job) (stages : List Stage) : (j.run stages).config = j.config := by
  induction stages generalizing j with
  | nil => rfl
  | cons stage stages ih => exact (ih (j.step stage)).trans (j.step_config stage)

/-- **A run adds what its stages find**, in the order of the stages. -/
theorem run_module (h : j.module = some m) (stages : List Stage) :
    (j.run stages).module = some (m.adding (stages.flatMap (·.found j.config m.body))) := by
  induction stages generalizing j m with
  | nil => rw [List.flatMap_nil, m.adding_nil]; exact h
  | cons stage stages ih =>
    -- the declarations are those of `m`, and so is the configuration
    have hrest := ih (step_module h stage)
    rw [step_config] at hrest
    rw [List.flatMap_cons, ← m.adding_adding]
    exact hrest

theorem found_subset {config : Config} {body : List Decl} {stages : List Stage}
    (hcollisions : .collisions ∈ stages) (hnames : .names ∈ stages) (stage : Stage) :
    stage.found config body ⊆ stages.flatMap (·.found config body) := by
  cases stage with
  | collisions => exact fun _ htext => List.mem_flatMap.mpr ⟨_, hcollisions, htext⟩
  | names => exact fun _ htext => List.mem_flatMap.mpr ⟨_, hnames, htext⟩
  | classify | parse | decode | compile => exact List.nil_subset _

/-- **The messages about a module only grow.** From the moment a job has a module, any stages in any
order leave its name and its declarations alone and add messages behind the ones it has. What they
add is new and distinct. After one search for collisions and one for names, nothing is added any
more. -/
theorem module_grows (j : Job) (earlier later : List Stage) (h : (j.run earlier).module = some m) :
    ∃ fresh : List String, (j.run (earlier ++ later)).module = some (m.withErrors fresh) ∧
      fresh.Nodup ∧ (∀ text ∈ fresh, text ∉ m.errors) ∧
      (.collisions ∈ later → .names ∈ later → ∀ further : List Stage,
        (j.run (earlier ++ later ++ further)).module = some (m.withErrors fresh)) := by
  have hlater : (j.run (earlier ++ later)).module
      = some (m.adding (later.flatMap (·.found j.config m.body))) := by
    rw [run_append, run_module h, run_config]
  refine ⟨_, hlater, (Text.nodup_distinct _).filter _, fun text htext => ?_,
    fun hcollisions hnames further => ?_⟩
  · simpa using (List.mem_filter.mp htext).2
  · rw [run_append, run_module hlater, run_config]
    refine congrArg some (Module.adding_of_subset _ fun text htext => ?_)
    obtain ⟨stage, -, hfound⟩ := List.mem_flatMap.mp htext
    exact (m.mem_errors_adding).mpr (.inr (found_subset hcollisions hnames stage hfound))

/-- Two constants of one name, which the module has been told about, and the second reads a name
that does not exist. -/
theorem module_grows_twice :
    let collision := "name 'x' is defined multiple times (declarations 0, 1)"
    let missing := "failed to find 'total' in scope of 'x'"
    let m : Module := ⟨"Twice",
      [.const "x" .absent [] (.value "1"), .const "x" .absent [] (.value "total")], [collision]⟩
    let j : Job := { file := "Twice.yaml", source := "name: Other", module := some m }
    (j.run [.decode]).module = some m ∧
      (j.run [.decode, .names, .collisions]).module.map Module.errors = some [collision, missing] ∧
      ∀ further : List Stage,
        (j.run ([.decode, .names, .collisions] ++ further)).module.map Module.errors
          = some [collision, missing] := by
  intro collision missing m j
  have hlater : (j.run [.decode, .names, .collisions]).module.map Module.errors
      = some [collision, missing] := by decide +kernel
  obtain ⟨fresh, hmodule, -, -, hfurther⟩ := module_grows j [.decode] [.names, .collisions] rfl
  refine ⟨rfl, hlater, fun further => ?_⟩
  rw [show j.run ([.decode, .names, .collisions] ++ further)
    = j.run ([.decode] ++ [.names, .collisions] ++ further) from rfl,
    hfurther (by simp) (by simp) further, ← hmodule]
  exact hlater

end Job

end Derw
