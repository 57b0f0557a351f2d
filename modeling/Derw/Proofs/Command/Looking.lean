import Derw.Command.Basic
import Derw.File.Tree

/-!
# Proofs/Command/Looking — programs that only look at files

To find its configuration and to read its files, a command looks at the tree and leaves it as it is
(`Looks`). So it finds the same whatever it looks at before. The configuration it finds
can be used: it has at least one worker and a target that exists (`looks_loadConfig`).
-/

namespace Derw

/-! ## Looking -/

/-- A program that leaves the tree as it is, and whose results are all of a kind. -/
def Looks {α : Type} (x : StateM FileTree α) (P : α → Prop) : Prop :=
  ∀ tree : FileTree, (x.run tree).2 = tree ∧ P (x.run tree).1

namespace Looks

variable {α β : Type} {x : StateM FileTree α} {f : α → StateM FileTree β}
variable {P : α → Prop} {Q : β → Prop}

/-- After looking, the tree is the one there was. -/
theorem run_bind (h : Looks x P) (tree : FileTree) :
    (x >>= f).run tree = (f (x.run tree).1).run tree := by
  have hrun : x.run tree = ((x.run tree).1, tree) := Prod.ext rfl (h tree).1
  rw [StateT.run_bind, hrun]
  rfl

theorem pure {a : α} (h : P a) : Looks (Pure.pure a : StateM FileTree α) P := fun _ => ⟨rfl, h⟩

/-- A look that chooses another one is a look. -/
theorem bind (h : Looks x P) (hf : ∀ a, P a → Looks (f a) Q) : Looks (x >>= f) Q := fun tree => by
  rw [h.run_bind]
  exact hf _ (h tree).2 tree

end Looks

/-! ## Configurations -/

namespace Config

/-- Asking for each name in turn changes nothing. -/
theorem looks_firstContained (paths : List String) :
    Looks (firstContained FileTree.disk paths) fun _ => True := by
  induction paths with
  | nil => exact .pure trivial
  | cons p paths ih =>
    have hcontains : Looks (FileTree.disk.contains p) fun _ => True := fun _ => ⟨rfl, trivial⟩
    refine hcontains.bind fun found _ => ?_
    cases found with
    | true => exact .pure trivial
    | false => exact ih

theorem looks_find (folder : String) : Looks (find FileTree.disk folder) fun _ => True := by
  have hfolder : Looks FileTree.disk.workingFolder fun _ => True := fun _ => ⟨rfl, trivial⟩
  exact hfolder.bind fun _ _ => looks_firstContained _

/-- A configuration that says zero workers gets the processors, of which there is one at least. -/
theorem workers_withDefaults_ne (processors : Processors) (c : Config) :
    (c.withDefaults processors).workers ≠ 0 := by
  rw [withDefaults]
  dsimp only
  split
  next => exact Int.natCast_ne_zero.mpr (Nat.ne_of_gt processors.property)
  next h => exact h

/-- A configuration with a worker, and with a target that exists. -/
structure IsUsable (c : Config) : Prop where
  workers_pos : 0 < c.workers
  target_mem : c.target ∈ targets

/-- What validation lets through can be used, given a worker. -/
theorem isUsable_of_validate {c used : Config} (hne : c.workers ≠ 0)
    (h : c.validate = .ok used) : used.IsUsable := by
  rw [validate] at h
  split at h
  next => nomatch h
  next htarget =>
    split at h
    next => nomatch h
    split at h
    next => nomatch h
    next hnonneg =>
      split at h
      next => nomatch h
      next =>
        obtain rfl := Except.ok.inj h
        exact ⟨by omega, by simpa using htarget⟩

/-- So can the defaults. -/
theorem isUsable_default (processors : Processors) : IsUsable (.default processors) where
  workers_pos := Int.natCast_pos.mpr processors.property
  target_mem := by
    have htarget : (default processors).target = default.target := rfl
    rw [htarget]
    decide +kernel

/-- What a configuration file gives, if anything, can be used. -/
theorem isUsable_of_parse {text path : String} {processors : Processors} {c : Config}
    (h : parse text path processors = .ok c) : c.IsUsable := by
  rw [parse] at h
  split at h
  next => nomatch h
  next read _ => exact isUsable_of_validate (read.workers_withDefaults_ne processors) h

/-- Loading changes nothing, and gives a configuration that can be used or an error. -/
theorem looks_load (path : String) :
    Looks (load FileTree.disk path) fun loaded => ∀ c, loaded = .ok c → c.IsUsable := by
  have hread : Looks (FileTree.disk.read path) fun _ => True := fun _ => ⟨rfl, trivial⟩
  refine hread.bind fun text _ => ?_
  cases text with
  | error e => exact .pure fun c h => nomatch h
  | ok text =>
    have hprocessors : Looks FileTree.disk.processors fun _ => True := fun _ => ⟨rfl, trivial⟩
    exact hprocessors.bind fun _ _ => .pure fun c h => isUsable_of_parse h

end Config

namespace Command

/-- The configuration of a command is that of the path it is given, or else the nearest one. -/
theorem looks_configAt (path : Option String) :
    Looks (configAt FileTree.disk path) fun loaded => ∀ c, loaded = .ok c → c.IsUsable := by
  cases path with
  | none =>
    have hprocessors : Looks FileTree.disk.processors fun _ => True := fun _ => ⟨rfl, trivial⟩
    exact hprocessors.bind fun processors _ =>
      .pure fun c h => Except.ok.inj h ▸ Config.isUsable_default processors
  | some p =>
    refine (Config.looks_load p).bind fun loaded hloaded => ?_
    cases loaded with
    | error fault => exact .pure fun c h => nomatch h
    | ok c => exact .pure fun c' h => hloaded c' (congrArg _ (Except.ok.inj h))

/-- To find the configuration, a command only looks; the one it finds can be used. -/
theorem looks_loadConfig (path : String) :
    Looks (loadConfig FileTree.disk path) fun loaded => ∀ c, loaded = .ok c → c.IsUsable := by
  rw [loadConfig]
  split
  next => exact (Config.looks_find ".").bind fun found _ => looks_configAt found
  next => exact looks_configAt (some path)

/-- Sources that are read are those that the tree has. -/
theorem readSources_run (tree : FileTree) {sources : List (String × String)}
    (h : ∀ source ∈ sources, tree.read source.1 = .ok source.2) :
    (readSources FileTree.disk (sources.map (·.1))).run tree = (.ok sources, tree) := by
  induction sources with
  | nil => rfl
  | cons source sources ih =>
    have hread : Looks (FileTree.disk.read source.1) fun _ => True := fun _ => ⟨rfl, trivial⟩
    have hsource : ((FileTree.disk.read source.1).run tree).1 = .ok source.2 :=
      h source List.mem_cons_self
    have hrest := ih fun other hother => h other (List.mem_cons_of_mem _ hother)
    rw [List.map_cons, readSources, hread.run_bind, hsource]
    rw [StateT.run_bind, hrest]
    rfl

end Command

end Derw
