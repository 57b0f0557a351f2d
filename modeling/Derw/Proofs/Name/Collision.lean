import Derw.Name.Seen
import Derw.Proofs.Program.Bindings
import Mathlib.Data.List.Flatten
import Mathlib.Data.List.Nodup
import Mathlib.Data.List.Perm.Basic

/-!
# Proofs/Name/Collision — a module without collisions, and the names of its program

Names are collected declaration by declaration, each with the positions of those that introduce it.
What comes out is all introductions grouped by name (`collectFrom_eq`), so there is no collision if
and only if no name is introduced twice, among the modules and among the values.

In the program, modules and values share one scope, and the constructors of tags are in it too,
which are no names of their own for the collisions. So without collisions the modules are distinct
and so are the values, and the tags are all that is left to clash, with each other or with the rest,
next to a module and a value of one name.
-/

namespace Derw.Name

/-! ## Introductions, grouped by name -/

/-- The modules that a declaration introduces. -/
def modulesOf : Decl → List String
  | .imports modules => modules.map Import.bindingName
  | _ => []

/-- The values and types that a declaration introduces. -/
def valuesOf : Decl → List String
  | .imports modules => modules.flatMap Import.exposing
  | .function name .. | .const name .. => [name]
  | .union head _ | .typeAlias head _ => [head.name]
  | .exports _ | .comment _ | .multilineComment _ => []

/-- The names that declarations introduce, each with the position of its declaration. -/
def introductions (names : Decl → List String) (index : Nat) : List Decl → List (String × Nat)
  | [] => []
  | d :: ds => (names d).map (·, index) ++ introductions names (index + 1) ds

/-- The positions at which a name is introduced. -/
def positions (ps : List (String × Nat)) (name : String) : List Nat :=
  (ps.filter (·.1 = name)).map (·.2)

/-- Each name once, where it is introduced first, with all its positions. -/
def grouped (ps : List (String × Nat)) : List Seen :=
  (Text.distinct (ps.map (·.1))).map fun name => ⟨name, positions ps name⟩

theorem positions_append (ps qs : List (String × Nat)) (name : String) :
    positions (ps ++ qs) name = positions ps name ++ positions qs name := by
  rw [positions, List.filter_append, List.map_append]
  rfl

/-- A name that is not introduced has no positions. -/
theorem positions_eq_nil {ps : List (String × Nat)} {name : String} (h : name ∉ ps.map (·.1)) :
    positions ps name = [] := by
  rw [positions, List.map_eq_nil_iff, List.filter_eq_nil_iff]
  intro p hp hname
  exact h (List.mem_map.mpr ⟨p, hp, by simpa using hname⟩)

/-- There is one group for each name, in the order of the first introductions. -/
theorem names_grouped (ps : List (String × Nat)) :
    (grouped ps).map (·.name) = Text.distinct (ps.map (·.1)) := by
  rw [grouped, List.map_map]
  exact List.map_id _

/-- A group holds the positions of its name. -/
theorem find?_grouped (ps : List (String × Nat)) (name : String) :
    (((grouped ps).find? (·.name = name)).map (·.indexes)).getD [] = positions ps name := by
  cases hfind : (grouped ps).find? (·.name = name) with
  | none =>
    refine (positions_eq_nil fun hmem => ?_).symm
    rw [← Text.mem_distinct, ← names_grouped] at hmem
    obtain ⟨s, hs, rfl⟩ := List.mem_map.mp hmem
    exact List.find?_eq_none.mp hfind s hs (decide_eq_true rfl)
  | some s =>
    obtain rfl : s.name = name := by simpa using List.find?_some hfind
    obtain ⟨n, -, rfl⟩ := List.mem_map.mp (List.mem_of_find?_eq_some hfind)
    rfl

theorem any_grouped (ps : List (String × Nat)) (name : String) :
    (grouped ps).any (·.name = name) = (ps.map (·.1)).contains name := by
  rw [Bool.eq_iff_iff, List.contains_iff_mem, ← Text.mem_distinct, ← names_grouped]
  simp

/-- Later introductions add to the groups there are, and the other names are grouped behind them. -/
theorem grouped_append (ps qs : List (String × Nat)) :
    grouped (ps ++ qs)
      = ((grouped ps).map fun s => ⟨s.name, s.indexes ++ positions qs s.name⟩)
        ++ (grouped qs).filter fun s => !(ps.map (·.1)).contains s.name := by
  rw [grouped, List.map_append, Text.distinct_append, List.map_append]
  congr 1
  · rw [grouped, List.map_map]
    exact List.map_congr_left fun n _ => congrArg (Seen.mk n) (positions_append ps qs n)
  · rw [grouped, List.filter_map]
    refine List.map_congr_left fun n hn => ?_
    have hnew : n ∉ ps.map (·.1) := by simpa using (List.mem_filter.mp hn).2
    rw [positions_append, positions_eq_nil hnew, List.nil_append]

/-- Merging groups is grouping all introductions together. -/
theorem mergeSeen_grouped (ps qs : List (String × Nat)) :
    mergeSeen (grouped ps) (grouped qs) = grouped (ps ++ qs) := by
  rw [mergeSeen, grouped_append]
  simp only [find?_grouped, any_grouped]

/-- A name that is listed gets one more position, and one that is not is put at the end. -/
theorem addSeen_map (name : String) (index : Nat) (g : String → List Nat) {ns : List String}
    (h : ns.Nodup) :
    addSeen name index (ns.map fun n => ⟨n, g n⟩)
      = (ns.map fun n => ⟨n, g n ++ if n = name then [index] else []⟩)
        ++ if name ∈ ns then [] else [⟨name, [index]⟩] := by
  induction ns with
  | nil => rfl
  | cons n ns ih =>
    rw [List.nodup_cons] at h
    rw [List.map_cons, addSeen]
    split
    next hn =>
      subst hn
      have hothers : ∀ m ∈ ns, (⟨m, g m⟩ : Seen) = ⟨m, g m ++ if m = n then [index] else []⟩ := by
        intro m hm
        have hne : m ≠ n := fun heq => h.1 (heq ▸ hm)
        rw [if_neg hne, List.append_nil]
      rw [List.map_congr_left hothers, if_pos List.mem_cons_self, List.append_nil, List.map_cons,
        if_pos rfl]
    next hn =>
      have hn : ¬n = name := hn
      have hmem : name ∈ n :: ns ↔ name ∈ ns := by simp [Ne.symm hn]
      rw [ih h.2, List.map_cons, if_neg hn, List.append_nil, List.cons_append,
        if_congr hmem rfl rfl]

theorem grouped_singleton (name : String) (index : Nat) :
    grouped [(name, index)] = [⟨name, [index]⟩] := by
  simp [grouped, positions, Text.distinct]

/-- One more introduction at the end. -/
theorem addSeen_grouped (name : String) (index : Nat) (ps : List (String × Nat)) :
    addSeen name index (grouped ps) = grouped (ps ++ [(name, index)]) := by
  rw [grouped, addSeen_map _ _ _ (Text.nodup_distinct _), grouped_append, grouped, List.map_map]
  congr 1
  · refine List.map_congr_left fun n _ => congrArg (Seen.mk n ∘ (positions ps n ++ ·)) ?_
    by_cases h : n = name <;> simp [positions, h, Ne.symm]
  · rw [grouped_singleton, if_congr Text.mem_distinct rfl rfl]
    by_cases h : name ∈ ps.map (·.1) <;> simp [h]

/-- Several more, all of one position. -/
theorem addAll_grouped (names : List String) (index : Nat) (ps : List (String × Nat)) :
    addAll names index (grouped ps) = grouped (ps ++ names.map (·, index)) := by
  induction names generalizing ps with
  | nil => rw [List.map_nil, List.append_nil]; rfl
  | cons n ns ih =>
    rw [addAll, List.foldl_cons, addSeen_grouped, ← addAll, ih, List.append_assoc]
    rfl

/-- The names of a declaration are its introductions, grouped. -/
theorem namesOf_eq (index : Nat) (d : Decl) :
    namesOf index d =
      ⟨grouped ((modulesOf d).map (·, index)), grouped ((valuesOf d).map (·, index))⟩ := by
  cases d with
  | imports modules =>
    exact congrArg₂ Names.mk (addAll_grouped _ _ []) (addAll_grouped _ _ [])
  | function | const | union | typeAlias =>
    exact congrArg (Names.mk []) (grouped_singleton _ index).symm
  | exports | comment | multilineComment => rfl

/-- **Collecting groups the introductions by name.** -/
theorem collectFrom_eq (index : Nat) (body : List Decl) :
    collectFrom index body
      = ⟨grouped (introductions modulesOf index body),
          grouped (introductions valuesOf index body)⟩ := by
  induction body generalizing index with
  | nil => rfl
  | cons d ds ih =>
    rw [collectFrom, ih, namesOf_eq]
    exact congrArg₂ Names.mk (mergeSeen_grouped _ _) (mergeSeen_grouped _ _)

/-! ## No collisions -/

/-- Without the positions, introductions are the names of the declarations. -/
theorem names_introductions (names : Decl → List String) (index : Nat) (body : List Decl) :
    (introductions names index body).map (·.1) = body.flatMap names := by
  induction body generalizing index with
  | nil => rfl
  | cons d ds ih =>
    rw [introductions, List.map_append, ih, List.map_map, List.flatMap_cons]
    exact congrArg (· ++ _) (List.map_id _)

/-- A name has as many positions as introductions. -/
theorem length_positions (ps : List (String × Nat)) (name : String) :
    (positions ps name).length = (ps.map (·.1)).count name := by
  rw [positions, List.length_map, List.count_eq_length_filter, List.filter_map, List.length_map]
  rfl

/-- No group has two positions where no name is introduced twice. -/
theorem filter_grouped_eq_nil {ps : List (String × Nat)} :
    (grouped ps).filter (1 < ·.indexes.length) = [] ↔ (ps.map (·.1)).Nodup := by
  rw [List.nodup_iff_count_le_one, List.filter_eq_nil_iff, grouped, List.forall_mem_map]
  simp only [Text.mem_distinct, length_positions, decide_eq_true_eq, Nat.not_lt]
  refine ⟨fun h name => ?_, fun h name _ => h name⟩
  by_cases hmem : name ∈ ps.map (·.1)
  · exact h name hmem
  · rw [List.count_eq_zero_of_not_mem hmem]
    exact Nat.zero_le 1

/-- **There are no collisions exactly if no name is introduced twice**, among the modules and among
the values. -/
theorem collisions_eq_nil_iff {body : List Decl} :
    collisions body = [] ↔ (body.flatMap modulesOf).Nodup ∧ (body.flatMap valuesOf).Nodup := by
  rw [collisions, collect, collectFrom_eq, List.filter_append, List.append_eq_nil_iff,
    filter_grouped_eq_nil, filter_grouped_eq_nil, names_introductions, names_introductions]

end Derw.Name

namespace Derw

open Script

/-! ## Distinct bindings -/

/-- The bindings by namespace. -/
theorem Module.perm_bindings (m : Module) (target : Target) :
    (m.bindings target).Perm
      (m.bound target .module ++ (m.bound target .tag ++ m.bound target .value)) := by
  rw [← List.append_assoc]
  refine (List.flatMap_append_perm _ _ _).symm.trans (List.Perm.append_right _ ?_)
  exact (List.flatMap_append_perm _ _ _).symm

/-- The modules a declaration binds are among those it introduces. -/
theorem sublist_modulesOf (d : Decl) : (d.bound .module).Sublist (Name.modulesOf d) := by
  cases d with
  | imports modules => exact List.filter_sublist.map _
  | exports | union | typeAlias | function | const | comment | multilineComment =>
    exact List.nil_sublist _

/-- So are the values. -/
theorem sublist_valuesOf (d : Decl) : (d.bound .value).Sublist (Name.valuesOf d) := by
  cases d with
  | imports | function | const | typeAlias => exact List.Sublist.refl _
  | exports | union | comment | multilineComment => exact List.nil_sublist _

/-- **Without collisions, modules are bound to distinct names, and so are values; and all bindings
are distinct exactly if no tag shares its name** with another tag or a value, and no module with
either. -/
theorem bindings_nodup_iff (m : Module) (h : Name.collisions m.body = []) :
    (m.bound .javaScript .module).Nodup ∧ (m.bound .javaScript .value).Nodup ∧
      ((m.bindings .javaScript).Nodup ↔
        (m.bound .javaScript .tag).Nodup ∧
          (m.bound .javaScript .tag).Disjoint (m.bound .javaScript .value) ∧
          (m.bound .javaScript .module).Disjoint
            (m.bound .javaScript .tag ++ m.bound .javaScript .value)) := by
  obtain ⟨hmodules, hvalues⟩ := Name.collisions_eq_nil_iff.mp h
  have hmodule : (m.bound .javaScript .module).Nodup := by
    rw [Module.bound, Module.items, bound_programItems]
    exact hmodules.sublist (.flatMap_right _ fun d _ => sublist_modulesOf d)
  have hvalue : (m.bound .javaScript .value).Nodup := by
    rw [Module.bound, Module.items, bound_programItems]
    exact hvalues.sublist (.flatMap_right _ fun d _ => sublist_valuesOf d)
  refine ⟨hmodule, hvalue, ?_⟩
  rw [(m.perm_bindings .javaScript).nodup_iff, List.nodup_append', List.nodup_append']
  tauto

/-- A module of two tags, a function and an import. -/
theorem bindings_nodup_maybe :
    let m : Module :=
      { name := "Main"
        body := [.imports [{ name := "\"./List\"", exposing := ["map"] }, { name := "\"./Text\"" }],
          .union ⟨"Maybe", [.generic "a"]⟩ [⟨"Just", [⟨"value", .generic "a"⟩]⟩, ⟨"Nothing", []⟩],
          .const "none" .absent [] (.construct "Nothing")]
        errors := [] }
    Name.collisions m.body = [] ∧
      m.bindings .javaScript = ["Text", "map", "Just", "Nothing", "none"] ∧
      (m.bindings .javaScript).Nodup := by
  intro m
  have h : Name.collisions m.body = [] := by decide +kernel
  refine ⟨h, by decide +kernel, (bindings_nodup_iff m h).2.2.mpr ?_⟩
  exact ⟨by decide +kernel, List.disjoint_left.mpr (by decide +kernel),
    List.disjoint_left.mpr (by decide +kernel)⟩

/-- Two unions share a tag, and a function is named like an imported module: neither is a
collision, and the program binds both names twice. -/
theorem bindings_not_nodup :
    let tags : Module :=
      { name := "Main"
        body := [.union ⟨"Answer", []⟩ [⟨"Yes", []⟩, ⟨"No", []⟩], .union ⟨"Vote", []⟩ [⟨"Yes", []⟩]]
        errors := [] }
    let modules : Module :=
      { name := "Main"
        body := [.imports [{ name := "\"./text\"" }], .const "text" .absent [] (.value "1")]
        errors := [] }
    (Name.collisions tags.body = [] ∧ tags.bindings .javaScript = ["Yes", "No", "Yes"] ∧
        ¬(tags.bindings .javaScript).Nodup) ∧
      Name.collisions modules.body = [] ∧ modules.bindings .javaScript = ["text", "text"] ∧
        ¬(modules.bindings .javaScript).Nodup := by
  decide +kernel

end Derw
