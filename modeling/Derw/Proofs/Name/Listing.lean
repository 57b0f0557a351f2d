import Derw.Proofs.Name.Collision
import Mathlib.Data.List.Sort

/-!
# Proofs/Name/Listing — each introduced name once, with all its positions

`collect` goes through the declarations from the last to the first and merges lists of names on the
way. `Lists` says what comes out, without the merging: which names are listed, in which order, and
with which positions. It leaves no choice (`Lists.unique`), so `collect_eq_iff` says all there is to
say about a list of names, and the collisions are what this list shows to be introduced more than
once.
-/

namespace Derw.Name

/-- The entries list the names that declarations introduce. -/
structure Lists (names : Decl → List String) (body : List Decl) (entries : List Seen) : Prop where
  /-- Each name has one entry. -/
  nodup : (entries.map (·.name)).Nodup
  /-- The names that have one are those that are introduced. -/
  complete : ∀ name, name ∈ entries.map (·.name) ↔ ∃ d ∈ body, name ∈ names d
  /-- They come in the order in which they are introduced first. -/
  ordered : entries.Pairwise fun s t =>
    (body.flatMap names).idxOf s.name < (body.flatMap names).idxOf t.name
  /-- Positions are listed from the first to the last. -/
  ascending : ∀ s ∈ entries, s.indexes.Pairwise (· ≤ ·)
  /-- A position is listed as often as the declaration there introduces the name. -/
  counted : ∀ s ∈ entries, ∀ index,
    s.indexes.count index = (body[index]?.elim [] names).count s.name

/-! ## There is one listing -/

section

variable {names : Decl → List String} {body : List Decl} {es fs : List Seen}

/-- What one listing has, another one has. -/
theorem Lists.mem_of_mem (hes : Lists names body es) (hfs : Lists names body fs) {s : Seen}
    (hs : s ∈ es) : s ∈ fs := by
  have hname : s.name ∈ fs.map (·.name) :=
    (hfs.complete _).mpr ((hes.complete _).mp (List.mem_map_of_mem hs))
  obtain ⟨t, ht, heq⟩ := List.mem_map.mp hname
  have hperm : s.indexes.Perm t.indexes := by
    refine List.perm_iff_count.mpr fun index => ?_
    rw [hes.counted s hs, hfs.counted t ht, heq]
  have hindexes : s.indexes = t.indexes :=
    hperm.eq_of_pairwise (fun _ _ _ _ => Nat.le_antisymm) (hes.ascending s hs) (hfs.ascending t ht)
  obtain rfl : t = s := by
    cases s
    cases t
    exact congrArg₂ Seen.mk heq hindexes.symm
  exact ht

theorem Lists.unique (hes : Lists names body es) (hfs : Lists names body fs) : es = fs := by
  have hperm : es.Perm fs :=
    (List.perm_ext_iff_of_nodup hes.nodup.of_map hfs.nodup.of_map).mpr fun _ =>
      ⟨hes.mem_of_mem hfs, hfs.mem_of_mem hes⟩
  exact hperm.eq_of_pairwise (fun _ _ _ _ h h' => absurd h' h.asymm) hes.ordered hfs.ordered

end

/-! ## Introductions -/

/-- The positions count from the first declaration. -/
theorem le_of_mem_introductions {names : Decl → List String} {index : Nat} {body : List Decl}
    {p : String × Nat} (h : p ∈ introductions names index body) : index ≤ p.2 := by
  induction body generalizing index with
  | nil => exact absurd h List.not_mem_nil
  | cons d ds ih =>
    rcases List.mem_append.mp h with h | h
    · obtain ⟨name, -, rfl⟩ := List.mem_map.mp h
      exact Nat.le_refl index
    · exact Nat.le_of_succ_le (ih h)

/-- They go up along the declarations. -/
theorem pairwise_positions (names : Decl → List String) (index : Nat) (body : List Decl)
    (name : String) : (positions (introductions names index body) name).Pairwise (· ≤ ·) := by
  refine List.pairwise_map.mpr (List.Pairwise.filter _ ?_)
  induction body generalizing index with
  | nil => exact .nil
  | cons d ds ih =>
    refine List.pairwise_append.mpr ⟨?_, ih (index + 1), fun p hp q hq => ?_⟩
    · exact List.pairwise_map.mpr (List.pairwise_of_forall fun _ _ => Nat.le_refl index)
    · obtain ⟨n, -, rfl⟩ := List.mem_map.mp hp
      exact Nat.le_of_succ_le (le_of_mem_introductions hq)

/-- Names introduced at one place have its position. -/
theorem positions_map (ns : List String) (index : Nat) (name : String) :
    positions (ns.map (·, index)) name = List.replicate (ns.count name) index := by
  refine List.eq_replicate_iff.mpr ⟨?_, fun i hi => ?_⟩
  · rw [length_positions, List.map_map]
    exact congrArg (List.count name) (List.map_id ns)
  · obtain ⟨p, hp, rfl⟩ := List.mem_map.mp hi
    obtain ⟨n, -, rfl⟩ := List.mem_map.mp (List.mem_filter.mp hp).1
    rfl

/-- A name has the position of a declaration as often as the declaration introduces it. -/
theorem count_positions (names : Decl → List String) (index : Nat) (body : List Decl)
    (name : String) (k : Nat) :
    (positions (introductions names index body) name).count (index + k)
      = (body[k]?.elim [] names).count name := by
  induction body generalizing index k with
  | nil => rfl
  | cons d ds ih =>
    rw [introductions, positions_append, List.count_append, positions_map, List.count_replicate]
    cases k with
    | zero =>
      have hlater : (positions (introductions names (index + 1) ds) name).count index = 0 := by
        refine List.count_eq_zero_of_not_mem fun hmem => ?_
        obtain ⟨p, hp, heq⟩ := List.mem_map.mp hmem
        exact Nat.not_succ_le_self _ (heq ▸ le_of_mem_introductions (List.mem_filter.mp hp).1)
      rw [Nat.add_zero, hlater]
      simp
    | succ k =>
      have hne : (index == index + (k + 1)) = false := by simp
      rw [hne, ← Nat.add_assoc, Nat.add_right_comm, ih (index + 1) k]
      simp

/-- **To group introductions by name is to list them.** -/
theorem lists_grouped (names : Decl → List String) (body : List Decl) :
    Lists names body (grouped (introductions names 0 body)) where
  nodup := by
    rw [names_grouped]
    exact Text.nodup_distinct _
  complete name := by
    rw [names_grouped, Text.mem_distinct, names_introductions, List.mem_flatMap]
  ordered := by
    have hdistinct := Text.pairwise_idxOf_distinct ((introductions names 0 body).map (·.1))
    rwa [← names_grouped, names_introductions, List.pairwise_map] at hdistinct
  ascending s hs := by
    obtain ⟨name, -, rfl⟩ := List.mem_map.mp hs
    exact pairwise_positions names 0 body name
  counted s hs index := by
    obtain ⟨name, -, rfl⟩ := List.mem_map.mp hs
    have hcount := count_positions names 0 body name index
    rwa [Nat.zero_add] at hcount

/-! ## Collecting -/

/-- What has been collected is a listing, of the modules and of the values. -/
theorem lists_collect (body : List Decl) :
    Lists modulesOf body (collect body).modules ∧ Lists valuesOf body (collect body).values := by
  rw [collect, collectFrom_eq]
  exact ⟨lists_grouped modulesOf body, lists_grouped valuesOf body⟩

/-- **Names are collected exactly.** What is collected is the one listing of the modules and the one
listing of the values that declarations introduce; and the collisions are the modules, then the
values, that are listed with more than one position, in the order of the listing. -/
theorem collect_eq_iff (body : List Decl) :
    (∀ modules values, collect body = ⟨modules, values⟩ ↔
        Lists modulesOf body modules ∧ Lists valuesOf body values) ∧
      collisions body = (collect body).modules.filter (1 < ·.indexes.length)
        ++ (collect body).values.filter (1 < ·.indexes.length) := by
  obtain ⟨hmodules, hvalues⟩ := lists_collect body
  refine ⟨fun modules values => ⟨fun h => ?_, fun ⟨hms, hvs⟩ => ?_⟩, List.filter_append ..⟩
  · rw [h] at hmodules hvalues
    exact ⟨hmodules, hvalues⟩
  · exact congrArg₂ Names.mk (hmodules.unique hms) (hvalues.unique hvs)

/-- One import exposes a name twice, and a constant has it too. -/
example :
    let body : List Decl := [
      .imports [{ name := "\"./List\"", exposing := ["map", "sum", "map"] }],
      .const "total" .absent [] (.value "1"), .const "map" .absent [] (.value "2")]
    collect body = ⟨[⟨"List", [0]⟩], [⟨"map", [0, 0, 2]⟩, ⟨"sum", [0]⟩, ⟨"total", [1]⟩]⟩ ∧
      collisions body = [⟨"map", [0, 0, 2]⟩] := by
  decide +kernel

end Derw.Name
