import Derw.Proofs.Text.Distinct
import Derw.Script.Type
import Mathlib.Data.List.Lex

/-!
# Proofs/Type/Harvest — the type parameters of some types, each where it first appears

A type parameter stands at a place of some types: the position of the type, and then the argument
positions that lead to the parameter from the outside in (`ParamAt`). A traversal from left to right
meets the places in lexicographic order, so what a harvest has to be is said without a traversal
(`Harvests`), and it is said of one list only (`Harvests.unique`).

The collector knows no places. `placedFrom` is its traversal with the places put back: they ascend
(`pairwise_placedFrom`), all are met (`mem_placedFrom`), and without them it is what the collector
collects.
-/

namespace Derw

mutual

/-- A type parameter stands at a place of a type. -/
inductive Ty.ParamAt : Ty → List Nat → String → Prop
  | generic (name : String) : Ty.ParamAt (.generic name) [] name
  | fixed (head : String) {args : List Ty} {place : List Nat} {name : String}
    (h : ParamAt args place name) : Ty.ParamAt (.fixed head args) place name
  | function {args : List Ty} {place : List Nat} {name : String} (h : ParamAt args place name) :
    Ty.ParamAt (.function args) place name

/-- A type parameter stands at a place of one of the types. -/
inductive ParamAt : List Ty → List Nat → String → Prop
  | at {types : List Ty} {i : Nat} {t : Ty} {place : List Nat} {name : String}
    (ht : types[i]? = some t) (h : t.ParamAt place name) : ParamAt types (i :: place) name

end

/-- The names are those type parameters of the types that stand for no concrete type. -/
structure Harvests (types : List Ty) (names : List String) : Prop where
  nodup : names.Nodup
  complete : ∀ name, name ∈ names ↔ name ∉ builtinTypeNames ∧ ∃ place, ParamAt types place name
  /-- The earlier of two names has a place before all places of the later. -/
  ordered : names.Pairwise fun a b => ∃ p, ParamAt types p a ∧ ∀ q, ParamAt types q b → p < q

theorem Harvests.unique {types : List Ty} {xs ys : List String} (hxs : Harvests types xs)
    (hys : Harvests types ys) : xs = ys := by
  have hperm : xs.Perm ys := (List.perm_ext_iff_of_nodup hxs.nodup hys.nodup).mpr fun name =>
    (hxs.complete name).trans (hys.complete name).symm
  refine hperm.eq_of_pairwise (fun a b _ _ hab hba => ?_) hxs.ordered hys.ordered
  obtain ⟨p, hp, hbefore⟩ := hab
  obtain ⟨q, hq, hafter⟩ := hba
  exact absurd (hafter p hp) (List.lt_asymm (hbefore q hq))

/-! ## The traversal with places -/

mutual

/-- The type parameters of a type with their places, in the order of the text. -/
def Ty.placed : Ty → List (List Nat × String)
  | .absent => []
  | .generic name => [([], name)]
  | .fixed _ args => placedFrom 0 args
  | .function args => placedFrom 0 args

/-- Those of several types, where the first has position `i`. -/
def placedFrom (i : Nat) : List Ty → List (List Nat × String)
  | [] => []
  | t :: ts => t.placed.map (fun x => (i :: x.1, x.2)) ++ placedFrom (i + 1) ts

end

mutual

theorem Ty.map_placed : ∀ t : Ty, t.placed.map (·.2) = t.generics
  | .absent | .generic _ => rfl
  | .fixed _ args | .function args => map_placedFrom 0 args

theorem map_placedFrom (i : Nat) :
    ∀ ts : List Ty, (placedFrom i ts).map (·.2) = genericsOfAll ts
  | [] => rfl
  | t :: ts => by
    rw [placedFrom, genericsOfAll, List.map_append, List.map_map, ← t.map_placed,
      map_placedFrom (i + 1) ts]
    rfl

end

/-- The first of some types has the places at the first position, the others have theirs one
further. -/
theorem paramAt_cons {t : Ty} {ts : List Ty} {place : List Nat} {name : String} {start : Nat} :
    (∃ i inner, place = (start + i) :: inner ∧ ParamAt (t :: ts) (i :: inner) name) ↔
      (∃ inner, place = start :: inner ∧ t.ParamAt inner name) ∨
        ∃ i inner, place = (start + 1 + i) :: inner ∧ ParamAt ts (i :: inner) name := by
  constructor
  · rintro ⟨i, inner, rfl, ⟨ht, h⟩⟩
    cases i with
    | zero =>
      obtain rfl := Option.some.inj ht
      exact .inl ⟨inner, rfl, h⟩
    | succ i => exact .inr ⟨i, inner, by rw [Nat.add_right_comm, Nat.add_assoc], .at ht h⟩
  · rintro (⟨inner, rfl, h⟩ | ⟨i, inner, rfl, ⟨ht, h⟩⟩)
    · exact ⟨0, inner, rfl, .at rfl h⟩
    · exact ⟨i + 1, inner, by rw [Nat.add_right_comm, Nat.add_assoc], .at ht h⟩

theorem paramAt_iff {ts : List Ty} {place : List Nat} {name : String} :
    (∃ i inner, place = (0 + i) :: inner ∧ ParamAt ts (i :: inner) name) ↔
      ParamAt ts place name := by
  simp only [Nat.zero_add]
  constructor
  · rintro ⟨i, inner, rfl, h⟩
    exact h
  · rintro ⟨ht, h⟩
    exact ⟨_, _, rfl, .at ht h⟩

mutual

/-- The traversal of a type meets exactly the places at which it has a type parameter. -/
theorem Ty.mem_placed {place : List Nat} {name : String} :
    ∀ t : Ty, (place, name) ∈ t.placed ↔ t.ParamAt place name
  | .absent => ⟨fun h => absurd h List.not_mem_nil, nofun⟩
  | .generic leaf => by
    rw [Ty.placed, List.mem_singleton, Prod.mk.injEq]
    constructor
    · rintro ⟨rfl, rfl⟩
      exact .generic _
    · rintro ⟨⟩
      exact ⟨rfl, rfl⟩
  | .fixed head args =>
    ((mem_placedFrom args).trans paramAt_iff).trans ⟨.fixed head, fun | .fixed _ h => h⟩
  | .function args =>
    ((mem_placedFrom args).trans paramAt_iff).trans ⟨.function, fun | .function h => h⟩

theorem mem_placedFrom {start : Nat} {place : List Nat} {name : String} :
    ∀ ts : List Ty, (place, name) ∈ placedFrom start ts ↔
      ∃ i inner, place = (start + i) :: inner ∧ ParamAt ts (i :: inner) name
  | [] => ⟨fun h => absurd h List.not_mem_nil, fun ⟨_, _, _, ⟨ht, _⟩⟩ => nomatch ht⟩
  | t :: ts => by
    rw [paramAt_cons, ← mem_placedFrom ts, placedFrom, List.mem_append, List.mem_map]
    refine or_congr_left ⟨?_, ?_⟩
    · rintro ⟨⟨inner, leaf⟩, h, heq⟩
      obtain ⟨rfl, rfl⟩ := Prod.mk.inj heq
      exact ⟨inner, rfl, t.mem_placed.mp h⟩
    · rintro ⟨inner, rfl, h⟩
      exact ⟨(inner, name), t.mem_placed.mpr h, rfl⟩

end

theorem mem_placedAll {place : List Nat} {name : String} (ts : List Ty) :
    (place, name) ∈ placedFrom 0 ts ↔ ParamAt ts place name :=
  (mem_placedFrom ts).trans paramAt_iff

mutual

theorem Ty.pairwise_placed : ∀ t : Ty, t.placed.Pairwise (·.1 < ·.1)
  | .absent => .nil
  | .generic _ => List.pairwise_singleton ..
  | .fixed _ args | .function args => pairwise_placedFrom 0 args

/-- The places ascend: those of one type start alike, and those of the next start higher. -/
theorem pairwise_placedFrom (start : Nat) :
    ∀ ts : List Ty, (placedFrom start ts).Pairwise (·.1 < ·.1)
  | [] => .nil
  | t :: ts => by
    rw [placedFrom, List.pairwise_append, List.pairwise_map]
    have hfirst := t.pairwise_placed.imp (List.cons_lt_cons_self (a := start)).mpr
    refine ⟨hfirst, pairwise_placedFrom (start + 1) ts, ?_⟩
    rintro x hx ⟨place, name⟩ hy
    obtain ⟨y, -, rfl⟩ := List.mem_map.mp hx
    obtain ⟨i, inner, rfl, -⟩ := (mem_placedFrom ts).mp hy
    exact List.cons_lt_cons_iff.mpr (.inl (by omega))

end

/-! ## The harvest -/

theorem harvests_genericNames (types : List Ty) : Harvests types (genericNames types) := by
  have hcollected : genericNames types
      = (Text.distinct ((placedFrom 0 types).map (·.2))).filter (!builtinTypeNames.contains ·) := by
    rw [map_placedFrom]
    rfl
  rw [hcollected]
  refine ⟨(Text.nodup_distinct _).filter _, fun name => ?_, ?_⟩
  · rw [List.mem_filter, Text.mem_distinct, List.mem_map, and_comm, Bool.not_eq_true',
      ← Bool.not_eq_true, List.contains_iff_mem]
    refine and_congr_right fun _ => ⟨?_, ?_⟩
    · rintro ⟨⟨place, leaf⟩, h, rfl⟩
      exact ⟨place, (mem_placedAll types).mp h⟩
    · rintro ⟨place, h⟩
      exact ⟨(place, name), (mem_placedAll types).mpr h, rfl⟩
  · refine ((Text.pairwise_distinct (pairwise_placedFrom 0 types)).filter _).imp ?_
    rintro a b ⟨p, hp, hbefore⟩
    exact ⟨p, (mem_placedAll types).mp hp, fun q hq => hbefore q ((mem_placedAll types).mpr hq)⟩

theorem genericsOfAll_append (ts us : List Ty) :
    genericsOfAll (ts ++ us) = genericsOfAll ts ++ genericsOfAll us := by
  induction ts with
  | nil => rfl
  | cons t ts ih => rw [List.cons_append, genericsOfAll, genericsOfAll, ih, List.append_assoc]

theorem mem_genericsOfAll {ts : List Ty} {name : String} :
    name ∈ genericsOfAll ts ↔ ∃ t ∈ ts, name ∈ t.generics := by
  induction ts with
  | nil => simp [genericsOfAll]
  | cons t ts ih => rw [genericsOfAll, List.mem_append, ih, List.exists_mem_cons_iff]

theorem mem_genericNames {types : List Ty} {name : String} :
    name ∈ genericNames types ↔ name ∈ genericsOfAll types ∧ name ∉ builtinTypeNames := by
  rw [genericNames, List.mem_filter, Text.mem_distinct, Bool.not_eq_true', ← Bool.not_eq_true,
    List.contains_iff_mem]

/-- More types add the names that are new. -/
theorem genericNames_append (ts us : List Ty) :
    genericNames (ts ++ us)
      = genericNames ts ++ (genericNames us).filter (· ∉ genericNames ts) := by
  have hnew : ∀ name ∈ genericNames us,
      (!(genericsOfAll ts).contains name) = decide (name ∉ genericNames ts) := by
    intro name hname
    simp [mem_genericNames, (mem_genericNames.mp hname).2]
  calc genericNames (ts ++ us)
    _ = genericNames ts ++ ((Text.distinct (genericsOfAll us)).filter
          (!(genericsOfAll ts).contains ·)).filter (!builtinTypeNames.contains ·) := by
      rw [genericNames, genericsOfAll_append, Text.distinct_append, List.filter_append]
      rfl
    _ = genericNames ts ++ (genericNames us).filter (!(genericsOfAll ts).contains ·) := by
      rw [List.filter_comm]
      rfl
    _ = genericNames ts ++ (genericNames us).filter (· ∉ genericNames ts) := by
      rw [List.filter_congr hnew]

/-- **Type parameters are harvested exactly.** The harvest of some types is the one list of their
type parameters without the names of concrete types, each where it first appears; and with more
types it goes on with the names that these add. -/
theorem genericNames_eq_iff (ts : List Ty) :
    (∀ names, genericNames ts = names ↔ Harvests ts names) ∧
      ∀ us, genericNames (ts ++ us)
        = genericNames ts ++ (genericNames us).filter (· ∉ genericNames ts) := by
  have hharvest := harvests_genericNames ts
  refine ⟨fun names => ⟨?_, hharvest.unique⟩, genericNames_append ts⟩
  rintro rfl
  exact hharvest

/-- `a` is met in both types, and `string` stands for a concrete type. -/
example :
    let either : Ty := .fixed "Either" [.generic "e", .fixed "List" [.generic "a"]]
    let callback : Ty := .function [.generic "a", .generic "string", .function [.generic "b"]]
    genericNames [callback, either] = ["a", "b", "e"] ∧
      genericNames [either, callback] = ["e", "a", "b"] := by
  decide +kernel

end Derw
