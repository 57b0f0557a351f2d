import Mathlib.Data.List.Basic

/-!
# Proofs/Scope/Basic — blocks, declarations, and what a name stands for

A `Scope` is what is left of statements if only names are looked at: declarations, mentions of
names, and blocks, each with the rest of its block. A name that is mentioned belongs to the
innermost block around that declares it, whether before or after the mention. So a mention comes to
nothing if that block declares the name only later, or twice (`resolve`).

Every declaration stands at a `Site`, the way to the form of the program that makes it. A mention
that the program makes up itself knows the site it is meant for.
-/

namespace Derw.Script

/-- A place in a program: the way to it, the last turn first. -/
abbrev Site := List Nat

/-- The statements of a block as far as names go, each with the rest of its block. -/
inductive Scope
  | done
  | declare (name : String) (site : Site) (rest : Scope)
  /-- A name, and the site it is meant for if the program has made it up. -/
  | mention (name : String) (owner : Option Site) (rest : Scope)
  | block (inner rest : Scope)
  deriving DecidableEq, Repr

/-- A mentioned name with the site it is meant for. -/
abbrev Mention := String × Option Site

namespace Scope

/-- One block after another, as a single one. -/
def append : Scope → Scope → Scope
  | done, t => t
  | declare n site rest, t => declare n site (rest.append t)
  | mention n owner rest, t => mention n owner (rest.append t)
  | block inner rest, t => block inner (rest.append t)

instance : Append Scope := ⟨append⟩

/-- Declarations of one site. -/
def declareAll (site : Site) (names : List String) (rest : Scope) : Scope :=
  names.foldr (declare · site ·) rest

/-- Mentions, one after the other. -/
def mentionAll (mentions : List Mention) (rest : Scope) : Scope :=
  mentions.foldr (fun m s => mention m.1 m.2 s) rest

/-- What the block itself declares, in order. -/
def declared : Scope → List (String × Site)
  | done => []
  | declare n site rest => (n, site) :: rest.declared
  | mention _ _ rest | block _ rest => rest.declared

/-- The names that the block itself declares. -/
def locals (s : Scope) : List String := s.declared.map (·.1)

/-- The names that each block inside declares. -/
def blocks : Scope → List (List String)
  | done => []
  | declare _ _ rest | mention _ _ rest => rest.blocks
  | block inner rest => inner.locals :: (inner.blocks ++ rest.blocks)

/-- All names that are declared, in the block itself or in one inside. -/
def names : Scope → List String
  | done => []
  | declare n _ rest => n :: rest.names
  | mention _ _ rest => rest.names
  | block inner rest => inner.names ++ rest.names

end Scope

/-! ## Resolving names -/

/-- A block that is open: all that it declares, and what it has declared so far. -/
structure OpenBlock where
  all : List (String × Site)
  before : List (String × Site)
  deriving DecidableEq, Repr

namespace OpenBlock

/-- The names the block declares, before or behind this place. -/
def locals (b : OpenBlock) : List String := b.all.map (·.1)

/-- The block after further declarations. -/
def after (b : OpenBlock) (ds : List (String × Site)) : OpenBlock :=
  { b with before := b.before ++ ds }

/-- A block at its start. -/
def enter (s : Scope) : OpenBlock := ⟨s.declared, []⟩

end OpenBlock

/-- The site of the declaration that a name stands for, where these blocks are open, the
innermost first. -/
def resolve (name : String) : List OpenBlock → Option Site
  | [] => none
  | b :: bs =>
    match b.locals.count name with
    | 0 => resolve name bs
    | 1 => b.before.lookup name
    | _ => none

/-- A mention, and the blocks that are open there. -/
structure Occurrence where
  name : String
  owner : Option Site
  around : List OpenBlock
  deriving DecidableEq, Repr

/-- The mentions in the rest of the block `here`, around which the blocks `outer` are open. -/
def Scope.occurrences (here : OpenBlock) (outer : List OpenBlock) : Scope → List Occurrence
  | done => []
  | declare n site rest => rest.occurrences (here.after [(n, site)]) outer
  | mention n owner rest => ⟨n, owner, here :: outer⟩ :: rest.occurrences here outer
  | block inner rest =>
    inner.occurrences (.enter inner) (here :: outer) ++ rest.occurrences here outer

/-! ## Laws of resolving -/

section

variable {name : String} {site : Site} {b : OpenBlock} {bs : List OpenBlock}

@[simp] theorem OpenBlock.locals_after (ds : List (String × Site)) :
    (b.after ds).locals = b.locals := rfl

@[simp] theorem OpenBlock.locals_enter (s : Scope) : (OpenBlock.enter s).locals = s.locals := rfl

@[simp] theorem OpenBlock.after_nil : b.after [] = b := by
  rw [after, List.append_nil]

theorem OpenBlock.after_after (ds es : List (String × Site)) :
    (b.after ds).after es = b.after (ds ++ es) := by
  rw [after, after, after, List.append_assoc]

/-- A block that does not declare the name is passed over. -/
theorem resolve_cons_of_not_mem (h : name ∉ b.locals) :
    resolve name (b :: bs) = resolve name bs := by
  simp only [resolve, List.count_eq_zero_of_not_mem h]

/-- A block that declares the name once settles what it stands for. -/
theorem resolve_cons_of_count (h : b.locals.count name = 1) :
    resolve name (b :: bs) = b.before.lookup name := by
  simp only [resolve, h]

/-- Further declarations do not change what a name stands for. -/
theorem resolve_after (ds : List (String × Site)) (h : resolve name (b :: bs) = some site) :
    resolve name (b.after ds :: bs) = some site := by
  rw [resolve] at h ⊢
  rw [OpenBlock.locals_after]
  split at h
  next => exact h
  next => rw [OpenBlock.after, List.lookup_append, h, Option.some_or]
  next => cases h

/-- The declaration of a name that the block declares once. -/
theorem resolve_declared {ds : List (String × Site)} (hcount : b.locals.count name = 1)
    (hbefore : name ∉ b.before.map (·.1)) (hds : ds.lookup name = some site) :
    resolve name (b.after ds :: bs) = some site := by
  have hnone : b.before.lookup name = none := by
    refine List.lookup_eq_none_iff.mpr fun d hd => ?_
    exact bne_iff_ne.mpr fun heq => hbefore (List.mem_map.mpr ⟨d, hd, heq.symm⟩)
  rw [resolve_cons_of_count (b := b.after ds) hcount, OpenBlock.after, List.lookup_append, hnone,
    Option.none_or, hds]

end

/-! ## Putting scopes together -/

namespace Scope

variable (s t : Scope)

@[simp] theorem locals_done : done.locals = [] := rfl

@[simp] theorem locals_declare (n : String) (site : Site) :
    (declare n site s).locals = n :: s.locals := rfl

@[simp] theorem locals_mention (n : String) (owner : Option Site) :
    (mention n owner s).locals = s.locals := rfl

@[simp] theorem locals_block (inner : Scope) : (block inner s).locals = s.locals := rfl

@[simp] theorem done_append : done ++ t = t := rfl

@[simp] theorem append_done : s ++ done = s := by
  induction s with
  | done => rfl
  | declare n site rest ih => exact congrArg (declare n site ·) ih
  | mention n owner rest ih => exact congrArg (mention n owner ·) ih
  | block inner rest _ ih => exact congrArg (block inner ·) ih

theorem append_assoc (u : Scope) : s ++ t ++ u = s ++ (t ++ u) := by
  induction s with
  | done => rfl
  | declare n site rest ih => exact congrArg (declare n site ·) ih
  | mention n owner rest ih => exact congrArg (mention n owner ·) ih
  | block inner rest _ ih => exact congrArg (block inner ·) ih

@[simp] theorem declared_append : (s ++ t).declared = s.declared ++ t.declared := by
  induction s with
  | done => rfl
  | declare n site rest ih => exact congrArg ((n, site) :: ·) ih
  | mention n owner rest ih => exact ih
  | block inner rest _ ih => exact ih

@[simp] theorem locals_append : (s ++ t).locals = s.locals ++ t.locals := by
  rw [locals, declared_append, List.map_append]
  rfl

@[simp] theorem names_append : (s ++ t).names = s.names ++ t.names := by
  induction s with
  | done => rfl
  | declare n site rest ih => exact congrArg (n :: ·) ih
  | mention n owner rest ih => exact ih
  | block inner rest _ ih =>
    have hrest : (rest ++ t).names = rest.names ++ t.names := ih
    change inner.names ++ (rest ++ t).names = _
    rw [hrest, ← List.append_assoc]
    rfl

/-- What a block declares is among its names. -/
theorem locals_subset_names : s.locals ⊆ s.names := by
  induction s with
  | done => exact List.Subset.refl _
  | declare n site rest ih => exact List.cons_subset_cons n ih
  | mention n owner rest ih => exact ih
  | block inner rest _ ih => exact List.subset_append_of_subset_right _ ih

/-! ### Several declarations or mentions -/

variable {s} {site : Site} {names : List String} {mentions : List Mention}

@[simp] theorem declared_mentionAll : (mentionAll mentions s).declared = s.declared := by
  induction mentions with
  | nil => rfl
  | cons m ms ih => exact ih

@[simp] theorem locals_mentionAll : (mentionAll mentions s).locals = s.locals := by
  rw [locals, declared_mentionAll, locals]

@[simp] theorem locals_declareAll : (declareAll site names s).locals = names ++ s.locals := by
  induction names with
  | nil => rfl
  | cons n ns ih => exact congrArg (n :: ·) ih

@[simp] theorem names_mentionAll : (mentionAll mentions s).names = s.names := by
  induction mentions with
  | nil => rfl
  | cons m ms ih => exact ih

@[simp] theorem names_declareAll : (declareAll site names s).names = names ++ s.names := by
  induction names with
  | nil => rfl
  | cons n ns ih => exact congrArg (n :: ·) ih

/-- Declarations of one site are in scope behind them. -/
theorem occurrences_declareAll (here : OpenBlock) (outer : List OpenBlock) :
    (declareAll site names s).occurrences here outer
      = s.occurrences (here.after (names.map (·, site))) outer := by
  induction names generalizing here with
  | nil =>
    rw [List.map_nil, OpenBlock.after_nil]
    rfl
  | cons n ns ih =>
    change (declareAll site ns s).occurrences (here.after [(n, site)]) outer = _
    rw [ih, OpenBlock.after_after]
    rfl

/-- A name that is declared nowhere inside stands for what it stands for outside. -/
theorem resolve_of_not_mem_names {name : String} (h : name ∉ s.names) {here : OpenBlock}
    {outer : List OpenBlock} (hout : resolve name (here :: outer) = some site) :
    ∀ o ∈ s.occurrences here outer, o.name = name → resolve o.name o.around = some site := by
  induction s generalizing here outer with
  | done => simp [occurrences]
  | declare n place rest ih =>
    exact ih (fun hmem => h (List.mem_cons_of_mem _ hmem)) (resolve_after _ hout)
  | mention n owner rest ih =>
    refine List.forall_mem_cons.mpr ⟨?_, ih h hout⟩
    rintro rfl
    exact hout
  | block inner rest ihInner ih =>
    obtain ⟨hinner, hrest⟩ := not_or.mp (fun hmem => h (List.mem_append.mpr hmem))
    refine List.forall_mem_append.mpr ⟨ihInner hinner ?_, ih hrest hout⟩
    rw [resolve_cons_of_not_mem fun hmem => hinner (inner.locals_subset_names hmem)]
    exact hout

end Scope

end Derw.Script
