import Derw.Proofs.Match.Code
import Derw.Script.Lower

/-!
# Proofs/Case/Run — what the statements of a body do

A body ends in a `return`, or it runs off its end. Where it stands in a `switch` that makes a
difference: control falls through to the block of the next label, whatever that label says. A `Run`
therefore keeps the branches whose bodies were entered, each with the value its case looked at
(`Visit`), next to how control left.

What terms mean stays open (`Host`). Two things are no program at all, and running them is a fault:
a `switch` with a second `default`, and a destructuring that declares a name twice.
-/

namespace Derw.Script

variable {V : Type}

/-- What statements have to know of the rest of the program. -/
structure Host (V : Type) where
  values : Values V
  /-- The value of a term, if it has one. -/
  eval : Store V → Term → Option (Held V)
  isTrue : Held V → Bool
  /-- The value of a function that is declared here. -/
  closure : Store V → List Parameter → List Stmt → Held V

/-- What stands before the body of a branch. -/
inductive Label
  | tag (name : String)
  | otherwise
  | nest (n : Nest)
  deriving DecidableEq, Repr

/-- The body of a branch is entered. -/
structure Visit (V : Type) where
  /-- The variable that holds the subject of the case. -/
  subject : String
  value : Held V
  label : Label
  /-- Whether control fell out of the body before this one. -/
  fell : Bool
  deriving DecidableEq

/-- How control leaves statements. -/
inductive Flow (V : Type)
  /-- At their end. -/
  | ended (σ : Store V)
  | returned (value : Held V)
  | fault

structure Run (V : Type) where
  visits : List (Visit V)
  flow : Flow V

namespace Run

/-- Nothing happens. -/
def done (σ : Store V) : Run V := ⟨[], .ended σ⟩

def fault : Run V := ⟨[], .fault⟩

/-- Goes on where control ended. -/
def andThen (r : Run V) (next : Store V → Run V) : Run V :=
  match r.flow with
  | .ended σ => ⟨r.visits ++ (next σ).visits, (next σ).flow⟩
  | .returned _ | .fault => r

/-- Hides what was declared in a block. -/
def within (σ : Store V) (r : Run V) : Run V :=
  ⟨r.visits, match r.flow with
    | .ended _ => .ended σ
    | .returned h => .returned h
    | .fault => .fault⟩

/-- The run of a body, with the visit that it is. -/
def visiting (v : Visit V) (r : Run V) : Run V := ⟨v :: r.visits, r.flow⟩

variable {r : Run V} {f g : Store V → Run V} {σ τ : Store V} {v : Visit V}

/-- Control does not run off the end. -/
def Returns (r : Run V) : Prop := ∀ σ, r.flow ≠ .ended σ

theorem returns_fault : (fault : Run V).Returns := fun _ h => by cases h

theorem Returns.andThen_eq (h : r.Returns) (f : Store V → Run V) : r.andThen f = r := by
  rw [andThen]
  split
  next σ hσ => exact absurd hσ (h σ)
  next => rfl
  next => rfl

theorem Returns.left (h : r.Returns) (f : Store V → Run V) : (r.andThen f).Returns := by
  rwa [h.andThen_eq]

theorem andThen_of_ended (h : r.flow = .ended σ) (f : Store V → Run V) :
    r.andThen f = ⟨r.visits ++ (f σ).visits, (f σ).flow⟩ := by
  rw [andThen, h]

@[simp] theorem done_andThen (σ : Store V) (f : Store V → Run V) : (done σ).andThen f = f σ := rfl

/-- Either control returns, or it ends somewhere. -/
theorem returns_or_ended (r : Run V) : r.Returns ∨ ∃ σ, r.flow = .ended σ := by
  cases h : r.flow with
  | ended σ => exact Or.inr ⟨σ, rfl⟩
  | returned | fault => exact Or.inl fun σ hσ => by rw [h] at hσ; cases hσ

theorem andThen_assoc (r : Run V) (f g : Store V → Run V) :
    (r.andThen f).andThen g = r.andThen fun σ => (f σ).andThen g := by
  rcases r.returns_or_ended with h | ⟨σ, h⟩
  · rw [h.andThen_eq, h.andThen_eq, h.andThen_eq]
  · rw [andThen_of_ended h, andThen_of_ended h]
    rcases (f σ).returns_or_ended with hf | ⟨τ, hf⟩
    · have hr : Returns ⟨r.visits ++ (f σ).visits, (f σ).flow⟩ := hf
      rw [hr.andThen_eq, hf.andThen_eq]
    · have hr : (⟨r.visits ++ (f σ).visits, (f σ).flow⟩ : Run V).andThen g
          = ⟨r.visits ++ (f σ).visits ++ (g τ).visits, (g τ).flow⟩ := by rw [andThen, hf]
      rw [hr, andThen_of_ended hf, List.append_assoc]

@[simp] theorem andThen_done (r : Run V) : r.andThen done = r := by
  rcases r.returns_or_ended with h | ⟨σ, h⟩
  · exact h.andThen_eq _
  · rw [andThen_of_ended h]
    obtain ⟨visits, flow⟩ := r
    obtain rfl : flow = .ended σ := h
    exact congrArg (Run.mk · (.ended σ)) (List.append_nil visits)

/-- The visits of two runs, one after the other. -/
theorem forall_mem_andThen {P : Visit V → Prop} (hr : ∀ v ∈ r.visits, P v)
    (hf : ∀ σ, r.flow = .ended σ → ∀ v ∈ (f σ).visits, P v) : ∀ v ∈ (r.andThen f).visits, P v := by
  rcases r.returns_or_ended with h | ⟨σ, h⟩
  · rwa [h.andThen_eq]
  · rw [andThen_of_ended h]
    exact List.forall_mem_append.mpr ⟨hr, hf σ h⟩

theorem Returns.andThen (h : ∀ σ, r.flow = .ended σ → (f σ).Returns) : (r.andThen f).Returns := by
  rcases r.returns_or_ended with hr | ⟨σ, hr⟩
  · rwa [hr.andThen_eq]
  · rw [andThen_of_ended hr]
    exact h σ hr

theorem Returns.within (h : r.Returns) (σ : Store V) : (r.within σ).Returns := by
  intro τ
  rw [Run.within]
  cases hr : r.flow with
  | ended ρ => exact absurd hr (h ρ)
  | returned | fault => exact fun h => by cases h

/-- After a block nothing that was declared in it is left. -/
theorem flow_within (h : (r.within σ).flow = .ended τ) : τ = σ := by
  rw [Run.within] at h
  cases hr : r.flow with
  | ended ρ =>
    rw [hr] at h
    exact (Flow.ended.inj h).symm
  | returned | fault =>
    rw [hr] at h
    cases h

end Run

/-- Declares a name for a value, if there is one. -/
def declareValue (σ : Store V) (name : String) : Option (Held V) → Run V
  | some h => .done ((.name name, h) :: σ)
  | none => .fault

/-! ## Labels -/

def Arm.tag : Arm → Option String
  | .mk tag _ _ => tag

/-- Whether a value has the tag of a label. A default label has none. -/
def passesLabel (m : Values V) (h : Held V) (tag : Option String) : Bool :=
  tag.any fun t => h.test m (.tag t) == some true

/-- The label at which a value enters: the first one it has the tag of, else the default one,
wherever that stands. -/
def entryPoint? (m : Values V) (h : Held V) (tags : List (Option String)) : Option Nat :=
  (tags.findIdx? (passesLabel m h)).or (tags.findIdx? Option.isNone)

/-- Whether no destructuring of a list declares a name twice. -/
def Nest.declaresOnce : Nest → Bool
  | .body => true
  | .bind (.elements names rest) n => (names ++ rest.toList).Nodup && n.declaresOnce
  | .bind _ n | .guard _ n | .search _ _ _ n | .scope n => n.declaresOnce

def Label.ofTag : Option String → Label
  | some t => .tag t
  | none => .otherwise

/-- Runs the body of a match, if control arrives there. A match stands in a block of its own. -/
def Nest.enter (m : Values V) (v : Visit V) (body : Store V → Run V) (n : Nest) (σ : Store V) :
    Run V :=
  match n.code.run m v.value σ with
  | .entered τ => ((body τ).visiting v).within σ
  | .ended _ => .done σ
  | .exited _ | .fault => .fault

section

variable {m : Values V} {v : Visit V} {body : Store V → Run V} {n : Nest} {σ τ : Store V}

theorem Nest.forall_mem_enter {P : Visit V → Prop}
    (hv : ∀ τ, n.code.run m v.value σ = .entered τ → P v)
    (hbody : ∀ τ, ∀ w ∈ (body τ).visits, P w) : ∀ w ∈ (n.enter m v body σ).visits, P w := by
  rw [enter]
  cases h : n.code.run m v.value σ with
  | entered τ => exact List.forall_mem_cons.mpr ⟨hv τ h, hbody τ⟩
  | ended | exited | fault => exact fun _ hw => absurd hw List.not_mem_nil

theorem Nest.returns_enter (hn : ∀ τ, n.code.run m v.value σ ≠ .ended τ)
    (hbody : ∀ τ, (body τ).Returns) : (n.enter m v body σ).Returns := by
  rw [enter]
  cases h : n.code.run m v.value σ with
  | entered τ =>
    have hvisit : ((body τ).visiting v).Returns := hbody τ
    exact hvisit.within σ
  | ended τ => exact absurd h (hn τ)
  | exited | fault => exact Run.returns_fault

theorem Nest.flow_enter (h : (n.enter m v body σ).flow = .ended τ) : τ = σ := by
  rw [enter] at h
  split at h
  · exact Run.flow_within h
  · exact (Flow.ended.inj h).symm
  · cases h
  · cases h

/-- Declarations do not end before the body. -/
theorem run_binds_ne_ended (bs : List Bind) (h : Held V) (σ τ : Store V) :
    (Nest.binds bs .body).code.run m h σ ≠ .ended τ := by
  induction bs generalizing σ with
  | nil => exact fun h => by cases h
  | cons b bs ih =>
    change (Code.const b (Nest.binds bs .body).code).run m h σ ≠ .ended τ
    rw [Code.run]
    cases b.entries m h σ with
    | none => exact fun h => by cases h
    | some es => exact ih _

end

/-! ## Statements -/

mutual

def Stmt.exec (H : Host V) : Stmt → Store V → Run V
  | .return value, σ => ⟨[], (H.eval σ value).elim .fault .returned⟩
  | .const name _ value, σ => declareValue σ name (H.eval σ value)
  | .hold name value, σ => declareValue σ name (H.eval σ value)
  | .function name params _ body, σ => .done ((.name name, H.closure σ params body) :: σ)
  | .ifElse condition yes no, σ =>
    match H.eval σ condition with
    | some h => if H.isTrue h then (execAll H yes σ).within σ else (execAll H no σ).within σ
    | none => .fault
  | .switch subject arms, σ =>
    match σ.lookup (.name subject) with
    | some h =>
      if (arms.map Arm.tag).count none ≤ 1 then
        match entryPoint? H.values h (arms.map Arm.tag) with
        | some i => execArms H subject h i false arms σ
        | none => .done σ
      else .fault
    | none => .fault
  | .branch subject nest body, σ =>
    match σ.lookup (.name subject) with
    | some h =>
      if nest.declaresOnce then
        nest.enter H.values ⟨subject, h, .nest nest, false⟩ (execAll H body) σ
      else .fault
    | none => .fault

def execAll (H : Host V) : List Stmt → Store V → Run V
  | [], σ => .done σ
  | s :: ss, σ => (s.exec H σ).andThen (execAll H ss)

/-- Runs the blocks of a `switch` on a value, without the first `skip` of them. Control falls from
one block into the next. -/
def execArms (H : Host V) (subject : String) (h : Held V) :
    (skip : Nat) → (fell : Bool) → List Arm → Store V → Run V
  | _, _, [], σ => .done σ
  | skip + 1, fell, _ :: arms, σ => execArms H subject h skip fell arms σ
  | 0, fell, .mk tag binds body :: arms, σ =>
    ((Nest.binds binds .body).enter H.values ⟨subject, h, .ofTag tag, fell⟩ (execAll H body)
      σ).andThen (execArms H subject h 0 true arms)

end

section

variable (H : Host V) {ss : List Stmt} {σ τ : Store V}

theorem exec_return (t : Term) (σ : Store V) :
    (Stmt.return t).exec H σ = ⟨[], (H.eval σ t).elim .fault .returned⟩ := by
  rw [Stmt.exec.eq_def]

theorem exec_const (n : String) (type : Ty) (t : Term) (σ : Store V) :
    (Stmt.const n type t).exec H σ = declareValue σ n (H.eval σ t) := by
  rw [Stmt.exec.eq_def]

theorem exec_hold (n : String) (t : Term) (σ : Store V) :
    (Stmt.hold n t).exec H σ = declareValue σ n (H.eval σ t) := by
  rw [Stmt.exec.eq_def]

/-- A conditional runs one of its arms. -/
theorem exec_ifElse (c : Term) (yes no : List Stmt) (σ : Store V) :
    (Stmt.ifElse c yes no).exec H σ = .fault ∨
      (Stmt.ifElse c yes no).exec H σ = (execAll H yes σ).within σ ∨
      (Stmt.ifElse c yes no).exec H σ = (execAll H no σ).within σ := by
  have hexec : (Stmt.ifElse c yes no).exec H σ = match H.eval σ c with
      | some h => if H.isTrue h then (execAll H yes σ).within σ else (execAll H no σ).within σ
      | none => .fault := by rw [Stmt.exec.eq_def]
  rw [hexec]
  cases H.eval σ c with
  | none => exact Or.inl rfl
  | some h =>
    cases hc : H.isTrue h with
    | true => exact Or.inr (Or.inl (if_pos hc))
    | false => exact Or.inr (Or.inr (if_neg (by simp [hc])))

theorem exec_switch {s : String} {h : Held V} (arms : List Arm) {σ : Store V}
    (hσ : σ.lookup (.name s) = some h) :
    (Stmt.switch s arms).exec H σ = if (arms.map Arm.tag).count none ≤ 1 then
      (match entryPoint? H.values h (arms.map Arm.tag) with
        | some i => execArms H s h i false arms σ
        | none => .done σ) else .fault := by
  rw [Stmt.exec.eq_def]
  simp only [hσ]

theorem exec_branch {s : String} {h : Held V} (n : Nest) (body : List Stmt) {σ : Store V}
    (hσ : σ.lookup (.name s) = some h) :
    (Stmt.branch s n body).exec H σ = if n.declaresOnce then
      n.enter H.values ⟨s, h, .nest n, false⟩ (execAll H body) σ else .fault := by
  rw [Stmt.exec.eq_def]
  simp only [hσ]

/-- After a branch that control leaves at its end, nothing has changed. -/
theorem flow_branch {s : String} {h : Held V} {n : Nest} {body : List Stmt}
    (hσ : σ.lookup (.name s) = some h)
    (hended : ((Stmt.branch s n body).exec H σ).flow = .ended τ) : τ = σ := by
  rw [exec_branch H n body hσ] at hended
  split at hended
  · exact Nest.flow_enter hended
  · cases hended

theorem execAll_cons (s : Stmt) (ss : List Stmt) (σ : Store V) :
    execAll H (s :: ss) σ = (s.exec H σ).andThen (execAll H ss) := by
  rw [execAll.eq_def]

theorem execAll_append (ss ts : List Stmt) (σ : Store V) :
    execAll H (ss ++ ts) σ = (execAll H ss σ).andThen (execAll H ts) := by
  induction ss generalizing σ with
  | nil => rfl
  | cons s ss ih =>
    rw [List.cons_append, execAll_cons, execAll_cons, Run.andThen_assoc]
    exact congrArg _ (funext ih)

/-- A single statement. -/
theorem execAll_singleton (s : Stmt) (σ : Store V) : execAll H [s] σ = s.exec H σ := by
  rw [execAll_cons]
  exact Run.andThen_done _

/-- Blocks that are skipped might as well not be there. -/
theorem execArms_skip (subject : String) (h : Held V) (k : Nat) (fell : Bool) (arms : List Arm)
    (σ : Store V) :
    execArms H subject h k fell arms σ = execArms H subject h 0 fell (arms.drop k) σ := by
  induction k generalizing arms with
  | zero => rfl
  | succ k ih =>
    cases arms with
    | nil => rfl
    | cons a arms =>
      rw [List.drop_succ_cons, ← ih, execArms.eq_def]

theorem execArms_cons (subject : String) (h : Held V) (fell : Bool) (tag : Option String)
    (binds : List Bind) (body : List Stmt) (arms : List Arm) (σ : Store V) :
    execArms H subject h 0 fell (.mk tag binds body :: arms) σ
      = ((Nest.binds binds .body).enter H.values ⟨subject, h, .ofTag tag, fell⟩ (execAll H body)
        σ).andThen (execArms H subject h 0 true arms) := by
  rw [execArms.eq_def]

end

end Derw.Script
