import Derw.Proofs.Match.Blocks

/-!
# Proofs/Match/Arrival — the statements of a plan arrive where its steps do

A plan keeps what it declares in a store, the program in blocks. As long as no name is declared
twice, the two agree on all that a statement reads (`Agrees`): what a block has yet to declare is
hidden, but it is not read before. So the nested steps arrive at the body just when the steps run to
their end (`alike_ofSteps`), by induction on the steps, with the checks kept back as part of the
statement.

With a name that is declared twice they need not: `start_ofSteps_twice`.
-/

namespace Derw.Script

variable {V : Type}

/-! ## Names in scope -/

namespace Env

variable {ρ τ : Env V} {n : String} {names : List String} {entries : List (String × Held V)}

@[simp] theorem hide_nil (ρ : Env V) : ρ.hide [] = ρ := funext fun _ => if_neg List.not_mem_nil

@[simp] theorem leave_nil (ρ : Env V) : leave [] ρ = fun τ => τ :=
  funext fun _ => funext fun _ => if_neg List.not_mem_nil

theorem hide_of_not_mem (h : n ∉ names) : ρ.hide names n = ρ n := if_neg h

/-- Other names keep what they hold. -/
theorem declare_of_not_mem (h : n ∉ entries.map (·.1)) : ρ.declare entries n = ρ n := by
  have hnone : entries.reverse.lookup n = none := by
    refine List.lookup_eq_none_iff.mpr fun e he => bne_iff_ne.mpr ?_
    rintro rfl
    exact h (List.mem_map_of_mem (List.mem_reverse.mp he))
  rw [declare, hnone, Option.none_or]

/-- What a name holds from its declaration on does not depend on what was in scope before. -/
theorem exists_declare_eq (h : n ∈ entries.map (·.1)) :
    ∃ held, entries.reverse.lookup n = some held ∧
      ∀ ρ : Env V, ρ.declare entries n = some held := by
  obtain ⟨held, hheld⟩ : ∃ held, entries.reverse.lookup n = some held := by
    rw [← Option.isSome_iff_exists, Option.isSome_iff_ne_none, Ne, List.lookup_eq_none_iff]
    obtain ⟨e, he, rfl⟩ := List.mem_map.mp h
    exact fun hall => by simpa using hall e (List.mem_reverse.mpr he)
  exact ⟨held, hheld, fun ρ => by rw [declare, hheld, Option.some_or]⟩

@[simp] theorem declare_self (n : String) (h : Held V) : ρ.declare [(n, h)] n = some h := by
  simp [declare]

theorem declare_of_ne {k : String} (h : n ≠ k) (held : Held V) :
    ρ.declare [(k, held)] n = ρ n := declare_of_not_mem (by simpa using h)

end Env

/-- What a store declares, it declares in the environment. -/
theorem Store.env_declare (σ : Store V) (entries : List (String × Held V)) (outer : Env V) :
    (σ.declare entries).env outer = (σ.env outer).declare entries := by
  funext n
  rw [env, Env.declare, lookup_name_declare, Option.or_assoc]
  rfl

/-- The counters of a search have different names. -/
theorem foundName_ne_loopName (a b : Nat) : foundName a ≠ loopName b := by
  intro h
  have hletter : (foundName a).toList[1]? = (loopName b).toList[1]? := by rw [h]
  simp [foundName, loopName] at hletter

/-! ## Looking up by name -/

section

variable {M : Meaning V} {s : String} {subject : Held V} {ρ : Env V} {σ : Store V}

/-- Variables that are found under their names give the same index. -/
theorem Index.at_eq {i : Index} (h : ∀ v ∈ i.reads, ρ v.text = σ.lookup v) :
    i.at ρ = i.value σ := by
  rw [Index.at, Index.value]
  cases hb : i.base with
  | none => rfl
  | some id =>
    have hid : ρ (foundName id) = σ.lookup (.found id) := h (.found id) (by simp [Index.reads, hb])
    dsimp only
    generalize ρ (foundName id) = held at hid ⊢
    subst hid
    rfl

theorem Place.at_eq (hs : ρ s = some subject) {place : Place}
    (h : ∀ v ∈ place.reads, ρ v.text = σ.lookup v) : place.at s ρ = place.value subject σ := by
  cases place with
  | subject => exact hs
  | name n => exact h (.name n) List.mem_cons_self

/-- A condition holds by name if it does in the store, where its template is settled. -/
theorem Cond.holdsAt_eq (hs : ρ s = some subject) {c : Cond}
    (h : ∀ v ∈ c.reads, ρ v.text = σ.lookup v) :
    c.holdsAt M s ρ = (c.settle M ρ).bind (Cond.holds M.toValues subject σ) := by
  cases c with
  | lengthAtLeast n => simp [holdsAt, settle, holds, hs]
  | lengthOver i | lengthIs i =>
    rw [holdsAt, hs, Index.at_eq h]
    cases hi : i.value σ <;> simp [settle, holds, hi]
  | passes place t =>
    rw [holdsAt, Place.at_eq hs h]
    cases hp : place.value subject σ <;> cases ht : t.settle M ρ <;> simp [settle, holds, hp, ht]

/-- And the same entries. -/
theorem Bind.entriesAt_eq (hs : ρ s = some subject) {b : Bind}
    (h : ∀ v ∈ b.reads, ρ v.text = σ.lookup v) :
    b.entriesAt M s ρ = b.entries M.toValues subject σ := by
  cases b with
  | fields pattern source => rw [entriesAt, entries, Place.at_eq hs h]
  | element n i =>
    rw [entriesAt, entries, hs, Index.at_eq h]
    rfl
  | slice n start stop =>
    obtain ⟨hstart, hstop⟩ := List.forall_mem_append.mp h
    rw [entriesAt, entries, hs, Index.at_eq hstart]
    cases stop with
    | none => rfl
    | some j =>
      simp only [Option.elim_some, Index.at_eq hstop]
      rfl
  | elements names rest =>
    rw [entriesAt, entries, hs]
    rfl

/-- What a declaration declares has its names. -/
theorem Bind.map_fst_entries {m : Values V} {b : Bind} {entries : List (String × Held V)}
    (h : b.entries m subject σ = some entries) : entries.map (·.1) = b.names m.fieldNames := by
  cases b with
  | fields pattern source =>
    obtain ⟨held, -, h⟩ := Option.bind_eq_some_iff.mp h
    cases held with
    | one v =>
      obtain rfl := Option.some.inj h
      simp [names, Values.fieldNames]
    | many | position => cases h
  | element n i =>
    simp only [Bind.entries, Option.bind_eq_bind, Option.bind_eq_some_iff] at h
    obtain ⟨xs, -, k, -, v, -, h⟩ := h
    obtain rfl := Option.some.inj h
    rfl
  | slice n start stop =>
    simp only [Bind.entries, Option.bind_eq_bind, Option.bind_eq_some_iff] at h
    obtain ⟨xs, -, k, -, j, -, h⟩ := h
    obtain rfl := Option.some.inj h
    rfl
  | elements ns rest =>
    simp only [Bind.entries, Option.bind_eq_bind, Option.bind_eq_some_iff] at h
    obtain ⟨xs, -, h⟩ := h
    split at h
    next hlen =>
      obtain rfl := Option.some.inj h
      have hzip : (ns.zip (xs.map Held.one)).map (·.1) = ns :=
        List.map_fst_zip (by simpa using hlen)
      cases rest <;> simp [names, hzip]
    next => cases h

end

/-! ## What steps declare and test -/

namespace Step

/-- The names that steps declare: those of the pattern, those made up for elements, and those of
the searches. -/
def names (fields : String → List String) (ss : List Step) : List String :=
  ss.flatMap fun
    | .check _ => []
    | .bind b => b.names fields
    | .scan id .. => [foundName id]

/-- The counters of searches, as the program names them. -/
def counters (ss : List Step) : List String :=
  (searches ss).flatMap fun id => [foundName id, loopName id]

/-- The tests that steps make. -/
def tests (ss : List Step) : List Test :=
  ss.filterMap fun
    | .check (.passes _ t) | .scan _ _ t => some t
    | .check _ | .bind _ => none

end Step

/-- A test does not depend on what these names hold. -/
def Test.Avoids (M : Meaning V) (names : List String) (t : Test) : Prop :=
  ∀ ρ τ : Env V, (∀ n ∉ names, ρ n = τ n) → t.settle M ρ = t.settle M τ

/-! ## Stores and blocks that agree -/

section

variable (s : String) (subject : Held V) (outer : Env V) (counters : List String)

/-- A store and the names in scope agree, where the variables `bound` may be read. Of the names, the
store has declared some of `known`, and the block has yet to declare `hidden`. -/
structure Agrees (bound : List Var) (known hidden : List String) (ρ : Env V) (σ : Store V) :
    Prop where
  subject : ρ s = some subject
  reads : ∀ v ∈ bound, ρ v.text = σ.lookup v
  env : ∀ n ∉ hidden, σ.lookup (.name n) ≠ none ∨ n ∉ counters → ρ n = σ.env outer n
  known : ∀ n ∉ known, σ.lookup (.name n) = none
  counted : ∀ v ∉ bound, σ.lookup v ≠ none → ∃ n, v = .name n

end

namespace Agrees

variable {s : String} {subject : Held V} {outer : Env V} {counters : List String}
  {bound : List Var} {known hidden : List String} {ρ : Env V} {σ : Store V}

/-- Entering a block that declares none of the names that may be read. -/
theorem hide (h : Agrees s subject outer counters bound known [] ρ σ) (hs : s ∉ hidden)
    (hbound : ∀ v ∈ bound, v.text ∉ hidden) :
    Agrees s subject outer counters bound known hidden (ρ.hide hidden) σ where
  subject := (Env.hide_of_not_mem hs).trans h.subject
  reads v hv := (Env.hide_of_not_mem (hbound v hv)).trans (h.reads v hv)
  env n hn hcounter := (Env.hide_of_not_mem hn).trans (h.env n List.not_mem_nil hcounter)
  known := h.known
  counted := h.counted

/-- Coming to a declaration of names that may not be read before it. -/
theorem declare {M : Meaning V} {b : Bind} {entries : List (String × Held V)}
    (h : Agrees s subject outer counters bound known (b.names M.fieldNames ++ hidden) ρ σ)
    (hs : s ∉ b.names M.fieldNames) (hbound : ∀ v ∈ bound, v.text ∉ b.names M.fieldNames)
    (hentries : b.entries M.toValues subject σ = some entries) :
    Agrees s subject outer counters (b.declares ++ bound) (b.names M.fieldNames ++ known) hidden
      (ρ.declare entries) (σ.declare entries) := by
  have hkeys := Bind.map_fst_entries hentries
  have hold : ∀ v : Var, v.text ∉ b.names M.fieldNames →
      (σ.declare entries).lookup v = σ.lookup v := by
    refine fun v hv => σ.lookup_declare_of_ne fun e he => ?_
    rintro rfl
    exact hv (hkeys ▸ List.mem_map_of_mem he)
  refine ⟨?_, List.forall_mem_append.mpr ⟨fun v hv => ?_, fun v hv => ?_⟩, fun n hn hseen => ?_,
    fun n hn => ?_, fun v hv hseen => ?_⟩
  · rw [Env.declare_of_not_mem (hkeys ▸ hs), h.subject]
  · obtain ⟨n, hn, rfl⟩ := Bind.exists_name_of_mem_declares hv M.fieldNames
    obtain ⟨held, hheld, hnew⟩ := Env.exists_declare_eq (hkeys ▸ hn)
    rw [Var.text, hnew, Store.lookup_name_declare, hheld, Option.some_or]
  · rw [Env.declare_of_not_mem (hkeys ▸ hbound v hv), h.reads v hv, hold v (hbound v hv)]
  · rw [Store.env_declare]
    by_cases hmem : n ∈ b.names M.fieldNames
    · obtain ⟨held, -, hnew⟩ := Env.exists_declare_eq (hkeys ▸ hmem)
      rw [hnew, hnew]
    · rw [hold (.name n) hmem] at hseen
      rw [Env.declare_of_not_mem (hkeys ▸ hmem), Env.declare_of_not_mem (hkeys ▸ hmem)]
      exact h.env n (by simp [hmem, hn]) hseen
  · rw [List.mem_append, not_or] at hn
    rw [hold (.name n) hn.1, h.known n hn.2]
  · rw [List.mem_append, not_or] at hv
    cases v with
    | name n => exact ⟨n, rfl⟩
    | found | loop =>
      rw [σ.lookup_declare_of_ne fun _ _ h => by cases h] at hseen
      exact h.counted _ hv.2 hseen

/-- A search that declares its counter, and sets it. -/
theorem found {id : Nat}
    (h : Agrees s subject outer counters bound known (foundName id :: hidden) ρ σ)
    (hs : s ≠ foundName id) (hbound : ∀ v ∈ bound, v.text ≠ foundName id)
    (hcounter : foundName id ∈ counters) (hnew : foundName id ∉ known) (held : Held V) :
    Agrees s subject outer counters (.found id :: bound) (foundName id :: known) hidden
      (ρ.declare [(foundName id, held)]) ((.found id, held) :: σ) where
  subject := (Env.declare_of_ne hs held).trans h.subject
  reads := by
    refine List.forall_mem_cons.mpr ⟨?_, fun v hv => ?_⟩
    · rw [Var.text, Env.declare_self, List.lookup_cons_self]
    · have hne : (v == .found id) = false :=
        beq_eq_false_iff_ne.mpr fun heq => hbound v hv (congrArg Var.text heq)
      rw [Env.declare_of_ne (hbound v hv), List.lookup_cons, hne, h.reads v hv]
  env := by
    intro n hn hseen
    by_cases hid : n = foundName id
    · subst hid
      exact (hseen.elim (fun hne => hne (h.known _ hnew)) (absurd hcounter)).elim
    · rw [Env.declare_of_ne hid]
      exact h.env n (by simp [hid, hn]) hseen
  known := fun n hn => h.known n fun hmem => hn (List.mem_cons_of_mem _ hmem)
  counted := by
    intro v hv hseen
    rw [List.mem_cons, not_or] at hv
    rw [List.lookup_cons, beq_eq_false_iff_ne.mpr hv.1] at hseen
    exact h.counted v hv.2 hseen

end Agrees

/-! ## Arriving alike -/

/-- Statements arrive at the body just when the steps run to their end, in scopes that are the
`same`. -/
inductive Alike (same : Env V → Store V → Prop) : Outcome (Env V) → Except Halt (Store V) → Prop
  | arrives {ρ σ} (h : same ρ σ) : Alike same (.entered ρ) (.ok σ)
  | stops {o e} (h : ∀ ρ, o ≠ .entered ρ) : Alike same o (.error e)

/-- The body sees what the steps have declared, and besides it what is in scope outside, unless a
counter has its name. -/
structure Same (outer : Env V) (counters : List String) (ρ : Env V) (σ : Store V) : Prop where
  reads : ∀ v held, σ.lookup v = some held → ρ v.text = some held
  env : ∀ n ∉ counters, ρ n = σ.env outer n

namespace Alike

variable {same : Env V → Store V → Prop} {o : Outcome (Env V)} {r : Except Halt (Store V)}

/-- Only the store of a run that succeeds matters. -/
theorem congr {r' : Except Halt (Store V)} (h : Alike same o r) (hr : ∀ σ, r = .ok σ ↔ r' = .ok σ) :
    Alike same o r' := by
  cases h with
  | @arrives ρ σ h => exact (hr σ).mp rfl ▸ .arrives h
  | stops h =>
    cases r' with
    | ok σ => cases (hr σ).mpr rfl
    | error => exact .stops h

/-- A block at the end of the statements. -/
theorem close (h : Alike same o r) (f : Env V → Env V) :
    Alike same ((o.close f).andThen .ended) r := by
  cases h with
  | arrives h => exact .arrives h
  | stops h =>
    refine .stops fun ρ => ?_
    cases o with
    | entered τ => exact absurd rfl (h τ)
    | ended | exited | fault => exact fun h => by cases h

end Alike

section

variable {M : Meaning V} {s : String} {subject : Held V} {outer : Env V} {counters : List String}
  {bound : List Var} {known : List String} {ρ : Env V} {σ : Store V} {ss : List Step}

/-- A template that avoids the counters says the same in the block and in the store. -/
theorem Agrees.settle_eq (h : Agrees s subject outer counters bound known [] ρ σ) {t : Test}
    (ht : t.Avoids M counters) : t.settle M ρ = t.settle M (σ.env outer) :=
  ht _ _ fun n hn => h.env n List.not_mem_nil (.inr hn)

/-- Where nothing is hidden any more. -/
theorem Agrees.same (h : Agrees s subject outer counters bound known [] ρ σ) :
    Same outer counters ρ σ where
  env n hn := h.env n List.not_mem_nil (.inr hn)
  reads v held hv := by
    by_cases hbound : v ∈ bound
    · rw [h.reads v hbound, hv]
    · have hseen : σ.lookup v ≠ none := by simp [hv]
      obtain ⟨n, rfl⟩ := h.counted v hbound hseen
      rw [Var.text, h.env n List.not_mem_nil (.inl hseen), Store.env, hv, Option.some_or]

/-- A condition settles the same where its templates are read. -/
theorem Agrees.cond_settle_eq (h : Agrees s subject outer counters bound known [] ρ σ) {c : Cond}
    (hc : ∀ t ∈ Step.tests [.check c], t.Avoids M counters) :
    c.settle M ρ = c.settle M (σ.env outer) := by
  cases c with
  | lengthAtLeast | lengthOver | lengthIs => rfl
  | passes place t => exact congrArg (Option.map _) (h.settle_eq (hc t (by simp [Step.tests])))

/-- Conditions that share a guard are checks one after the other. -/
theorem Agrees.runAllIn_checks (h : Agrees s subject outer counters bound known [] ρ σ)
    {cs : List Cond} (hreads : ∀ c ∈ cs, c.reads ⊆ bound)
    (htests : ∀ t ∈ Step.tests (cs.map .check), t.Avoids M counters) :
    Step.runAllIn M outer subject σ (cs.map .check ++ ss)
      = match Guard.allHoldAt M s ρ (cs.map .cond) with
        | some true => Step.runAllIn M outer subject σ ss
        | some false => .error .mismatch
        | none => .error .fault := by
  induction cs with
  | nil => rfl
  | cons c cs ih =>
    obtain ⟨hc, hreads⟩ := List.forall_mem_cons.mp hreads
    have hsplit : Step.tests ((c :: cs).map .check)
        = Step.tests [.check c] ++ Step.tests (cs.map .check) := by
      rw [List.map_cons, ← List.singleton_append, Step.tests, List.filterMap_append]
      rfl
    rw [hsplit] at htests
    obtain ⟨hct, htests⟩ := List.forall_mem_append.mp htests
    have hholds : (Guard.cond c).holdsAt M s ρ
        = (c.settle M (σ.env outer)).bind (Cond.holds M.toValues subject σ) := by
      rw [Guard.holdsAt, Cond.holdsAt_eq h.subject fun v hv => h.reads v (hc hv),
        h.cond_settle_eq hct]
    rw [List.map_cons, List.cons_append, Step.runAllIn, Step.runIn, Step.settle, List.map_cons,
      Guard.allHoldAt, hholds]
    cases c.settle M (σ.env outer) with
    | none => rfl
    | some d =>
      rw [Option.map_some, Option.bind_some]
      dsimp only
      rw [Step.run]
      rcases d.holds M.toValues subject σ with _ | _ | _
      · rfl
      · rfl
      · exact ih hreads htests

/-- Guards and, if they hold, what stands inside. -/
theorem Code.exec_when (gs : List Guard) (inner : Code) :
    (Code.when gs inner .done).exec M s ρ
      = match Guard.allHoldAt M s ρ gs with
        | some true => ((inner.exec M s (ρ.hide (inner.declared M.fieldNames))).close
            (ρ.leave (inner.declared M.fieldNames))).andThen .ended
        | some false => .ended ρ
        | none => .fault := by
  rw [Code.exec]
  rfl

end

/-! ## Nested steps -/

section

variable (M : Meaning V) (s : String) (counters : List String)

/-- Steps that may be run where the variables `bound` may be read and the names `known` are
declared: they declare other names, and their tests leave the counters alone. -/
structure Ready (bound : List Var) (known : List String) (ss : List Step) : Prop where
  inScope : Step.Scoped bound ss
  names : (s :: (known ++ Step.names M.fieldNames ss)).Nodup
  bound : ∀ v ∈ bound, v.text ∈ known
  tests : ∀ t ∈ Step.tests ss, t.Avoids M counters
  searches : ∀ id ∈ Step.searches ss,
    foundName id ∈ counters ∧ loopName id ∈ counters ∧ s ≠ loopName id

end

section

variable {M : Meaning V} {s : String} {subject : Held V} {outer : Env V} {counters : List String}
  {bound : List Var} {known : List String} {ρ : Env V} {σ : Store V} {ss : List Step}
  {cs : List Cond}

namespace Ready

theorem subject_not_mem (h : Ready M s counters bound known ss) :
    s ∉ Step.names M.fieldNames ss :=
  fun hs => (List.nodup_cons.mp h.names).1 (List.mem_append_right _ hs)

theorem text_not_mem (h : Ready M s counters bound known ss) :
    ∀ v ∈ bound, v.text ∉ Step.names M.fieldNames ss := fun v hv hmem =>
  (List.nodup_append.mp (List.nodup_cons.mp h.names).2).2.2 _ (h.bound v hv) _ hmem rfl

/-- Entering a block that declares names of these steps only. -/
theorem hide (h : Ready M s counters bound known ss)
    (hA : Agrees s subject outer counters bound known [] ρ σ) {hidden : List String}
    (hsub : hidden ⊆ Step.names M.fieldNames ss) :
    Agrees s subject outer counters bound known hidden (ρ.hide hidden) σ :=
  hA.hide (fun hs => h.subject_not_mem (hsub hs)) fun v hv hmem => h.text_not_mem v hv (hsub hmem)

/-- Checks that are kept back declare nothing. -/
theorem of_checks (h : Ready M s counters bound known (cs.map .check ++ ss)) :
    (∀ c ∈ cs, c.reads ⊆ bound) ∧ (∀ t ∈ Step.tests (cs.map .check), t.Avoids M counters) ∧
      Ready M s counters bound known ss := by
  obtain ⟨hreads, hscoped⟩ := Step.scoped_checks.mp h.inScope
  obtain ⟨hchecks, htests⟩ : (∀ t ∈ Step.tests (cs.map .check), t.Avoids M counters) ∧
      ∀ t ∈ Step.tests ss, t.Avoids M counters := by
    rw [← List.forall_mem_append, Step.tests, Step.tests, ← List.filterMap_append]
    exact h.tests
  have hnames : Step.names M.fieldNames (cs.map .check ++ ss) = Step.names M.fieldNames ss := by
    simp [Step.names, List.flatMap_append, List.flatMap_map]
  have hsearches : Step.searches (cs.map .check ++ ss) = Step.searches ss := by
    simp [Step.searches, List.filterMap_map]
  refine ⟨hreads, hchecks, hscoped, hnames ▸ h.names, h.bound, htests, hsearches ▸ h.searches⟩

/-- Behind a declaration its names are known. -/
theorem of_bind {b : Bind} (h : Ready M s counters bound known (.bind b :: ss)) :
    b.reads ⊆ bound ∧ s ∉ b.names M.fieldNames ∧ (∀ v ∈ bound, v.text ∉ b.names M.fieldNames) ∧
      Ready M s counters (b.declares ++ bound) (b.names M.fieldNames ++ known) ss := by
  obtain ⟨hreads, hscoped⟩ := h.inScope
  have hsub : b.names M.fieldNames ⊆ Step.names M.fieldNames (.bind b :: ss) :=
    fun n hn => List.mem_append_left _ hn
  refine ⟨hreads, fun hs => h.subject_not_mem (hsub hs),
    fun v hv hmem => h.text_not_mem v hv (hsub hmem), hscoped, ?_, ?_, h.tests, h.searches⟩
  · have hnames : (s :: (known ++ (b.names M.fieldNames ++ Step.names M.fieldNames ss))).Nodup :=
      h.names
    rw [← List.append_assoc] at hnames
    exact ((List.perm_append_comm.append_right _).cons s).nodup_iff.mp hnames
  · refine List.forall_mem_append.mpr ⟨fun v hv => ?_, fun v hv => ?_⟩
    · obtain ⟨n, hn, rfl⟩ := Bind.exists_name_of_mem_declares hv M.fieldNames
      exact List.mem_append_left _ hn
    · exact List.mem_append_right _ (h.bound v hv)

/-- Behind a search its result is known; the loop's counter is gone. -/
theorem of_scan {id : Nat} {start : Index} {test : Test}
    (h : Ready M s counters bound known (.scan id start test :: ss)) :
    (s ≠ foundName id ∧ foundName id ∉ known ∧ ∀ v ∈ bound, v.text ≠ foundName id) ∧
      Ready M s counters (.found id :: bound) (foundName id :: known) ss := by
  obtain ⟨-, -, hscoped⟩ := h.inScope
  have hmem : foundName id ∈ Step.names M.fieldNames (.scan id start test :: ss) :=
    List.mem_cons_self
  have hnew : foundName id ∉ known := fun hknown =>
    (List.nodup_append.mp (List.nodup_cons.mp h.names).2).2.2 _ hknown _ hmem rfl
  refine ⟨⟨fun hs => h.subject_not_mem (hs ▸ hmem), hnew,
    fun v hv heq => h.text_not_mem v hv (heq ▸ hmem)⟩, hscoped, ?_, ?_, fun t ht => ?_, ?_⟩
  · have hnames : (s :: (known ++ foundName id :: Step.names M.fieldNames ss)).Nodup := h.names
    exact (List.perm_middle.cons s).nodup_iff.mp hnames
  · refine List.forall_mem_cons.mpr ⟨List.mem_cons_self, fun v hv => ?_⟩
    exact List.mem_cons_of_mem _ (h.bound v hv)
  · exact h.tests t (List.mem_cons_of_mem _ ht)
  · exact fun i hi => h.searches i (List.mem_cons_of_mem _ hi)

end Ready

/-- A guard in front of statements that arrive where these steps do. -/
theorem alike_guarded {same : Env V → Store V → Prop} {n : Nest}
    (hready : Ready M s counters bound known (cs.map .check ++ ss))
    (hsub : n.code.declared M.fieldNames ⊆ Step.names M.fieldNames ss)
    (hn : ∀ ρ, Agrees s subject outer counters bound known (n.code.declared M.fieldNames) ρ σ →
      Alike same (n.code.exec M s ρ) (Step.runAllIn M outer subject σ ss))
    (h : Agrees s subject outer counters bound known
      ((Nest.guarded cs n).code.declared M.fieldNames) ρ σ) :
    Alike same ((Nest.guarded cs n).code.exec M s ρ)
      (Step.runAllIn M outer subject σ (cs.map .check ++ ss)) := by
  cases cs with
  | nil => exact hn ρ h
  | cons c cs =>
    have h : Agrees s subject outer counters bound known [] ρ σ := h
    obtain ⟨hreads, htests, hready⟩ := hready.of_checks
    rw [h.runAllIn_checks hreads htests]
    change Alike same ((Code.when ((c :: cs).map .cond) n.code .done).exec M s ρ) _
    rw [Code.exec_when]
    rcases Guard.allHoldAt M s ρ ((c :: cs).map .cond) with _ | _ | _
    · exact .stops fun _ h => by cases h
    · exact .stops fun _ h => by cases h
    · exact (hn _ (hready.hide h hsub)).close _

theorem Nest.declared_guarded_sublist {fields : String → List String} (cs : List Cond) (n : Nest) :
    ((Nest.guarded cs n).code.declared fields).Sublist (n.code.declared fields) := by
  cases cs with
  | nil => exact List.Sublist.refl _
  | cons c cs => exact List.nil_sublist _

/-- The first block of nested steps declares names of the steps, each once. -/
theorem Nest.declared_ofSteps_sublist (fields : String → List String) (cs : List Cond)
    (ss : List Step) :
    ((Nest.ofSteps cs ss).code.declared fields).Sublist (Step.names fields ss) := by
  induction ss generalizing cs with
  | nil => exact declared_guarded_sublist cs .body
  | cons t ss ih =>
    cases t with
    | check c => exact ih _
    | bind b =>
      have hnames := List.Sublist.refl (b.names fields)
      exact (declared_guarded_sublist cs _).trans (hnames.append (ih []))
    | scan id start test =>
      exact (declared_guarded_sublist cs _).trans ((List.nil_sublist _).cons_cons (foundName id))

theorem Nest.once_guarded {fields : String → List String} {n : Nest} (cs : List Cond)
    (h : n.code.once fields = true) : (Nest.guarded cs n).code.once fields = true := by
  cases cs with
  | nil => exact h
  | cons c cs =>
    obtain ⟨hdeclared, hinner⟩ := Bool.and_eq_true_iff.mp h
    have hwhen : (Nest.guarded (c :: cs) n).code.innerOnce fields = true := by
      simp [Nest.guarded, Nest.code, Code.innerOnce, hdeclared, hinner]
    exact Bool.and_eq_true_iff.mpr ⟨rfl, hwhen⟩

/-- Steps that declare every name once make statements in which every block does. -/
theorem Nest.once_ofSteps {fields : String → List String} (cs : List Cond) {ss : List Step}
    (h : (Step.names fields ss).Nodup) : (Nest.ofSteps cs ss).code.once fields = true := by
  induction ss generalizing cs with
  | nil => exact once_guarded cs rfl
  | cons t ss ih =>
    cases t with
    | check c => exact ih _ h
    | bind b =>
      have hrest := ih [] (List.nodup_append.mp h).2.1
      have hdeclared : ((b.names fields) ++ (Nest.ofSteps [] ss).code.declared fields).Nodup :=
        h.sublist ((List.Sublist.refl _).append (declared_ofSteps_sublist fields [] ss))
      exact once_guarded cs (Bool.and_eq_true_iff.mpr
        ⟨decide_eq_true hdeclared, (Bool.and_eq_true_iff.mp hrest).2⟩)
    | scan id start test =>
      have hrest := ih [] (List.nodup_cons.mp h).2
      obtain ⟨hdeclared, hinner⟩ := Bool.and_eq_true_iff.mp hrest
      refine once_guarded cs (Bool.and_eq_true_iff.mpr ⟨by simp [Nest.code, Code.declared], ?_⟩)
      simp [Nest.code, Code.innerOnce, Code.declared, hinner, of_decide_eq_true hdeclared]

/-! ### Searches -/

/-- One turn of a search, in the block of its loop. -/
def turn (M : Meaning V) (s : String) (id : Nat) (test : Test) (i : Nat) (τ : Env V) :
    Outcome (Env V) :=
  ((Code.when [.hit id test] (.setFound id (.exit .done)) .done).exec M s
    (τ.declare [(loopName id, .position i)])).close (τ.leave [loopName id])

/-- The loop's counter is gone behind the loop. -/
theorem Env.leave_turn (ρ : Env V) (id i : Nat) :
    Env.leave [loopName id] ρ (ρ.declare [(loopName id, .position i)]) = ρ := by
  funext n
  rw [Env.leave]
  split
  next => rfl
  next hn => exact Env.declare_of_ne (by simpa using hn) _

/-- Leaving the loop takes its counter away, not what the search has found. -/
theorem Env.leave_found (ρ : Env V) (id i : Nat) (held : Held V) :
    Env.leave [loopName id] (ρ.declare [(foundName id, held)])
        (((ρ.declare [(foundName id, held)]).declare [(loopName id, .position i)]).declare
          [(foundName id, .position i)])
      = ρ.declare [(foundName id, .position i)] := by
  have hne := foundName_ne_loopName id id
  funext n
  rw [Env.leave]
  split
  next hn =>
    obtain rfl : n = loopName id := List.mem_singleton.mp hn
    rw [Env.declare_of_ne hne.symm, Env.declare_of_ne hne.symm]
  next hn =>
    have hn : n ≠ loopName id := by simpa using hn
    by_cases hfound : n = foundName id
    · rw [hfound, Env.declare_self, Env.declare_self]
    · rw [Env.declare_of_ne hfound, Env.declare_of_ne hn, Env.declare_of_ne hfound,
        Env.declare_of_ne hfound]

section

variable {xs : List V} {id : Nat} {test : Test}

/-- At an element that passes, the search notes its position and leaves the loop. -/
theorem turn_eq {i : Nat} {v : V} {held : Held V} (hs : ρ s = some (.many xs))
    (hfound : s ≠ foundName id) (hloop : s ≠ loopName id) (hv : xs[i]? = some v) :
    turn M s id test i (ρ.declare [(foundName id, held)])
      = match test.settle M ((ρ.declare [(foundName id, held)]).declare
          [(loopName id, .position i)]) with
        | some t => if M.passes t v then .exited (ρ.declare [(foundName id, .position i)])
            else .ended (ρ.declare [(foundName id, held)])
        | none => .fault := by
  set τ : Env V := (ρ.declare [(foundName id, held)]).declare [(loopName id, .position i)] with hτ
  have hsubject : τ s = some (.many xs) := by
    rw [hτ, Env.declare_of_ne hloop, Env.declare_of_ne hfound, hs]
  have hcounter : τ (loopName id) = some (.position i) := Env.declare_self _ _
  have hnoted : τ (foundName id) = some held := by
    rw [hτ, Env.declare_of_ne (foundName_ne_loopName id id), Env.declare_self]
  have hhit : (Guard.hit id test).holdsAt M s τ
      = (test.settle M τ).map fun t => M.passes t v := by
    simp only [Guard.holdsAt, hsubject, Option.bind_some, Held.elements?_many, hcounter]
    rw [hv]
    cases test.settle M τ <;> rfl
  rw [turn, ← hτ, Code.exec_when, Guard.allHoldAt, hhit]
  cases test.settle M τ with
  | none => rfl
  | some t =>
    rw [Option.map_some]
    dsimp only
    cases M.passes t v with
    | false => exact congrArg Outcome.ended (Env.leave_turn _ id i)
    | true =>
      have hset : (Code.setFound id (.exit .done)).exec M s τ
          = .exited (τ.declare [(foundName id, .position i)]) := by
        rw [Code.exec]
        simp only [hnoted, hcounter]
        rfl
      have hnone : (Code.setFound id (.exit .done)).declared M.fieldNames = [] := rfl
      simp only [Guard.allHoldAt, hnone, Env.hide_nil, hset, Outcome.close, Env.leave_nil,
        Outcome.andThen]
      exact congrArg Outcome.exited (Env.leave_found ρ id i held)

/-- A search looks at the elements one by one, until one passes or its template cannot be read. -/
theorem loop_turn {settled : Option Test} (hs : ρ s = some (.many xs)) (hfound : s ≠ foundName id)
    (hloop : s ≠ loopName id)
    (htest : ∀ (i : Nat) held, test.settle M ((ρ.declare [(foundName id, held)]).declare
      [(loopName id, .position i)]) = settled) (ys : List V) {k : Nat} (hx : xs.drop k = ys) :
    Code.loop (turn M s id test) ys.length k (ρ.declare [(foundName id, .position (-1))])
      = settled.elim
          (if ys.isEmpty then .ended (ρ.declare [(foundName id, .position (-1))]) else .fault)
          fun t => .ended (ρ.declare [(foundName id, foundAt M.toValues t k ys)]) := by
  induction ys generalizing k with
  | nil => cases settled <;> rfl
  | cons v ys ih =>
    obtain ⟨-, hv, hrest⟩ := getElem?_of_drop hx
    rw [List.length_cons, Code.loop, turn_eq hs hfound hloop hv, htest]
    cases settled with
    | none => rfl
    | some t =>
      dsimp only [Option.elim_some]
      by_cases hp : M.passes t v = true
      · rw [if_pos hp, foundAt_cons, if_pos hp]
        rfl
      · rw [if_neg hp, foundAt_cons, if_neg hp]
        exact ih hrest

/-- The statements of a search, with its loop as turns. -/
theorem exec_search (start : Index) (n : Nest) :
    (Nest.search id start test n).code.exec M s ρ
      = let τ := ρ.declare [(foundName id, .position (-1))]
        match start.at (τ.hide [loopName id]) with
        | none => .fault
        | some k =>
          match τ.declare [(loopName id, .position k)] s with
          | none => .fault
          | some h =>
            (Code.loop (turn M s id test) (h.elements?.elim 0 fun xs => xs.length - k) k τ).andThen
              ((Code.when [.isFound id] n.code .done).exec M s) := by
  have hnone : (Code.when [.hit id test] (.setFound id (.exit .done)) .done).declared M.fieldNames
      = [] := rfl
  rw [Nest.code, Code.exec, Code.exec, hnone]
  simp only [Env.hide_nil, Env.leave_nil, Outcome.close_id]
  rfl

/-- Where a search has found something, the statements behind it go on. -/
theorem exec_isFound {p : Int} (hp : ρ (foundName id) = some (.position p)) (n : Nest) :
    (Code.when [.isFound id] n.code .done).exec M s ρ
      = if p = -1 then .ended ρ else
          ((n.code.exec M s (ρ.hide (n.code.declared M.fieldNames))).close
            (ρ.leave (n.code.declared M.fieldNames))).andThen .ended := by
  have hholds : (Guard.isFound id).holdsAt M s ρ = some (p != -1) := by
    simp only [Guard.holdsAt, hp]
  rw [Code.exec_when, Guard.allHoldAt, hholds]
  by_cases h : p = -1
  · rw [if_pos h, h]
    rfl
  · rw [if_neg h, bne_iff_ne.mpr h]
    rfl

/-- A search, as the steps make it. -/
theorem runAllIn_scan (start : Index) :
    Step.runAllIn M outer subject σ (.scan id start test :: ss)
      = match test.settle M (σ.env outer), subject.elements?, start.value σ with
        | some t, some xs, some k =>
          match (xs.drop k).findIdx? (M.passes t) with
          | some j =>
            Step.runAllIn M outer subject ((.found id, .position (k + j : Nat)) :: σ) ss
          | none => .error .mismatch
        | _, _, _ => .error .fault := by
  rw [Step.runAllIn, Step.runIn, Step.settle]
  cases test.settle M (σ.env outer) with
  | none => rfl
  | some t =>
    rw [Option.map_some]
    dsimp only
    rw [Step.run]
    cases subject with
    | one | position => rfl
    | many xs =>
      cases start.value σ with
      | none => rfl
      | some k =>
        simp only [Held.elements?_many]
        cases (xs.drop k).findIdx? (M.passes t) <;> rfl

/-- What the search has noted does not matter to where it starts. -/
theorem Agrees.start_eq {start : Index} {hidden : List String} {held : Held V}
    (h : Agrees s subject outer counters bound known hidden ρ σ) (hreads : start.reads ⊆ bound)
    (hbound : ∀ v ∈ bound, v.text ≠ foundName id) :
    start.at ((ρ.declare [(foundName id, held)]).hide [loopName id]) = start.value σ := by
  refine Index.at_eq fun v hv => ?_
  obtain ⟨i, -, rfl⟩ := List.mem_map.mp hv
  have hne : foundName i ∉ [loopName id] := by simpa using foundName_ne_loopName i id
  have hi : foundName i ≠ foundName id := hbound (.found i) (hreads hv)
  rw [Var.text, Env.hide_of_not_mem hne, Env.declare_of_ne hi]
  exact h.reads (.found i) (hreads hv)

/-- Nor does it matter to the test, in any turn. -/
theorem Agrees.settle_turn (h : Agrees s subject outer counters bound known [foundName id] ρ σ)
    (htest : test.Avoids M counters) (hfound : foundName id ∈ counters)
    (hloop : loopName id ∈ counters) (held : Held V) (i : Nat) :
    test.settle M ((ρ.declare [(foundName id, held)]).declare [(loopName id, .position i)])
      = test.settle M (σ.env outer) := by
  refine htest _ _ fun x hx => ?_
  have hxfound : x ≠ foundName id := fun heq => hx (heq ▸ hfound)
  have hxloop : x ≠ loopName id := fun heq => hx (heq ▸ hloop)
  rw [Env.declare_of_ne hxloop, Env.declare_of_ne hxfound]
  exact h.env x (by simpa using hxfound) (.inr hx)

/-- Where nothing has been found, nothing behind the search is entered. -/
theorem exec_isFound_none (n : Nest) (τ : Env V) :
    (Code.when [.isFound id] n.code .done).exec M s
      (ρ.declare [(foundName id, .position (-1))]) ≠ .entered τ := by
  rw [exec_isFound (Env.declare_self _ _), if_pos rfl]
  exact fun h => by cases h

/-- Behind a search, with the first hit noted. -/
theorem alike_isFound {same : Env V → Store V → Prop} {n : Nest} {t : Test} {k : Nat} {ys : List V}
    (hready : Ready M s counters (.found id :: bound) (foundName id :: known) ss)
    (hsub : n.code.declared M.fieldNames ⊆ Step.names M.fieldNames ss)
    (hn : ∀ p ρ, Agrees s subject outer counters (.found id :: bound) (foundName id :: known)
        (n.code.declared M.fieldNames) ρ ((.found id, .position p) :: σ) →
      Alike same (n.code.exec M s ρ)
        (Step.runAllIn M outer subject ((.found id, .position p) :: σ) ss))
    (h : ∀ held, Agrees s subject outer counters (.found id :: bound) (foundName id :: known) []
      (ρ.declare [(foundName id, held)]) ((.found id, held) :: σ)) :
    Alike same
      ((Code.when [.isFound id] n.code .done).exec M s
        (ρ.declare [(foundName id, foundAt M.toValues t k ys)]))
      (match ys.findIdx? (M.passes t) with
        | some j => Step.runAllIn M outer subject ((.found id, .position (k + j : Nat)) :: σ) ss
        | none => .error .mismatch) := by
  cases hfind : ys.findIdx? (M.passes t) with
  | none =>
    rw [foundAt, hfind]
    exact .stops (exec_isFound_none n)
  | some j =>
    have hat : foundAt M.toValues t k ys = .position (k + j : Nat) := by
      rw [foundAt, hfind]
      rfl
    rw [hat, exec_isFound (Env.declare_self _ _), if_neg (by omega)]
    exact (hn _ _ (hready.hide (h _) hsub)).close _

/-- **A search goes on where its step does.** -/
theorem alike_search {same : Env V → Store V → Prop} {start : Index} {n : Nest}
    (hready : Ready M s counters bound known (.scan id start test :: ss))
    (hsub : n.code.declared M.fieldNames ⊆ Step.names M.fieldNames ss)
    (hn : ∀ p ρ, Agrees s subject outer counters (.found id :: bound) (foundName id :: known)
        (n.code.declared M.fieldNames) ρ ((.found id, .position p) :: σ) →
      Alike same (n.code.exec M s ρ)
        (Step.runAllIn M outer subject ((.found id, .position p) :: σ) ss))
    (h : Agrees s subject outer counters bound known [foundName id] ρ σ) :
    Alike same ((Nest.search id start test n).code.exec M s ρ)
      (Step.runAllIn M outer subject σ (.scan id start test :: ss)) := by
  obtain ⟨hstart, -, -⟩ := hready.inScope
  obtain ⟨hfound, hcounter, hloop⟩ := hready.searches id (by simp [Step.searches])
  have htest : test.Avoids M counters := hready.tests test (by simp [Step.tests])
  obtain ⟨⟨hs, hnew, hbound⟩, hready⟩ := hready.of_scan
  have hsubject : ∀ k : Nat, (ρ.declare [(foundName id, .position (-1))]).declare
      [(loopName id, .position k)] s = some subject := fun k => by
    rw [Env.declare_of_ne hloop, Env.declare_of_ne hs, h.subject]
  rw [exec_search, runAllIn_scan]
  dsimp only
  rw [h.start_eq hstart hbound]
  cases start.value σ with
  | none =>
    cases test.settle M (σ.env outer) <;> cases subject <;> exact .stops fun _ h => by cases h
  | some k =>
    dsimp only
    rw [hsubject]
    cases subject with
    | one | position =>
      -- What is no list has no turn.
      cases test.settle M (σ.env outer) <;> exact .stops (exec_isFound_none n)
    | many xs =>
      have hturns := loop_turn h.subject hs hloop
        (fun i held => h.settle_turn htest hfound hcounter held i) (xs.drop k) rfl
      rw [List.length_drop] at hturns
      simp only [Held.elements?_many, Option.elim_some, hturns]
      cases test.settle M (σ.env outer) with
      | none =>
        refine .stops ?_
        cases (xs.drop k).isEmpty with
        | true => exact exec_isFound_none n
        | false => exact fun _ h => by cases h
      | some t => exact alike_isFound hready hsub hn fun held => h.found hs hbound hfound hnew held

end

/-! ### All steps -/

/-- **Nested steps arrive where the steps do**, after the checks that are kept back. -/
theorem alike_ofSteps (cs : List Cond)
    (hready : Ready M s counters bound known (cs.map .check ++ ss))
    (h : Agrees s subject outer counters bound known
      ((Nest.ofSteps cs ss).code.declared M.fieldNames) ρ σ) :
    Alike (Same outer counters) ((Nest.ofSteps cs ss).code.exec M s ρ)
      (Step.runAllIn M outer subject σ (cs.map .check ++ ss)) := by
  induction ss generalizing cs bound known ρ σ with
  | nil =>
    refine alike_guarded (n := .body) hready (List.nil_subset _) (fun ρ hA => ?_) h
    exact .arrives hA.same
  | cons t ss ih =>
    cases t with
    | check c =>
      have happend : cs.map Step.check ++ .check c :: ss = (cs ++ [c]).map .check ++ ss := by simp
      rw [happend] at hready ⊢
      exact ih _ hready h
    | bind b =>
      obtain ⟨-, -, hbind⟩ := hready.of_checks
      obtain ⟨hreads, hs, hbound, hrest⟩ := hbind.of_bind
      refine alike_guarded (n := .bind b (.ofSteps [] ss)) hready (fun n hn => ?_)
        (fun ρ hA => ?_) h
      · exact List.mem_append.mpr
          ((List.mem_append.mp hn).imp_right ((Nest.declared_ofSteps_sublist _ _ _).subset ·))
      · have hentries := Bind.entriesAt_eq (M := M) hA.subject fun v hv => hA.reads v (hreads hv)
        rw [Nest.code, Code.exec, hentries, Step.runAllIn, Step.runIn, Step.settle]
        dsimp only
        rw [Step.run]
        cases he : b.entries M.toValues subject σ with
        | none => exact .stops fun _ h => by cases h
        | some entries => exact ih [] hrest (hA.declare hs hbound he)
    | scan id start test =>
      obtain ⟨-, -, hscan⟩ := hready.of_checks
      refine alike_guarded (n := .search id start test (.ofSteps [] ss)) hready ?_
        (fun ρ hA => ?_) h
      · exact List.cons_subset_cons _ (List.nil_subset _)
      · refine alike_search hscan (Nest.declared_ofSteps_sublist _ _ _).subset (fun p ρ hA => ?_) hA
        exact ih [] hscan.of_scan.2 hA

end

/-! ## Plans -/

/-- The names that steps declare are distinct, also from the subject `s`, and nothing but the
searches themselves reads their counters. -/
structure Step.Distinct (M : Meaning V) (s : String) (ss : List Step) : Prop where
  names : (s :: Step.names M.fieldNames ss).Nodup
  loops : ∀ id ∈ Step.searches ss, s ≠ loopName id
  tests : ∀ t ∈ Step.tests ss, t.Avoids M (Step.counters ss)

section

variable {M : Meaning V} {s : String} {subject : Held V} {outer : Env V} {ss : List Step}

/-- Distinct steps are ready at the start, where nothing is known. -/
theorem Step.Distinct.ready (h : Step.Distinct M s ss) (hscoped : Step.Scoped [] ss) :
    Ready M s (Step.counters ss) [] [] ss where
  inScope := hscoped
  names := h.names
  bound _ hv := absurd hv List.not_mem_nil
  tests := h.tests
  searches id hid :=
    ⟨List.mem_flatMap.mpr ⟨id, hid, List.mem_cons_self⟩,
      List.mem_flatMap.mpr ⟨id, hid, by simp⟩, h.loops id hid⟩

/-- Before its first statement a block agrees with the empty store. -/
theorem agrees_start (hs : outer s = some subject) {counters hidden : List String}
    (hhidden : s ∉ hidden) :
    Agrees s subject outer counters [] [] hidden (outer.hide hidden) [] where
  subject := (Env.hide_of_not_mem hhidden).trans hs
  reads _ hv := absurd hv List.not_mem_nil
  env _ hn _ := Env.hide_of_not_mem hn
  known _ _ := rfl
  counted _ _ hv := absurd rfl hv

/-- So nested steps and their run arrive alike from the start. -/
theorem alike_start (hs : outer s = some subject) (hscoped : Step.Scoped [] ss)
    (h : Step.Distinct M s ss) :
    Alike (Same outer (Step.counters ss)) ((Nest.ofSteps [] ss).code.start M s outer)
      (Step.runAllIn M outer subject [] ss) := by
  have hready := h.ready hscoped
  rw [Code.start, if_pos (Nest.once_ofSteps [] (List.nodup_cons.mp h.names).2)]
  refine alike_ofSteps [] hready (agrees_start hs fun hmem => ?_)
  exact hready.subject_not_mem ((Nest.declared_ofSteps_sublist _ _ _).subset hmem)

end

namespace Alike

variable {same : Env V → Store V → Prop} {o : Outcome (Env V)} {r : Except Halt (Store V)}

/-- The code is entered just where the run succeeds. -/
theorem entered_iff (h : Alike same o r) : (∃ ρ, o = .entered ρ) ↔ ∃ σ, r = .ok σ := by
  cases h with
  | arrives => exact ⟨fun _ => ⟨_, rfl⟩, fun _ => ⟨_, rfl⟩⟩
  | stops h => exact ⟨fun ⟨ρ, hρ⟩ => absurd hρ (h ρ), fun ⟨_, hσ⟩ => by cases hσ⟩

theorem holds {ρ : Env V} {σ : Store V} (h : Alike same (.entered ρ) (.ok σ)) : same ρ σ := by
  cases h with
  | arrives h => exact h

end Alike

/-- **The statements of a plan do what its steps do**, if its names are distinct. They reach the
body of the match just when the steps run to their end, and all that the steps have declared holds
the same there; the body stands in them once; and what a statement reads of the match is declared
before, in a block around. -/
theorem start_ofSteps_plan (M : Meaning V) (s : String) (outer : Env V) (subject : Held V)
    (parts : List Part) (hs : outer s = some subject) (h : Step.Distinct M s (plan parts)) :
    let code := (Nest.ofSteps [] (plan parts)).code
    let run := Step.runAllIn M outer subject [] (plan parts)
    ((∃ ρ, code.start M s outer = .entered ρ) ↔ ∃ σ, run = .ok σ) ∧
    (∀ ρ σ, code.start M s outer = .entered ρ → run = .ok σ →
      ∀ v held, σ.lookup v = some held → ρ v.text = some held) ∧
    code.holes = 1 ∧ code.Scoped [] ∧
    ∀ body depth, code.print s body depth = (Nest.ofSteps [] (plan parts)).print s body depth := by
  intro code run
  have hscoped : Step.Scoped [] (plan parts) :=
    Step.scoped_planFrom (by simp [Index.reads]) (by simp)
  have halike := alike_start hs hscoped h
  refine ⟨halike.entered_iff, fun ρ σ hρ hσ => ?_, Nest.holes_code _,
    Nest.scoped_ofSteps hscoped, fun _ _ => Nest.print_code ..⟩
  have halike : Alike _ (code.start M s outer) run := halike
  rw [hρ, hσ] at halike
  exact halike.holds.reads

/-- `[ A { limit }, middle, `${limit}`, rest ]`: the search compares with a field of the first
element. -/
theorem start_ofSteps_plan_limit :
    let M : Meaning Nat :=
      { passes := fun t v => t == .tag "A" && v == 1 || t == .text (toString v)
        fields := fun _ => [("limit", (· + 10))]
        template := fun _ ρ => match ρ "limit" with
          | some (.one v) => some (toString v)
          | _ => none }
    let parts : List Part := [.shape (.tag "A" "\x7b limit \x7d"), .binder "middle",
      .shape (.format "$\x7blimit\x7d"), .binder "rest"]
    let outer : Env Nat := fun n => if n = "_res" then some (.many [1, 5, 11, 7]) else none
    let code := (Nest.ofSteps [] (plan parts)).code
    hasGap parts = true ∧ Step.Distinct M "_res" (plan parts) ∧
      (∃ ρ, code.start M "_res" outer = .entered ρ) ∧ code.holes = 1 := by
  intro M parts outer code
  have hdistinct : Step.Distinct M "_res" (plan parts) :=
    { names := by decide +kernel
      loops := by decide +kernel
      tests := by
        have htests : Step.tests (plan parts) = [.tag "A", .format "$\x7blimit\x7d"] := by
          decide +kernel
        rw [htests]
        refine List.forall_mem_cons.mpr ⟨fun _ _ _ => rfl, List.forall_mem_singleton.mpr ?_⟩
        intro ρ τ h
        have hlimit : ρ "limit" = τ "limit" := h "limit" (by decide +kernel)
        simp only [Test.settle, M, hlimit] }
  obtain ⟨harrives, -, hholes, -⟩ :=
    start_ofSteps_plan M "_res" outer (.many [1, 5, 11, 7]) parts rfl hdistinct
  exact ⟨by decide +kernel, hdistinct, harrives.mpr ⟨_, by rfl⟩, hholes⟩

/-- With `value` as the name of a gap and of a field, `[ A, value, B { value } ]`, the steps match,
but there is no program. -/
theorem start_ofSteps_twice :
    let M : Meaning Nat :=
      { passes := fun t v => t == .tag "A" && v == 1 || t == .tag "B" && v == 2
        fields := fun _ => [("value", (· + 10))]
        template := fun _ _ => none }
    let parts : List Part := [.shape (.tag "A" ""), .binder "value",
      .shape (.tag "B" "\x7b value \x7d")]
    let outer : Env Nat := fun n => if n = "_res" then some (.many [1, 5, 2]) else none
    hasGap parts = true ∧ (∃ σ, Step.runAllIn M outer (.many [1, 5, 2]) [] (plan parts) = .ok σ) ∧
      ∀ ρ, (Nest.ofSteps [] (plan parts)).code.start M "_res" outer ≠ .entered ρ := by
  intro M parts outer
  have honce : (Nest.ofSteps [] (plan parts)).code.once M.fieldNames = false := by decide +kernel
  refine ⟨by decide +kernel, ⟨_, by rfl⟩, fun ρ => ?_⟩
  rw [Code.start, honce]
  exact fun h => by cases h

end Derw.Script
