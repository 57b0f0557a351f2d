import Derw.Name.Missing
import Derw.Proofs.Name.Destructuring

/-!
# Proofs/Name/Path — the name a path starts with

A value or a callee is a path of names with dots between them, with blanks around it. The checker of
names trims it, looks whether it is a literal, and takes what stands before the first dot. A name
holds neither blanks nor dots, so that is the first name of the path (`valueName_path`).

It goes wrong in one place: the words `inf`, `infinity` and `nan`, in any letter case, are names of
the language, but the checker takes them for numbers. As the first of several names they are safe.
-/

namespace Derw.Name

open Script (continuesWord_of_mem isBlank_of_continuesWord toList_ne_nil trimmed_append)
open Script.Reader (continuesWord exists_cons_of_isName isName takeWhile_append_stop)

/-- A path of names. -/
def path (first : String) (rest : List String) : String := Text.join "." (first :: rest)

theorem toList_path (first : String) (rest : List String) :
    (path first rest).toList = first.toList ++ rest.flatMap fun n => '.' :: n.toList := by
  rw [path, Text.join_cons, String.toList_append]
  congr 1
  induction rest with
  | nil => rfl
  | cons n rest ih =>
    rw [List.map_cons, String.join_cons, String.toList_append, ih, String.toList_append]
    rfl

section

variable {first : String} {rest : List String}

theorem dot_not_mem {n : String} (hn : isName n = true) : '.' ∉ n.toList := fun hmem => by
  have hdot : continuesWord '.' = false := by decide +kernel
  rw [continuesWord_of_mem hn '.' hmem] at hdot
  cases hdot

theorem isBlank_of_mem_path (h : ∀ n ∈ first :: rest, isName n = true) {c : Char}
    (hc : c ∈ (path first rest).toList) : Text.isBlank c = false := by
  have hname : ∀ n ∈ first :: rest, c ∈ n.toList → Text.isBlank c = false := fun n hn hmem =>
    isBlank_of_continuesWord (continuesWord_of_mem (h n hn) c hmem)
  rw [toList_path, List.mem_append, List.mem_flatMap] at hc
  obtain hfirst | ⟨n, hn, hmem⟩ := hc
  · exact hname first List.mem_cons_self hfirst
  · obtain rfl | hmem := List.mem_cons.mp hmem
    · rfl
    · exact hname n (List.mem_cons_of_mem _ hn) hmem

/-- The first name ends at the first dot. -/
theorem takeWhile_path (h : isName first = true) :
    (path first rest).toList.takeWhile (· != '.') = first.toList := by
  rw [toList_path]
  refine takeWhile_append_stop (fun c hc => ?_) fun c hc => ?_
  · exact bne_iff_ne.mpr fun heq => dot_not_mem h (heq ▸ hc)
  · cases rest with
    | nil => cases hc
    | cons n rest => cases hc; rfl

/-- A text with a dot in it is none of the words that are literals. -/
theorem not_literal_of_dot {cs : List Char} (h : '.' ∈ cs) :
    (cs == "true".toList || cs == "false".toList || isNumberWord cs) = false := by
  have hlower : '.' ∈ cs.map Char.toLower := List.mem_map.mpr ⟨'.', h, rfl⟩
  have hwords : ∀ w ∈ numberWords, '.' ∉ w.toList := by decide
  simp only [Bool.or_eq_false_iff, beq_eq_false_iff_ne]
  refine ⟨⟨?_, ?_⟩, ?_⟩
  · rintro rfl
    exact absurd h (by decide)
  · rintro rfl
    exact absurd h (by decide)
  · rw [← Bool.not_eq_true, isNumberWord, List.contains_iff_mem]
    exact fun hmem => hwords _ hmem (by rwa [String.toList_ofList])

theorem valueName_of_starts {text : String} {c : Char} {cs : List Char}
    (h : Text.trimmed text.toList = cs) (hhead : cs.head? = some c) (hc : startsName c = true) :
    valueName text =
      if cs == "true".toList || cs == "false".toList || isNumberWord cs then none
      else some (String.ofList (cs.takeWhile (· != '.'))) := by
  obtain ⟨tail, rfl⟩ := List.head?_eq_some_iff.mp hhead
  have hdot : c ≠ '.' := by
    rintro rfl
    exact absurd hc (by decide +kernel)
  simp [valueName, h, hc, hdot]

end

section

variable {before after first : String} {rest : List String}

theorem trimmed_path (hbefore : ∀ c ∈ before.toList, Text.isBlank c = true)
    (hafter : ∀ c ∈ after.toList, Text.isBlank c = true)
    (hnames : ∀ n ∈ first :: rest, isName n = true) :
    Text.trimmed (before ++ (path first rest ++ after)).toList = (path first rest).toList := by
  have hne : (path first rest).toList ≠ [] := by
    rw [toList_path]
    exact List.append_ne_nil_of_left_ne_nil (toList_ne_nil (hnames first List.mem_cons_self)) _
  rw [String.toList_append, String.toList_append]
  exact trimmed_append hbefore hafter hne
    (fun c hc => isBlank_of_mem_path hnames (List.mem_of_mem_head? hc))
    fun c hc => isBlank_of_mem_path hnames (List.mem_of_mem_getLast? hc)

theorem valueName_path (hbefore : ∀ c ∈ before.toList, Text.isBlank c = true)
    (hafter : ∀ c ∈ after.toList, Text.isBlank c = true)
    (hnames : ∀ n ∈ first :: rest, isName n = true)
    (hliteral : rest = [] → first ≠ "true" ∧ first ≠ "false") :
    valueName (before ++ (path first rest ++ after)) =
      if rest = [] ∧ isNumberWord first.toList = true then none else some first := by
  have hfirst : isName first = true := hnames first List.mem_cons_self
  obtain ⟨c, cs, hcs, hc, -⟩ := exists_cons_of_isName hfirst
  have hhead : (path first rest).toList.head? = some c := by rw [toList_path, hcs]; rfl
  rw [valueName_of_starts (trimmed_path hbefore hafter hnames) hhead hc, takeWhile_path hfirst,
    String.ofList_toList]
  cases rest with
  | nil =>
    have hword : ∀ w, first ≠ w → (first.toList == w.toList) = false := fun w hw =>
      beq_eq_false_iff_ne.mpr fun heq => hw (String.toList_injective heq)
    obtain ⟨htrue, hfalse⟩ := hliteral rfl
    rw [toList_path, List.flatMap_nil, List.append_nil, hword _ htrue, hword _ hfalse]
    simp
  | cons n rest =>
    have hdot : '.' ∈ (path first (n :: rest)).toList := by simp [toList_path]
    rw [not_literal_of_dot hdot]
    simp

/-- **A path counts as read under its first name**, as a value and as a callee, with any blanks
around it, unless it is a single name that is spelled like a number word. -/
theorem path_reads_first (hbefore : ∀ c ∈ before.toList, Text.isBlank c = true)
    (hafter : ∀ c ∈ after.toList, Text.isBlank c = true)
    (hnames : ∀ n ∈ first :: rest, isName n = true)
    (hliteral : rest = [] → first ≠ "true" ∧ first ≠ "false") :
    let text := before ++ (path first rest ++ after)
    (¬(rest = [] ∧ isNumberWord first.toList = true) →
      valueName text = some first ∧ (Expr.value text).usage false = .readsAll [first] ∧
        ∀ args, (Expr.call text args).usage false = .readsAll [first] ++ usageOfExprs args) ∧
    (rest = [] ∧ isNumberWord first.toList = true →
      valueName text = none ∧ (Expr.value text).usage false = {} ∧
        ∀ args, (Expr.call text args).usage false = usageOfExprs args) := by
  intro text
  have hname : valueName text = _ := valueName_path hbefore hafter hnames hliteral
  constructor
  · intro h
    rw [if_neg h] at hname
    refine ⟨hname, ?_, fun args => ?_⟩
    · rw [Expr.usage, hname]; rfl
    · rw [Expr.usage, hname]; rfl
  · intro h
    rw [if_pos h] at hname
    refine ⟨hname, ?_, fun args => ?_⟩
    · rw [Expr.usage, hname]; rfl
    · rw [Expr.usage, hname]; rfl

/-- A number word that is the first of two names, between blanks. -/
theorem path_reads_first_member :
    let text := " \n" ++ (path "NaN" ["é_2"] ++ "\t")
    (∀ n ∈ ["NaN", "é_2"], isName n = true) ∧ valueName text = some "NaN" ∧
      (Expr.value text).usage false = .readsAll ["NaN"] := by
  have hbefore : " \n".toList.all Text.isBlank = true := by decide +kernel
  have hafter : "\t".toList.all Text.isBlank = true := by decide +kernel
  have hnames : ∀ n ∈ ["NaN", "é_2"], isName n = true := by decide +kernel
  obtain ⟨hname, husage, -⟩ := (path_reads_first (List.all_eq_true.mp hbefore)
    (List.all_eq_true.mp hafter) hnames nofun).1 nofun
  exact ⟨hnames, hname, husage⟩

/-- The name `infinity` is declared nowhere, but the checker takes it for a number and reports
nothing. -/
theorem path_unread :
    let m : Module :=
      { name := "Main", body := [.const "c" .absent [] (.value "infinity")], errors := [] }
    isName "infinity" = true ∧ "infinity" ≠ "true" ∧ "infinity" ≠ "false" ∧
      valueName "infinity" = none ∧ "infinity" ∉ topLevelNames m.body ∧
      (({} : Checker).check m).errors = [] := by
  decide +kernel

end

end Derw.Name
