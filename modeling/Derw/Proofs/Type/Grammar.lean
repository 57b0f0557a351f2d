import Derw.Proofs.Reader.Token

/-!
# Proofs/Type/Grammar — how the text of a type annotation is read

Annotations have a grammar of their own. A word, or a path of words, names a type, and may have
arguments in angle brackets; `[]` behind it makes an array; and a list of parameters with an arrow
makes a function type, whose result goes as far as the text does. What stands before `[]` is an
operand, and a function type is one only in brackets. Every word is a name here, and parameters have
types: operators on types and parameters without one are left out.

The grammar is the four relations `SpellsType`, `SpellsOperand`, `SpellsArgs` and `SpellsParams`.
That no text has two readings is seen from a reader that looks two tokens ahead and follows every
derivation there is (`SpellsType.readType`).
-/

namespace Derw.Script.Reader

/-- Types as the target reads them. -/
inductive TypeTree
  /-- A type by its path, with its arguments. -/
  | named (path : List String) (args : List TypeTree)
  | array (item : TypeTree)
  | arrow (params : List (String × TypeTree)) (result : TypeTree)

/-! ## Tokens

Among types `>` is always a mark of its own, so that `>>` closes two lists of arguments. -/

/-- The marks of annotations, none of which starts another. -/
def typeMarks : List String := ["=>", "(", ")", "[", "]", "<", ">", ",", ":", "."]

/-- The token that starts with `c`, and what follows it. -/
def nextTypeToken (c : Char) (cs : List Char) : Token × List Char :=
  if startsWord c then
    (.word (String.ofList (c :: cs.takeWhile continuesWord)), cs.dropWhile continuesWord)
  else match typeMarks.find? (·.toList.isPrefixOf (c :: cs)) with
    | some m => (.mark m, cs.drop (m.length - 1))
    | none => (.malformed c.toString, cs)

theorem length_nextTypeToken_le (c : Char) (cs : List Char) :
    (nextTypeToken c cs).2.length ≤ cs.length := by
  unfold nextTypeToken
  split
  · exact (List.dropWhile_sublist _).length_le
  · split
    · exact (List.drop_sublist _ _).length_le
    · exact Nat.le_refl _

/-- The tokens of an annotation. -/
def lexType : List Char → List Token
  | [] => []
  | c :: cs =>
    if isSpace c then lexType cs else (nextTypeToken c cs).1 :: lexType (nextTypeToken c cs).2
termination_by cs => cs.length
decreasing_by
  · exact Nat.lt_succ_self _
  · exact Nat.lt_succ_of_le (length_nextTypeToken_le c cs)

theorem lexType_blank (rest : List Char) : lexType (' ' :: rest) = lexType rest := by
  rw [lexType, if_pos (by decide +kernel)]

/-- A word ends where nothing continues it. -/
theorem lexType_word {w : String} {rest : List Char} (hw : isName w = true)
    (hr : ∀ c ∈ rest.head?, continuesWord c = false) :
    lexType (w.toList ++ rest) = .word w :: lexType rest := by
  obtain ⟨c, cs, hcs, hc, hall⟩ := exists_cons_of_isName hw
  have htext : String.ofList (c :: cs) = w := by rw [← hcs, String.ofList_toList]
  rw [hcs, List.cons_append, lexType, if_neg (by simp [isSpace_of_startsWord hc]), nextTypeToken,
    if_pos hc, takeWhile_append_stop hall hr, dropWhile_append_stop hall hr, htext]

theorem lexType_of_find {c : Char} {cs : List Char} {m : String}
    (hm : typeMarks.find? (·.toList.isPrefixOf (c :: cs)) = some m) :
    lexType (c :: cs) = .mark m :: lexType (cs.drop (m.length - 1)) := by
  have hsub : ∀ m ∈ typeMarks, m ∈ marks := by decide
  obtain ⟨hspace, hword, -⟩ :=
    start_of_mark (hsub m (List.mem_of_find?_eq_some hm)) (by simpa using List.find?_some hm)
  rw [lexType, if_neg (by simp [hspace]), nextTypeToken, if_neg (by simp [hword]), hm]

/-- A mark ends anywhere. -/
theorem lexType_mark {m : String} (h : m ∈ typeMarks) (rest : List Char) :
    lexType (m.toList ++ rest) = .mark m :: lexType rest := by
  simp only [typeMarks, List.mem_cons, List.not_mem_nil, or_false] at h
  rcases h with rfl | rfl | rfl | rfl | rfl | rfl | rfl | rfl | rfl | rfl <;>
    exact lexType_of_find rfl

/-! ## The grammar -/

/-- The members behind the first name of a path. -/
def memberTokens (ws : List String) : List Token := ws.flatMap fun w => [.mark ".", .word w]

mutual

/-- The tokens spell a type. -/
inductive SpellsType : List Token → TypeTree → Prop
  | arrow {ps ts : List Token} {params : List (String × TypeTree)} {result : TypeTree}
    (hparams : SpellsParams ps params) (hresult : SpellsType ts result) :
    SpellsType (.mark "(" :: ps ++ .mark "=>" :: ts) (.arrow params result)
  | operand {ts : List Token} {t : TypeTree} (h : SpellsOperand ts t) : SpellsType ts t

/-- The tokens spell a type that `[]` can follow. -/
inductive SpellsOperand : List Token → TypeTree → Prop
  | name (w : String) (ws : List String) :
    SpellsOperand (.word w :: memberTokens ws) (.named (w :: ws) [])
  | applied (w : String) (ws : List String) {ts : List Token} {args : List TypeTree}
    (hargs : SpellsArgs ts args) :
    SpellsOperand (.word w :: memberTokens ws ++ .mark "<" :: ts) (.named (w :: ws) args)
  | array {ts : List Token} {t : TypeTree} (h : SpellsOperand ts t) :
    SpellsOperand (ts ++ [.mark "[", .mark "]"]) (.array t)
  | group {ts : List Token} {t : TypeTree} (h : SpellsType ts t) :
    SpellsOperand (.mark "(" :: ts ++ [.mark ")"]) t

/-- The tokens spell arguments, one at least, up to the bracket that closes them. -/
inductive SpellsArgs : List Token → List TypeTree → Prop
  | last {ts : List Token} {t : TypeTree} (h : SpellsType ts t) :
    SpellsArgs (ts ++ [.mark ">"]) [t]
  | more {ts us : List Token} {t : TypeTree} {args : List TypeTree} (h : SpellsType ts t)
    (hargs : SpellsArgs us args) : SpellsArgs (ts ++ .mark "," :: us) (t :: args)

/-- The tokens spell parameters up to the bracket that closes them. -/
inductive SpellsParams : List Token → List (String × TypeTree) → Prop
  | none : SpellsParams [.mark ")"] []
  | last (w : String) {ts : List Token} {t : TypeTree} (h : SpellsType ts t) :
    SpellsParams (.word w :: .mark ":" :: ts ++ [.mark ")"]) [(w, t)]
  | more (w : String) {ts us : List Token} {t : TypeTree} {p : String × TypeTree}
    {ps : List (String × TypeTree)} (h : SpellsType ts t) (hparams : SpellsParams us (p :: ps)) :
    SpellsParams (.word w :: .mark ":" :: ts ++ .mark "," :: us) ((w, t) :: p :: ps)

end

/-- A text spells a type. -/
def Spells (text : String) (t : TypeTree) : Prop := SpellsType (lexType text.toList) t

/-! ## The reader -/

/-- The members behind the first name of a path, and what follows. -/
def takeMembers : List Token → List String × List Token
  | .mark "." :: .word w :: ts => (w :: (takeMembers ts).1, (takeMembers ts).2)
  | ts => ([], ts)

/-- The array that the brackets behind an operand make of it, and what follows. -/
def takeBrackets (t : TypeTree) : List Token → TypeTree × List Token
  | .mark "[" :: .mark "]" :: ts => takeBrackets (.array t) ts
  | ts => (t, ts)

/-- Whether parameters follow a bracket, and not a type. -/
def opensParams : List Token → Bool
  | .mark ")" :: _ => true
  | .word _ :: .mark ":" :: _ => true
  | _ => false

mutual

/-- The type in front of some tokens, and what follows it. -/
def readType : Nat → List Token → Option (TypeTree × List Token)
  | n + 1, .mark "(" :: ts =>
    if opensParams ts then
      match readParams n ts with
      | some (params, .mark "=>" :: ts) => (readType n ts).map fun r => (.arrow params r.1, r.2)
      | _ => none
    else
      match readType n ts with
      | some (t, .mark ")" :: ts) => some (takeBrackets t ts)
      | _ => none
  | n + 1, .word w :: ts =>
    match takeMembers ts with
    | (ws, .mark "<" :: ts) =>
      (readArgs n ts).map fun r => takeBrackets (.named (w :: ws) r.1) r.2
    | (ws, ts) => some (takeBrackets (.named (w :: ws) []) ts)
  | _, _ => none

/-- The arguments in front of some tokens, and what follows the bracket that closes them. -/
def readArgs : Nat → List Token → Option (List TypeTree × List Token)
  | n + 1, ts =>
    match readType n ts with
    | some (t, .mark ">" :: ts) => some ([t], ts)
    | some (t, .mark "," :: ts) => (readArgs n ts).map fun r => (t :: r.1, r.2)
    | _ => none
  | 0, _ => none

/-- The parameters in front of some tokens, and what follows the bracket that closes them. -/
def readParams : Nat → List Token → Option (List (String × TypeTree) × List Token)
  | n + 1, .word w :: .mark ":" :: ts =>
    match readType n ts with
    | some (t, .mark ")" :: ts) => some ([(w, t)], ts)
    | some (t, .mark "," :: ts) => (readParams n ts).map fun r => ((w, t) :: r.1, r.2)
    | _ => none
  | _, .mark ")" :: ts => some ([], ts)
  | _, _ => none

end

/-- The type that a text is read as. -/
def readTypeText? (text : String) : Option TypeTree :=
  let ts := lexType text.toList
  match readType ts.length ts with
  | some (t, []) => some t
  | _ => none

/-! ## Every derivation is followed -/

theorem takeMembers_append (ws : List String) {rest : List Token}
    (h : rest.head? ≠ some (.mark ".")) : takeMembers (memberTokens ws ++ rest) = (ws, rest) := by
  induction ws with
  | nil =>
    show takeMembers rest = ([], rest)
    unfold takeMembers
    split
    next => exact absurd rfl h
    next => rfl
  | cons w ws ih =>
    show takeMembers (.mark "." :: .word w :: (memberTokens ws ++ rest)) = _
    rw [takeMembers, ih]

theorem takeBrackets_eq (t : TypeTree) {rest : List Token} (h : rest.head? ≠ some (.mark "[")) :
    takeBrackets t rest = (t, rest) := by
  unfold takeBrackets
  split
  next => exact absurd rfl h
  next => rfl

/-- Parameters start like none of the types do. -/
theorem SpellsParams.opensParams {ps : List Token} {params : List (String × TypeTree)}
    (h : SpellsParams ps params) (rest : List Token) : opensParams (ps ++ rest) = true := by
  cases h <;> rfl

mutual

theorem SpellsType.opensParams {ts : List Token} {t : TypeTree} (h : SpellsType ts t)
    {rest : List Token} (hr : rest.head? ≠ some (.mark ":")) :
    Reader.opensParams (ts ++ rest) = false :=
  match h with
  | .arrow _ _ => rfl
  | .operand h => h.opensParams hr

theorem SpellsOperand.opensParams {ts : List Token} {t : TypeTree} (h : SpellsOperand ts t)
    {rest : List Token} (hr : rest.head? ≠ some (.mark ":")) :
    Reader.opensParams (ts ++ rest) = false :=
  match h with
  | .name w ws => by
    cases ws with
    | nil =>
      show Reader.opensParams (.word w :: rest) = false
      unfold Reader.opensParams
      split
      next h => cases h
      next h => cases h; exact absurd rfl hr
      next => rfl
    | cons v ws => rfl
  | .applied w ws _ => by cases ws <;> rfl
  | .array h => by
    rw [List.append_assoc]
    exact h.opensParams (by simp)
  | .group _ => rfl

end

/-- Some tokens that continue no type. -/
structure Ends (rest : List Token) : Prop where
  dot : rest.head? ≠ some (.mark ".")
  angle : rest.head? ≠ some (.mark "<")
  bracket : rest.head? ≠ some (.mark "[")

theorem Ends.nil : Ends [] := ⟨by simp, by simp, by simp⟩

theorem Ends.mark {m : String} (h : m ∉ [".", "<", "["]) (rest : List Token) :
    Ends (.mark m :: rest) := by
  simp only [List.mem_cons, List.not_mem_nil, or_false, not_or] at h
  exact ⟨by simp [h.1], by simp [h.2.1], by simp [h.2.2]⟩

theorem exists_eq_succ_of_length_le {ts : List Token} {n : Nat} (h : ts.length ≤ n)
    (hne : ts ≠ []) : ∃ m, n = m + 1 := by
  have := List.length_pos_iff.mpr hne
  exact ⟨n - 1, by omega⟩

mutual

/-- **Every derivation is followed**, up to where nothing continues the type. -/
theorem SpellsType.readType {ts : List Token} {t : TypeTree} (h : SpellsType ts t) {n : Nat}
    (hn : ts.length ≤ n) {rest : List Token} (hr : Ends rest) :
    readType n (ts ++ rest) = some (t, rest) :=
  match h with
  | .arrow hparams hresult => by
    obtain ⟨n, rfl⟩ := exists_eq_succ_of_length_le hn (by simp)
    simp only [List.cons_append, List.length_cons, List.length_append, List.append_assoc] at hn ⊢
    rw [Reader.readType, if_pos (hparams.opensParams _), hparams.readParams (by omega)]
    simp only [hresult.readType (show _ ≤ n by omega) hr, Option.map_some]
  | .operand h => by rw [h.readType hn hr.dot hr.angle, takeBrackets_eq t hr.bracket]

/-- An operand takes with it the brackets that follow. -/
theorem SpellsOperand.readType {ts : List Token} {t : TypeTree} (h : SpellsOperand ts t) {n : Nat}
    (hn : ts.length ≤ n) {rest : List Token} (hdot : rest.head? ≠ some (.mark "."))
    (hangle : rest.head? ≠ some (.mark "<")) :
    readType n (ts ++ rest) = some (takeBrackets t rest) :=
  match h with
  | .name w ws => by
    obtain ⟨n, rfl⟩ := exists_eq_succ_of_length_le hn (by simp)
    rw [List.cons_append, Reader.readType, takeMembers_append ws hdot]
    split
    next h => cases h; exact absurd rfl hangle
    next h => cases h; rfl
  | .applied w ws hargs => by
    obtain ⟨n, rfl⟩ := exists_eq_succ_of_length_le hn (by simp)
    simp only [List.cons_append, List.length_cons, List.length_append, List.append_assoc] at hn ⊢
    rw [Reader.readType, takeMembers_append ws (by simp)]
    simp only [hargs.readArgs (show _ ≤ n by omega), Option.map_some]
  | .array h => by
    -- the reader of what is before the brackets has taken them already
    simp only [List.length_append, List.append_assoc] at hn ⊢
    rw [h.readType (by omega) (by simp) (by simp)]
    rfl
  | .group h => by
    obtain ⟨n, rfl⟩ := exists_eq_succ_of_length_le hn (by simp)
    simp only [List.cons_append, List.length_cons, List.length_append, List.append_assoc] at hn ⊢
    rw [Reader.readType, h.opensParams (by simp), if_neg (by simp),
      h.readType (by omega) (.mark (by decide) _)]
    rfl

theorem SpellsArgs.readArgs {ts : List Token} {args : List TypeTree} (h : SpellsArgs ts args)
    {n : Nat} (hn : ts.length ≤ n) {rest : List Token} :
    readArgs n (ts ++ rest) = some (args, rest) :=
  match h with
  | .last h => by
    obtain ⟨n, rfl⟩ := exists_eq_succ_of_length_le hn (by simp)
    simp only [List.cons_append, List.length_cons, List.length_append, List.append_assoc] at hn ⊢
    rw [Reader.readArgs, h.readType (by omega) (.mark (by decide) _)]
    rfl
  | .more h hargs => by
    obtain ⟨n, rfl⟩ := exists_eq_succ_of_length_le hn (by simp)
    simp only [List.cons_append, List.length_cons, List.length_append, List.append_assoc] at hn ⊢
    rw [Reader.readArgs, h.readType (by omega) (.mark (by decide) _)]
    simp only [hargs.readArgs (show _ ≤ n by omega), Option.map_some]

theorem SpellsParams.readParams {ts : List Token} {params : List (String × TypeTree)}
    (h : SpellsParams ts params) {n : Nat} (hn : ts.length ≤ n) {rest : List Token} :
    readParams n (ts ++ rest) = some (params, rest) :=
  match h with
  | .none => by cases n <;> rfl
  | .last w h => by
    obtain ⟨n, rfl⟩ := exists_eq_succ_of_length_le hn (by simp)
    simp only [List.cons_append, List.length_cons, List.length_append, List.append_assoc] at hn ⊢
    rw [Reader.readParams, h.readType (by omega) (.mark (by decide) _)]
    rfl
  | .more w h hparams => by
    obtain ⟨n, rfl⟩ := exists_eq_succ_of_length_le hn (by simp)
    simp only [List.cons_append, List.length_cons, List.length_append, List.append_assoc] at hn ⊢
    rw [Reader.readParams, h.readType (by omega) (.mark (by decide) _)]
    simp only [hparams.readParams (show _ ≤ n by omega), Option.map_some]

end

/-- **Every reading of a text is the one the reader finds.** -/
theorem Spells.readTypeText? {text : String} {t : TypeTree} (h : Spells text t) :
    readTypeText? text = some t := by
  have hread := SpellsType.readType h (Nat.le_refl _) .nil
  rw [List.append_nil] at hread
  simp only [Reader.readTypeText?, hread]

/-- **No text has two readings.** -/
theorem Spells.unique {text : String} {t u : TypeTree} (ht : Spells text t)
    (hu : Spells text u) : t = u :=
  Option.some.inj (ht.readTypeText?.symm.trans hu.readTypeText?)

end Derw.Script.Reader
