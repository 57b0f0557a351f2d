import Derw.Proofs.Yaml.Scalar
import Derw.Yaml.Typed

/-!
# Proofs/Yaml/Numeral — an integer is written bare and read back

The decimal digits of a number have no zero in front, so no base is announced, and they are neither
a date nor one of the words with a meaning. Within the range of a signed word a bare numeral means
the integer it was written for.
-/

namespace Derw.Text

/-- Reading one more digit. -/
theorem pushDigit_digitChar (n : Nat) {d : Nat} (h : d < 10) :
    pushDigit 10 n d.digitChar = some (n * 10 + d) := by
  have hdigit : ∀ d < 10, digitValue? d.digitChar = some d := by decide
  rw [pushDigit, hdigit d h]
  exact if_pos h

/-- Digits are read as the number that they were written for. -/
theorem natOfDigits?_toDigits (n : Nat) : natOfDigits? 10 (Nat.toDigits 10 n) = some n := by
  induction n using Nat.strongRecOn with
  | _ n ih =>
    rcases Nat.lt_or_ge n 10 with h | h
    · rw [Nat.toDigits_of_lt_base h, natOfDigits?, List.foldlM_cons, pushDigit_digitChar 0 h]
      simp
    · have hrest := ih (n / 10) (by omega)
      rw [natOfDigits?] at hrest
      rw [Nat.toDigits_of_base_le (by decide) h, natOfDigits?, List.foldlM_append, hrest]
      simp only [Option.bind_eq_bind, Option.bind_some, List.foldlM_cons, List.foldlM_nil]
      rw [pushDigit_digitChar _ (Nat.mod_lt n (by decide))]
      simp
      omega

/-- A number is written in decimal digits only. -/
theorem isDecimalDigit_of_mem {n : Nat} {d : Char} (h : d ∈ Nat.toDigits 10 n) :
    isDecimalDigit d = true := by
  have hdigit := Nat.isDigit_of_mem_toDigits (by decide) (by decide) h
  simpa [isDecimalDigit, Char.isDigit, Char.le_def] using hdigit

/-- No zero stands in front, so nothing announces a base. -/
theorem head_toDigits_ne {n : Nat} (h : 0 < n) {d : Char}
    (hd : (Nat.toDigits 10 n).head? = some d) : d ≠ '0' := by
  induction n using Nat.strongRecOn with
  | _ n ih =>
    rcases Nat.lt_or_ge n 10 with hn | hn
    · have hdigit : ∀ n < 10, 0 < n → n.digitChar ≠ '0' := by decide
      rw [Nat.toDigits_of_lt_base hn] at hd
      exact Option.some.inj hd ▸ hdigit n hn h
    · obtain ⟨e, es, he⟩ :=
        List.exists_cons_of_ne_nil (Nat.toDigits_ne_nil (n := n / 10) (b := 10))
      rw [Nat.toDigits_of_base_le (by decide) hn, he, List.cons_append] at hd
      exact ih (n / 10) (by omega) (by omega) (he ▸ hd)

end Derw.Text

namespace Derw.Yaml

open Text

/-- The digits of a number, which announce no base. -/
theorem cutBase_toDigits (n : Nat) : cutBase (Nat.toDigits 10 n) = (10, Nat.toDigits 10 n) := by
  cases n with
  | zero => rfl
  | succ n =>
    obtain ⟨d, ds, hds⟩ := List.exists_cons_of_ne_nil (Nat.toDigits_ne_nil (n := n + 1) (b := 10))
    have hd : d ≠ '0' := head_toDigits_ne (Nat.succ_pos n) (by rw [hds]; rfl)
    rw [hds, cutBase]
    all_goals
      intros
      simp_all

/-- An integer in decimal digits. -/
def numeral : Int → List Char
  | .ofNat n => Nat.toDigits 10 n
  | .negSucc n => '-' :: Nat.toDigits 10 (n + 1)

/-- `numeral` is how an integer is printed. -/
theorem toList_toString (n : Int) : (toString n).toList = numeral n := by
  cases n with
  | ofNat n => exact Nat.toList_repr
  | negSucc n =>
    change ("-" ++ (n + 1).repr).toList = _
    rw [String.toList_append, Nat.toList_repr]
    rfl

/-- Digits, at least one, and perhaps a sign before them. -/
theorem numeral_cases (n : Int) : ∃ d ds, (∀ e ∈ d :: ds, isDecimalDigit e) ∧
    (numeral n = d :: ds ∨ numeral n = '-' :: d :: ds) := by
  have hdigits : ∀ n, ∃ d ds, (∀ e ∈ d :: ds, isDecimalDigit e) ∧ Nat.toDigits 10 n = d :: ds := by
    intro n
    obtain ⟨d, ds, hds⟩ := List.exists_cons_of_ne_nil (Nat.toDigits_ne_nil (n := n) (b := 10))
    exact ⟨d, ds, fun e he => isDecimalDigit_of_mem (hds ▸ he), hds⟩
  cases n with
  | ofNat n =>
    obtain ⟨d, ds, hall, hds⟩ := hdigits n
    exact ⟨d, ds, hall, .inl hds⟩
  | negSucc n =>
    obtain ⟨d, ds, hall, hds⟩ := hdigits (n + 1)
    exact ⟨d, ds, hall, .inr (congrArg ('-' :: ·) hds)⟩

/-- What tells a digit from the signs of other scalars. -/
theorem ne_of_isDecimalDigit {d e : Char} (h : isDecimalDigit d) (he : isDecimalDigit e = false) :
    d ≠ e := by
  rintro rfl
  rw [h] at he
  cases he

/-- Without a sign the digits are all there is to read. -/
theorem cutSign_digit {d : Char} (h : isDecimalDigit d) (ds : List Char) :
    cutSign (d :: ds) = (false, d :: ds) := by
  rw [cutSign]
  · exact fun _ hd => ne_of_isDecimalDigit h (by decide) (List.head_eq_of_cons_eq hd)
  · exact fun _ hd => ne_of_isDecimalDigit h (by decide) (List.head_eq_of_cons_eq hd)

/-- Digits behind an optional sign, within the range. -/
theorem readInt?_of_digits {cs : List Char} {negative : Bool} {n : Nat} {k : Int}
    (hcut : cutSign cs = (negative, Nat.toDigits 10 n))
    (hrange : inRange? ((Nat.toDigits 10 n).length < cs.length) negative n = some k) :
    readInt? cs = some k := by
  have hempty : (Nat.toDigits 10 n).isEmpty = false :=
    List.isEmpty_eq_false_iff.2 Nat.toDigits_ne_nil
  unfold readInt?
  rw [hcut]
  dsimp only
  rw [hempty, if_neg Bool.false_ne_true, cutBase_toDigits]
  dsimp only
  rw [natOfDigits?_toDigits, Option.bind_some, hrange]
  rfl

/-- A printed integer is read as itself, if it fits. -/
theorem readInt?_numeral {n : Int} (hlow : minInt ≤ n) (hhigh : n ≤ maxInt) :
    readInt? (numeral n) = some n := by
  cases n with
  | ofNat n =>
    obtain ⟨d, ds, hds⟩ := List.exists_cons_of_ne_nil (Nat.toDigits_ne_nil (n := n) (b := 10))
    have hd : isDecimalDigit d := isDecimalDigit_of_mem (hds ▸ List.mem_cons_self ..)
    refine readInt?_of_digits (by rw [numeral, hds, cutSign_digit hd]) ?_
    have hrange : n ≤ maxWord := by
      simp only [maxInt, maxWord, Int.ofNat_eq_natCast] at hhigh ⊢
      omega
    simp [numeral, inRange?, hrange]
  | negSucc n =>
    refine readInt?_of_digits rfl ?_
    have hrange : n + 1 ≤ maxInt + 1 := by
      simp only [minInt, maxInt] at hlow ⊢
      omega
    rw [inRange?, if_pos rfl, if_pos hrange]
    rfl

/-- A date needs a dash after its first digits. -/
theorem skipDate?_digits {ds : List Char} (h : ∀ d ∈ ds, isDecimalDigit d) :
    skipDate? ds = none := by
  have hyear : ds.takeWhile isDecimalDigit = ds := by
    rw [← List.append_nil ds, List.takeWhile_append_of_pos h]
    rfl
  rw [skipDate?, hyear]
  by_cases hlength : ds.length = 4
  · have hrest : ds.drop 4 = [] := List.drop_eq_nil_of_le (Nat.le_of_eq hlength)
    simp [hlength, hrest, skipChar?]
  · simp [hlength]

/-- No date starts with a sign, and digits alone are none either. -/
theorem isTime_numeral (n : Int) : isTime (numeral n) = false := by
  have hskip : skipDate? (numeral n) = none := by
    obtain ⟨d, ds, hall, hnumeral | hnumeral⟩ := numeral_cases n
    · rw [hnumeral]
      exact skipDate?_digits hall
    · rw [hnumeral]
      rfl
  rw [isTime, hskip]

/-- Whether a text starts with a digit, after a sign. -/
def startsNumeral : List Char → Bool
  | '-' :: d :: _ => isDecimalDigit d
  | d :: _ => isDecimalDigit d
  | [] => false

/-- Words with a meaning of their own start with no digit and no sign before one. -/
theorem lookup_knownWords {s : String} (h : startsNumeral s.toList = true) :
    knownWords.lookup s = none := by
  have hwords : ∀ p ∈ knownWords, startsNumeral p.1.toList = false := by decide
  rw [List.lookup_eq_none_iff]
  intro p hp
  rw [bne_iff_ne]
  rintro rfl
  rw [hwords p hp] at h
  cases h

/-- What is printed looks like a number from its first character on. -/
theorem startsNumeral_numeral (n : Int) : startsNumeral (numeral n) = true := by
  obtain ⟨d, ds, hall, hnumeral | hnumeral⟩ := numeral_cases n
  all_goals
    have hd := hall d (List.mem_cons_self ..)
    rw [hnumeral]
  · rw [startsNumeral]
    · exact hd
    · exact fun _ _ hdash => absurd hdash (ne_of_isDecimalDigit hd (by decide))
  · exact hd

theorem mem_numeral {n : Int} {d : Char} (h : d ∈ numeral n) : isDecimalDigit d ∨ d = '-' := by
  obtain ⟨e, ds, hall, hnumeral | hnumeral⟩ := numeral_cases n
  · exact .inl (hall d (hnumeral ▸ h))
  · rw [hnumeral, List.mem_cons] at h
    exact h.symm.imp_left (hall d)

/-- Tried as a number, it is this integer. -/
theorem readNumber_numeral {n : Int} (hlow : minInt ≤ n) (hhigh : n ≤ maxInt) :
    readNumber (numeral n) = .int n := by
  have hplain : (numeral n).filter (· != '_') = numeral n := by
    rw [List.filter_eq_self]
    intro d hd
    rw [bne_iff_ne]
    obtain hdigit | rfl := mem_numeral hd
    · exact ne_of_isDecimalDigit hdigit (by decide)
    · decide
  rw [readNumber, hplain, readInt?_numeral hlow hhigh]

/-- **A bare numeral means its integer.** -/
theorem meaning_toString {n : Int} (hlow : minInt ≤ n) (hhigh : n ≤ maxInt) :
    meaning true (toString n) = .int n := by
  have hstarts : startsNumeral (toString n).toList := by
    rw [toList_toString]
    exact startsNumeral_numeral n
  have hnumber := readNumber_numeral hlow hhigh
  have htime := isTime_numeral n
  rw [meaning, lookup_knownWords hstarts, toList_toString]
  obtain ⟨d, ds, hall, hnumeral | hnumeral⟩ := numeral_cases n
  all_goals rw [hnumeral] at htime hnumber ⊢
  · have hd := hall d (List.mem_cons_self ..)
    have hpoint : (d == '.') = false := beq_eq_false_iff_ne.2 (ne_of_isDecimalDigit hd (by decide))
    simp [hpoint, hd, htime, hnumber]
  · simp [htime, hnumber]

/-- So a line number comes back as it was written. -/
theorem Node.int?_scalar {n : Int} (l : Nat) (hlow : minInt ≤ n) (hhigh : n ≤ maxInt) :
    (scalar l .bare none (toString n)).int? = some (some n) := by
  have hvalue : scalarValue .bare none (toString n) = some (.int n) := by
    rw [scalarValue, meaning_toString hlow hhigh]
    rfl
  simp only [int?, scalarOf?, resolved, Option.bind_eq_bind, Option.bind_some, hvalue]
  exact if_pos hhigh

/-! ## Written bare -/

/-- The characters of a numeral have no meaning inside of a bare text. -/
theorem harmless {n : Int} {d : Char} (h : d ∈ numeral n) :
    isVisible d ∧ isBreak d = false ∧ isSpaceOrTab d = false ∧ d ≠ ':' ∧ d ∉ openingMarks := by
  obtain hdigit | rfl := mem_numeral h
  · have hmarks : openingMarks.all (fun e => !isDecimalDigit e) = true := by decide
    have hcode : 48 ≤ d.toNat ∧ d.toNat ≤ 57 := by
      simpa [isDecimalDigit, Char.le_def, UInt32.le_iff_toNat_le] using hdigit
    have hne : ∀ e, isDecimalDigit e = false → (d == e) = false := fun e he =>
      beq_eq_false_iff_ne.2 (ne_of_isDecimalDigit hdigit he)
    refine ⟨?_, ?_, ?_, ne_of_isDecimalDigit hdigit (by decide), fun hmem => ?_⟩
    · simp [isVisible]
      omega
    · rw [isBreak, hne '\n' (by decide), beq_eq_false_iff_ne.2 (by omega),
        beq_eq_false_iff_ne.2 (by omega)]
      rfl
    · rw [isSpaceOrTab, hne ' ' (by decide), hne '\t' (by decide)]
      rfl
    · have hd := List.all_eq_true.1 hmarks d hmem
      rw [hdigit] at hd
      cases hd
  · decide

/-- A bare scalar goes on to its end if it has neither a blank nor a colon. -/
theorem endsEarly_eq_false {cs : List Char} (h : ∀ d ∈ cs, isSpaceOrTab d = false ∧ d ≠ ':') :
    endsEarly cs = false := by
  induction cs with
  | nil => rfl
  | cons d cs ih =>
    obtain ⟨hspace, hcolon⟩ := h d (List.mem_cons_self ..)
    rw [endsEarly, hspace, beq_eq_false_iff_ne.2 hcolon, ih fun e he =>
      h e (List.mem_cons_of_mem _ he)]
    rfl

/-- Nothing in front of a number opens anything else than a bare scalar. -/
theorem opensOtherwise_numeral (n : Int) : opensOtherwise (numeral n) = false := by
  have hmark : ∀ d ∈ numeral n, openingMarks.contains d = false := fun d hd => by
    simpa using (harmless hd).2.2.2.2
  have hspace : ∀ d ∈ numeral n, isSpaceOrTab d = false := fun d hd => (harmless hd).2.2.1
  obtain ⟨d, ds, hall, hnumeral | hnumeral⟩ := numeral_cases n
  all_goals
    have hne : ∀ e, isDecimalDigit e = false → (e == d) = false ∧ (d == e) = false := fun e he => by
      have hd := ne_of_isDecimalDigit (hall d (List.mem_cons_self ..)) he
      exact ⟨beq_eq_false_iff_ne.2 hd.symm, beq_eq_false_iff_ne.2 hd⟩
    rw [hnumeral] at hmark hspace ⊢
    rw [opensOtherwise, hmark _ (List.mem_cons_self ..)]
  · have hdashes : "---".toList.isPrefixOf (d :: ds) = false := by
      change ('-' == d && _) = false
      rw [(hne '-' (by decide)).1, Bool.false_and]
    have hdots : "...".toList.isPrefixOf (d :: ds) = false := by
      change ('.' == d && _) = false
      rw [(hne '.' (by decide)).1, Bool.false_and]
    rw [(hne '?' (by decide)).2, (hne ':' (by decide)).2, (hne '-' (by decide)).2, hdashes, hdots]
    rfl
  · have hdashes : "---".toList.isPrefixOf ('-' :: d :: ds) = false := by
      change ('-' == d && _) = false
      rw [(hne '-' (by decide)).1, Bool.false_and]
    rw [beforeGap, hspace d (List.mem_cons_of_mem _ (List.mem_cons_self ..)), hdashes]
    rfl

/-- Hence a number can be written bare. -/
theorem bare_numeral (n : Int) : Bare (numeral n) where
  ne_nil := by
    obtain ⟨d, ds, -, hnumeral | hnumeral⟩ := numeral_cases n <;> simp [hnumeral]
  visible d hd := (harmless hd).1
  noQuotes := by
    have hspace : ' ' ∉ numeral n := fun hmem => absurd (harmless hmem).2.2.1 (by decide)
    have hbreak : (numeral n).any isBreak = false :=
      List.any_eq_false.2 fun d hd => by simp [(harmless hd).2.1]
    have hends : endsEarly (numeral n) = false :=
      endsEarly_eq_false fun d hd => ⟨(harmless hd).2.2.1, (harmless hd).2.2.2.1⟩
    have hhead : ((numeral n).head? == some ' ') = false :=
      beq_eq_false_iff_ne.2 fun h => hspace (List.mem_of_head? h)
    have hlast : ((numeral n).getLast? == some ' ') = false :=
      beq_eq_false_iff_ne.2 fun h => hspace (List.mem_of_getLast? h)
    rw [needsQuotes, hhead, hlast, hbreak, hends, opensOtherwise_numeral]
    rfl

end Derw.Yaml
