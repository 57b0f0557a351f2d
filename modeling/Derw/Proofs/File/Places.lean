import Derw.File.Tree
import Derw.Proofs.Text.Cut
import Derw.Text.Path

/-!
# Proofs/File/Places — where paths lead, and what a write changes

A path is followed component by component. If everything on the way is a folder, where it ends is
told by the components alone (`Position.follow`), so every path has a place in a tree
(`FileTree.placeOf`), and an operation on a path that succeeds acts at that place. A cleaned path
has the same place (`placeOf_clean`). So a name put behind a folder is followed from the place of
the folder (`placeOf_join`), and it stays inside unless it climbs: unless, on the way, there are
more steps up than down (`follow_of_not_climbs`).

To write a file changes what stands at its place and nothing else (`fileAt?_of_write`), and to make
folders changes no file.
-/

namespace Derw

/-! ## Following components -/

namespace Position

/-- Where a component leads, in a folder. -/
def step (p : Position) (c : String) : Position :=
  if c == "" || c == "." then p else if c == ".." then p.dropLast else p ++ [c]

/-- Where components lead, one after the other. -/
def follow (p : Position) (cs : List String) : Position := cs.foldl step p

theorem follow_append (p : Position) (cs ds : List String) :
    follow p (cs ++ ds) = follow (follow p cs) ds := List.foldl_append

/-- Whether components lead out of a folder, on the way or in the end, from so many steps below
it. -/
def climbs (depth : Nat) : List String → Bool
  | [] => false
  | c :: cs =>
    if c == "" || c == "." then climbs depth cs
    else if c == ".." then depth == 0 || climbs (depth - 1) cs
    else climbs (depth + 1) cs

/-- Components that do not climb lead to the same place inside any folder. -/
theorem follow_of_not_climbs (p inner : Position) {cs : List String}
    (h : climbs inner.length cs = false) : follow (p ++ inner) cs = p ++ follow inner cs := by
  induction cs generalizing inner with
  | nil => rfl
  | cons c cs ih =>
    rw [climbs] at h
    rw [follow, follow, List.foldl_cons, List.foldl_cons, step, step]
    split at h
    next hstay =>
      rw [if_pos hstay, if_pos hstay]
      exact ih _ h
    next hmove =>
      rw [if_neg hmove, if_neg hmove]
      split at h
      next hup =>
        obtain ⟨hdepth, hrest⟩ := Bool.or_eq_false_iff.mp h
        have hinner : inner ≠ [] := by simpa using hdepth
        rw [if_pos hup, if_pos hup, List.dropLast_append_of_ne_nil hinner]
        exact ih _ (by rw [List.length_dropLast]; exact hrest)
      next hdown =>
        rw [if_neg hdown, if_neg hdown, List.append_assoc]
        exact ih _ (by rw [List.length_append]; exact h)

end Position

namespace FileTree

variable {t t' : FileTree}

/-! ## Places -/

/-- Where a path leads, if everything on the way is a folder. -/
def placeOf (t : FileTree) (path : String) : Position :=
  Position.follow (if path.toList.head? == some '/' then [] else t.home) (components path)

theorem walk_eq {p q : Position} {cs : List String} (h : t.walk p cs = .ok q) :
    q = Position.follow p cs := by
  induction cs generalizing p with
  | nil => exact (Except.ok.inj h).symm
  | cons c cs ih =>
    rw [walk] at h
    rw [Position.follow, List.foldl_cons, Position.step]
    split at h
    next => cases h
    split at h
    next hstay => rw [if_pos hstay]; exact ih h
    next hmove =>
      rw [if_neg hmove]
      split at h
      next hup => rw [if_pos hup]; exact ih h
      next hdown => rw [if_neg hdown]; exact ih h

/-- A path that leads somewhere leads to its place. -/
theorem locate_eq {path : String} {p : Position} (h : t.locate path = .ok p) :
    p = t.placeOf path := by
  rw [locate] at h
  split at h
  next => cases h
  next => exact walk_eq h

/-- What is read stands at the place of its path. -/
theorem fileAt?_of_read {path content : String} (h : t.read path = .ok content) :
    t.fileAt? (t.placeOf path) = some content := by
  rw [read] at h
  split at h
  next => cases h
  next place hplace =>
    obtain rfl := locate_eq hplace
    split at h
    next found hfound => exact Except.ok.inj h ▸ hfound
    next => split at h <;> cases h

theorem placeOf_congr (h : t'.home = t.home) (path : String) :
    t'.placeOf path = t.placeOf path := by
  rw [placeOf, placeOf, h]

end FileTree

/-! ## Cleaned paths -/

namespace Text.Path

/-- A component that a cleaned path may have. -/
structure IsPart (c : List Char) : Prop where
  ne_nil : c ≠ []
  ne_dot : c ≠ ['.']
  no_slash : '/' ∉ c

variable {rooted : Bool} {start : Position} {done : List (List Char)} {c p : List Char}

/-- The components of a cleaned path, in order. -/
def names (done : List (List Char)) : List String := done.reverse.map String.ofList

theorem ofList_beq (c d : List Char) : (String.ofList c == String.ofList d) = (c == d) := by
  rw [Bool.eq_iff_iff, beq_iff_eq, beq_iff_eq, String.ofList_inj]

theorem step_ofList (start : Position) (c : List Char) :
    start.step (String.ofList c)
      = if c == [] || c == ['.'] then start
        else if c == ['.', '.'] then start.dropLast else start ++ [String.ofList c] := by
  rw [← ofList_beq c [], ← ofList_beq c ['.'], ← ofList_beq c ['.', '.']]
  rfl

theorem follow_names_cons (start : Position) (d : List Char) (done : List (List Char)) :
    Position.follow start (names (d :: done))
      = (Position.follow start (names done)).step (String.ofList d) := by
  rw [names, List.reverse_cons, List.map_append, Position.follow_append]
  rfl

/-- One more component leads one step on, although `..` takes a component away. -/
theorem follow_push (hdone : ∀ d ∈ done, IsPart d) (hroot : rooted = true → start = [])
    (c : List Char) :
    Position.follow start (names (push rooted done c))
      = (Position.follow start (names done)).step (String.ofList c) := by
  rw [push.eq_def, step_ofList]
  split
  next => rfl
  next hmove =>
    split
    next hup =>
      obtain rfl : c = ['.', '.'] := beq_iff_eq.mp hup
      cases done with
      | nil =>
        dsimp only
        split
        next h => rw [hroot h]; rfl
        next => rfl
      | cons d ds =>
        dsimp only
        split
        next => rw [follow_names_cons, step_ofList]; rfl
        next hd =>
          have hpart := hdone d List.mem_cons_self
          have hname : ¬(d == [] || d == ['.']) = true := by
            simp [hpart.ne_nil, hpart.ne_dot]
          rw [follow_names_cons, step_ofList, if_neg hname, if_neg hd, List.dropLast_concat]
    next hdown =>
      rw [follow_names_cons, step_ofList, if_neg hmove, if_neg hdown]

theorem isPart_of_mem_push (hdone : ∀ d ∈ done, IsPart d) (hc : '/' ∉ c) :
    ∀ d ∈ push rooted done c, IsPart d := by
  intro d hd
  rw [push.eq_def] at hd
  split at hd
  next => exact hdone d hd
  next hmove =>
    have hpart : IsPart c := by
      rw [Bool.or_eq_true, not_or, beq_iff_eq, beq_iff_eq] at hmove
      exact ⟨hmove.1, hmove.2, hc⟩
    split at hd
    next =>
      split at hd
      next =>
        split at hd
        next => cases hd
        next => exact List.mem_singleton.mp hd ▸ hpart
      next d' ds =>
        split at hd
        next => exact (List.mem_cons.mp hd).elim (· ▸ hpart) (hdone d)
        next => exact hdone d (List.mem_cons_of_mem _ hd)
    next => exact (List.mem_cons.mp hd).elim (· ▸ hpart) (hdone d)

theorem no_slash_of_mem_components (hc : c ∈ components p) : '/' ∉ c := by
  intro hslash
  have := (Text.mem_splitWhere hc hslash).2
  simp at this

/-- What holds after each component: only parts are kept, and they lead where the path has led. -/
theorem foldl_push (hdone : ∀ d ∈ done, IsPart d) (hroot : rooted = true → start = [])
    {cs : List (List Char)} (hcs : ∀ c ∈ cs, '/' ∉ c) :
    (∀ d ∈ cs.foldl (push rooted) done, IsPart d) ∧
      Position.follow start (names (cs.foldl (push rooted) done))
        = Position.follow (Position.follow start (names done)) (cs.map String.ofList) := by
  induction cs generalizing done with
  | nil => exact ⟨hdone, rfl⟩
  | cons c cs ih =>
    obtain ⟨hc, hcs⟩ := List.forall_mem_cons.mp hcs
    obtain ⟨hparts, hfollow⟩ := ih (isPart_of_mem_push hdone hc) hcs
    refine ⟨hparts, hfollow.trans ?_⟩
    rw [follow_push hdone hroot]
    rfl

theorem cleanParts_spec (hroot : rooted = true → start = []) (p : List Char) :
    (∀ d ∈ cleanParts rooted p, IsPart d) ∧
      Position.follow start (names (cleanParts rooted p))
        = Position.follow start ((components p).map String.ofList) :=
  foldl_push (fun _ h => absurd h List.not_mem_nil) hroot fun _ => no_slash_of_mem_components

theorem components_intersperse {ws : List (List Char)} (hne : ws ≠ []) (h : ∀ w ∈ ws, '/' ∉ w) :
    components (ws.intersperse ['/']).flatten = ws := by
  induction ws with
  | nil => exact absurd rfl hne
  | cons w ws ih =>
    obtain ⟨hw, hws⟩ := List.forall_mem_cons.mp h
    have hplain : ∀ c ∈ w, (c == '/') = false := fun c hc =>
      beq_eq_false_iff_ne.mpr fun heq => hw (heq ▸ hc)
    cases ws with
    | nil =>
      rw [List.intersperse_singleton, List.flatten_singleton]
      exact Text.splitWhere_of_not hplain
    | cons v vs =>
      rw [List.intersperse_cons_cons, List.flatten_cons, List.flatten_cons]
      exact (Text.splitWhere_append_cons hplain rfl).trans
        (congrArg (w :: ·) (ih (List.cons_ne_nil v vs) hws))

theorem components_joinParts {parts : List (List Char)} (hne : parts ≠ [])
    (h : ∀ d ∈ parts, IsPart d) : components (joinParts parts) = parts.reverse :=
  components_intersperse (by simpa using hne) fun w hw => (h w (List.mem_reverse.mp hw)).no_slash

theorem components_slash (cs : List Char) : components ('/' :: cs) = [] :: components cs := rfl

/-- Parts do not start a path at the root. -/
theorem head?_joinParts_ne {parts : List (List Char)} (hne : parts ≠ [])
    (h : ∀ d ∈ parts, IsPart d) : (joinParts parts).head? ≠ some '/' := by
  intro hhead
  obtain ⟨rest, hrest⟩ := List.head?_eq_some_iff.mp hhead
  have hcomponents := components_joinParts hne h
  rw [hrest, components_slash] at hcomponents
  have hmem : [] ∈ parts.reverse := hcomponents ▸ List.mem_cons_self
  exact (h [] (List.mem_reverse.mp hmem)).ne_nil rfl

/-- **A cleaned path starts where the path starts**, … -/
theorem head?_cleanChars (p : List Char) :
    ((cleanChars p).head? == some '/') = (p.head? == some '/') := by
  rw [cleanChars]
  cases hrooted : (p.head? == some '/') with
  | true => rfl
  | false =>
    split
    next h => cases h
    split
    next => rfl
    next hne =>
      have hparts : ∀ d ∈ cleanParts false p, IsPart d := (cleanParts_spec (fun _ => rfl) p).1
      exact beq_eq_false_iff_ne.mpr
        (head?_joinParts_ne (fun h => hne (List.isEmpty_iff.mpr h)) hparts)

/-- … **and leads to the same place.** -/
theorem follow_cleanChars {start : Position} (h : p.head? = some '/' → start = []) :
    Position.follow start ((components (cleanChars p)).map String.ofList)
      = Position.follow start ((components p).map String.ofList) := by
  obtain ⟨hparts, hfollow⟩ := cleanParts_spec (fun hrooted => h (beq_iff_eq.mp hrooted)) p
  rw [← hfollow, cleanChars]
  generalize cleanParts (p.head? == some '/') p = parts at hparts
  cases parts with
  | nil => split <;> rfl
  | cons d ds =>
    have hjoin := components_joinParts (List.cons_ne_nil d ds) hparts
    split
    next => rw [components_slash, hjoin]; rfl
    next =>
      rw [if_neg (by simp), hjoin]
      rfl

end Text.Path

namespace FileTree

variable {t t' : FileTree}

theorem components_ofList (cs : List Char) :
    components (String.ofList cs) = (Text.Path.components cs).map String.ofList := by
  rw [components, String.toList_ofList]
  rfl

theorem placeOf_clean (t : FileTree) (path : String) :
    t.placeOf (Text.Path.clean path) = t.placeOf path := by
  rw [placeOf, placeOf, Text.Path.clean, components_ofList, String.toList_ofList,
    Text.Path.head?_cleanChars]
  refine Text.Path.follow_cleanChars fun hrooted => ?_
  rw [hrooted]
  rfl

/-- A name behind a folder is followed from the place of the folder. -/
theorem placeOf_join (t : FileTree) {folder : String} (h : folder ≠ "") (name : String) :
    t.placeOf (Text.Path.join folder name)
      = Position.follow (t.placeOf folder) (components name) := by
  have hfolder : folder.isEmpty = false := by simpa using h
  have hchars : (folder ++ "/" ++ name).toList = folder.toList ++ '/' :: name.toList := by
    rw [String.toList_append, String.toList_append, List.append_assoc]
    rfl
  have hcomponents : components (folder ++ "/" ++ name) = components folder ++ components name := by
    rw [components, hchars, Text.splitWhere_append_separator rfl, List.map_append]
    rfl
  have hhead : (folder ++ "/" ++ name).toList.head? = folder.toList.head? := by
    obtain ⟨c, cs, hcs⟩ := List.exists_cons_of_ne_nil (mt String.toList_eq_nil_iff.mp h)
    rw [hchars, hcs, List.cons_append, List.head?_cons, List.head?_cons]
  rw [Text.Path.join, hfolder]
  rw [if_neg Bool.false_ne_true, placeOf_clean, placeOf, placeOf, hhead, hcomponents,
    Position.follow_append]

/-! ## Writing -/

theorem lookup_filter_ne {α : Type} (files : List (Position × α)) (p q : Position) :
    (files.filter (·.1 != p)).lookup q = if q = p then none else files.lookup q := by
  induction files with
  | nil => simp
  | cons file files ih =>
    obtain ⟨r, content⟩ := file
    by_cases hr : r = p
    · rw [List.filter_cons_of_neg (by simpa using hr), ih, List.lookup_cons]
      by_cases hq : q = p
      · rw [if_pos hq, if_pos hq]
      · rw [if_neg hq, if_neg hq, beq_eq_false_iff_ne.mpr (hr ▸ hq)]
    · rw [List.filter_cons_of_pos (by simpa using hr), List.lookup_cons, List.lookup_cons]
      by_cases hq : q = r
      · subst hq
        rw [beq_self_eq_true, if_neg hr]
      · rw [beq_eq_false_iff_ne.mpr hq]
        exact ih

/-- A write changes what stands at its place. -/
theorem fileAt?_of_write {path content : String} (h : t.write path content = .ok t') :
    t'.home = t.home ∧ ∀ p, t'.fileAt? p
      = if p = t.placeOf path then some content else t.fileAt? p := by
  rw [write] at h
  split at h
  next => cases h
  next place hplace =>
    obtain rfl := locate_eq hplace
    split at h
    next => cases h
    next =>
      obtain rfl := Except.ok.inj h
      refine ⟨rfl, fun p => ?_⟩
      rw [fileAt?, List.lookup_append, lookup_filter_ne, List.lookup_cons, List.lookup_nil, fileAt?]
      by_cases hp : p = t.placeOf path
      · rw [if_pos hp, if_pos hp, beq_iff_eq.mpr hp]
        rfl
      · rw [if_neg hp, if_neg hp, beq_eq_false_iff_ne.mpr hp]
        exact Option.or_none

theorem files_of_makeFolder {path : String} (h : t.makeFolder path = .ok t') :
    t'.home = t.home ∧ t'.files = t.files := by
  rw [makeFolder] at h
  split at h
  next => cases h
  split at h
  next => exact Except.ok.inj h ▸ ⟨rfl, rfl⟩
  split at h
  next => cases h
  next => exact Except.ok.inj h ▸ ⟨rfl, rfl⟩

/-- To make folders changes no file. -/
theorem files_of_makeFolders {path : String} (h : t.makeFolders path = .ok t') :
    t'.home = t.home ∧ t'.files = t.files := by
  rw [makeFolders] at h
  generalize leading path = folders at h
  induction folders generalizing t with
  | nil => exact Except.ok.inj h ▸ ⟨rfl, rfl⟩
  | cons folder folders ih =>
    rw [List.foldlM_cons] at h
    cases hfirst : t.makeFolder folder with
    | error e => rw [hfirst] at h; cases h
    | ok made =>
      rw [hfirst] at h
      obtain ⟨hhome, hfiles⟩ := files_of_makeFolder hfirst
      obtain ⟨hhome', hfiles'⟩ := ih h
      exact ⟨hhome'.trans hhome, hfiles'.trans hfiles⟩

/-- What comes after a change sees the changed tree, or why there is none. -/
theorem run_change_bind {α : Type} (f : FileTree → Except FileError FileTree)
    (k : Except FileError Unit → StateM FileTree α) (t : FileTree) :
    (change f >>= k).run t = match f t with
      | .ok changed => (k (.ok ())).run changed
      | .error e => (k (.error e)).run t := by
  rw [StateT.run_bind]
  change ((match f t with
    | .ok changed => do set changed; return .ok ()
    | .error e => return .error e : StateM FileTree (Except FileError Unit)).run t >>= _) = _
  cases f t <;> rfl

end FileTree

end Derw
