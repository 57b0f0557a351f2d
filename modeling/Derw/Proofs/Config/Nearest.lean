import Derw.Config.Find
import Derw.Proofs.File.Places
import Mathlib.Data.List.Find
import Mathlib.Data.List.Infix

/-!
# Proofs/Config/Nearest — the configuration that counts is the nearest one

To look upwards from a folder is to go through the beginnings of its position, longest first. The
link between the two is `clean_of_rooted`: a rooted path is cleaned to the text of the position it
leads to (`Position.path`). With it, the parent of a position is the position without its last name
(`parent_path`), and a file in a folder is at the position with one more name (`join_path`). A step
up makes the text shorter, so the walk gets to the root before its bound is used up
(`ancestors_path`).
-/

namespace Derw

/-! ## The paths of positions -/

/-- A name that leads one step down. -/
structure IsStep (name : String) : Prop where
  ne_empty : name ≠ ""
  ne_dot : name ≠ "."
  ne_up : name ≠ ".."
  no_slash : '/' ∉ name.toList

instance (name : String) : Decidable (IsStep name) :=
  decidable_of_iff (name ≠ "" ∧ name ≠ "." ∧ name ≠ ".." ∧ '/' ∉ name.toList)
    ⟨fun h => ⟨h.1, h.2.1, h.2.2.1, h.2.2.2⟩, fun h => ⟨h.1, h.2, h.3, h.4⟩⟩

namespace Position

/-- The absolute path of a position. -/
def path (p : Position) : String := "/" ++ Text.join "/" p

variable {p : Position} {name : String}

/-- A step goes into the folder of that name. -/
theorem step_of_isStep (h : IsStep name) (p : Position) : p.step name = p ++ [name] := by
  simp [step, h.ne_empty, h.ne_dot, h.ne_up]

theorem follow_of_isStep {names : List String} (h : ∀ name ∈ names, IsStep name) (p : Position) :
    follow p names = p ++ names := by
  induction names generalizing p with
  | nil => exact (List.append_nil p).symm
  | cons name names ih =>
    obtain ⟨hname, hnames⟩ := List.forall_mem_cons.mp h
    rw [follow, List.foldl_cons, step_of_isStep hname]
    exact (ih hnames _).trans (List.append_assoc _ _ _)

/-- A path is its names with slashes in front. -/
theorem toList_path (p : Position) :
    p.path.toList = '/' :: ((p.map String.toList).intersperse ['/']).flatten := by
  have hjoin : ∀ names : List String, (Text.join "/" names).toList
      = ((names.map String.toList).intersperse ['/']).flatten := by
    intro names
    induction names with
    | nil => rfl
    | cons name names ih =>
      cases names with
      | nil => simp [Text.join]
      | cons next names => simp_all [Text.join]
  rw [path, String.toList_append, hjoin]
  rfl

theorem path_ne_empty (p : Position) : p.path ≠ "" := by
  rw [path]
  simp

/-- The path one step further. -/
theorem path_concat (hp : p ≠ []) (name : String) : (p ++ [name]).path = p.path ++ "/" ++ name := by
  rw [path, Text.join_append hp (List.cons_ne_nil _ _), path]
  simp only [Text.join, String.append_assoc]

theorem length_path_lt (p : Position) (h : IsStep name) :
    p.path.length < (p ++ [name]).path.length := by
  have hname : 0 < name.length := by
    have : name.toList ≠ [] := fun h' => h.ne_empty (String.toList_eq_nil_iff.mp h')
    rw [← String.length_toList]
    exact List.length_pos_iff.mpr this
  cases p with
  | nil =>
    change 1 < ("/" ++ name).length
    rw [String.length_append]
    exact Nat.lt_add_of_pos_right hname
  | cons first rest =>
    rw [path_concat (List.cons_ne_nil _ _), String.length_append, String.length_append]
    omega

end Position

/-! ## Cleaning a rooted path -/

namespace Text.Path

variable {done : List (List Char)} {c p : List Char}

/-- Below the root, `..` always takes a component away. -/
theorem ne_up_of_mem_push (hdone : ∀ d ∈ done, d ≠ ['.', '.']) :
    ∀ d ∈ push true done c, d ≠ ['.', '.'] := by
  intro d hd
  rw [push.eq_def] at hd
  split at hd
  next => exact hdone d hd
  split at hd
  next =>
    split at hd
    next => cases hd
    next first rest =>
      obtain ⟨hfirst, hrest⟩ := List.forall_mem_cons.mp hdone
      rw [beq_false_of_ne hfirst] at hd
      exact hrest d hd
  next hup => exact (List.mem_cons.mp hd).elim (fun h h' => hup (by simp [← h, h'])) (hdone d)

/-- A rooted path has no way up left when it is clean. -/
theorem ne_up_of_mem_cleanParts (p : List Char) : ∀ d ∈ cleanParts true p, d ≠ ['.', '.'] := by
  have hfold : ∀ (cs done : List (List Char)), (∀ d ∈ done, d ≠ ['.', '.']) →
      ∀ d ∈ cs.foldl (push true) done, d ≠ ['.', '.'] := by
    intro cs
    induction cs with
    | nil => exact fun _ hdone => hdone
    | cons c cs ih => exact fun done hdone => ih _ (ne_up_of_mem_push hdone)
  exact hfold _ [] fun _ h => absurd h List.not_mem_nil

/-- So each of its names is a step. -/
theorem isStep_of_mem_names (p : List Char) : ∀ name ∈ names (cleanParts true p), IsStep name := by
  have hparts := (@cleanParts_spec true [] (fun _ => rfl) p).1
  intro name hname
  obtain ⟨d, hd, rfl⟩ := List.mem_map.mp hname
  have hd : d ∈ cleanParts true p := List.mem_reverse.mp hd
  have hne : ∀ e : List Char, d ≠ e → String.ofList d ≠ String.ofList e := fun e h h' =>
    h (String.ofList_inj.mp h')
  exact ⟨hne [] (hparts d hd).ne_nil, hne ['.'] (hparts d hd).ne_dot,
    hne ['.', '.'] (ne_up_of_mem_cleanParts p d hd),
    by rw [String.toList_ofList]; exact (hparts d hd).no_slash⟩

end Text.Path

namespace FileTree

variable {path name : String} {p : Position}

/-- A rooted path is looked up from the root, wherever the tree stands. -/
theorem placeOf_of_rooted (t : FileTree) (h : path.toList.head? = some '/') :
    t.placeOf path = Text.Path.names (Text.Path.cleanParts true path.toList) := by
  have hfollow := (@Text.Path.cleanParts_spec true [] (fun _ => rfl) path.toList).2
  rw [Position.follow_of_isStep (Text.Path.isStep_of_mem_names _)] at hfollow
  rw [placeOf, h]
  exact hfollow.symm

theorem isStep_placeOf (t : FileTree) (h : path.toList.head? = some '/') :
    ∀ name ∈ t.placeOf path, IsStep name := by
  rw [placeOf_of_rooted t h]
  exact Text.Path.isStep_of_mem_names _

/-- **A rooted path is cleaned to the path of its place.** -/
theorem clean_of_rooted (t : FileTree) (h : path.toList.head? = some '/') :
    Text.Path.clean path = (t.placeOf path).path := by
  rw [placeOf_of_rooted t h, ← String.toList_inj, Position.toList_path, Text.Path.clean,
    String.toList_ofList, Text.Path.cleanChars, h, Text.Path.names, List.map_map]
  have hmap : ∀ parts : List (List Char), parts.map (String.toList ∘ String.ofList) = parts := by
    intro parts
    simp [Function.comp_def]
  rw [hmap]
  rfl

theorem head?_path (p : Position) : p.path.toList.head? = some '/' := by
  rw [Position.toList_path]
  rfl

/-- Joining cleans. -/
theorem join_path_eq (p : Position) (name : String) :
    Text.Path.join p.path name = Text.Path.clean (p.path ++ "/" ++ name) := by
  rw [Text.Path.join, if_neg (by simpa using p.path_ne_empty)]

theorem components_path (h : ∀ name ∈ p, IsStep name) (hp : p ≠ []) :
    components p.path = "" :: p := by
  have hslash : ∀ w ∈ p.map String.toList, '/' ∉ w :=
    List.forall_mem_map.mpr fun name hname => (h name hname).no_slash
  have hwords := Text.Path.components_intersperse (mt List.map_eq_nil_iff.mp hp) hslash
  rw [Text.Path.components] at hwords
  rw [components, Position.toList_path, Text.splitWhere, if_pos (by rfl), hwords]
  simp [Function.comp_def]

/-- The path of a position leads there. -/
theorem placeOf_path (t : FileTree) (h : ∀ name ∈ p, IsStep name) : t.placeOf p.path = p := by
  by_cases hp : p = []
  · rw [hp]
    rfl
  · rw [placeOf, head?_path, components_path h hp, if_pos (by rfl)]
    exact Position.follow_of_isStep h []

theorem head?_behind (p : Position) (rest : String) :
    (p.path ++ "/" ++ rest).toList.head? = some '/' := by
  simp [Position.toList_path]

/-- What stands behind the path of a folder is followed from there. -/
theorem placeOf_behind (t : FileTree) (h : ∀ name ∈ p, IsStep name) (rest : String) :
    t.placeOf (p.path ++ "/" ++ rest) = Position.follow p (components rest) := by
  have hplace := placeOf_join t p.path_ne_empty rest
  rwa [join_path_eq, placeOf_clean, placeOf_path t h] at hplace

/-- A path behind that of a position is followed from there. -/
theorem clean_behind (h : ∀ name ∈ p, IsStep name) (rest : String) :
    Text.Path.clean (p.path ++ "/" ++ rest) = (Position.follow p (components rest)).path := by
  -- Any tree will do: the place of a rooted path does not depend on the working folder.
  let t : FileTree := ⟨[], [], [], .usual⟩
  rw [clean_of_rooted t (head?_behind p rest), placeOf_behind t h]

/-- A name in a folder. -/
theorem join_path (h : ∀ name ∈ p, IsStep name) (hname : IsStep name) :
    Text.Path.join p.path name = (p ++ [name]).path := by
  have hcomponents : components name = [name] := by
    rw [components, Text.splitWhere_of_not fun c hc => ?_]
    · simp
    · exact beq_eq_false_iff_ne.mpr fun heq => hname.no_slash (heq ▸ hc)
  rw [join_path_eq, clean_behind h, hcomponents,
    Position.follow_of_isStep (List.forall_mem_singleton.mpr hname)]

/-- The folder that holds a place. -/
theorem parent_path (h : ∀ name ∈ p, IsStep name) (hname : IsStep name) :
    Text.Path.parent (p ++ [name]).path = p.path := by
  have hcut : ∀ before : List Char, ((before ++ '/' :: name.toList).reverse.dropWhile
      (· != '/')).reverse = before ++ ['/'] := by
    intro before
    have hplain : ∀ c ∈ name.toList.reverse, (c != '/') = true := fun c hc =>
      bne_iff_ne.mpr fun heq => hname.no_slash (heq ▸ List.mem_reverse.mp hc)
    rw [List.reverse_append, List.reverse_cons, List.append_assoc,
      List.dropWhile_append_of_pos hplain]
    simp
  by_cases hp : p = []
  · have hpath : (p ++ [name]).path.toList = [] ++ '/' :: name.toList := by
      simp [hp, Position.toList_path]
    rw [Text.Path.parent, hpath, hcut, hp]
    rfl
  · have hpath : (p ++ [name]).path.toList = p.path.toList ++ '/' :: name.toList := by
      simp [Position.path_concat hp]
    have hclean : Text.Path.parent (p ++ [name]).path = Text.Path.clean (p.path ++ "/" ++ "") := by
      rw [Text.Path.parent, hpath, hcut, Text.Path.clean]
      simp
    rw [hclean, clean_behind h]
    rfl

/-- The absolute path of a folder is the path of its place, from which every name leads down. -/
theorem absolute_eq (t : FileTree) (h : ∀ name ∈ t.home, IsStep name) (folder : String) :
    Text.Path.absolute t.home.path folder = (t.placeOf folder).path ∧
      ∀ name ∈ t.placeOf folder, IsStep name := by
  rw [Text.Path.absolute]
  split
  next hroot =>
    have hroot := beq_iff_eq.mp hroot
    exact ⟨clean_of_rooted t hroot, isStep_placeOf t hroot⟩
  next hroot =>
    have hplace : t.placeOf folder = t.placeOf (t.home.path ++ "/" ++ folder) := by
      rw [placeOf_behind t h, placeOf, if_neg hroot]
    have hhead := head?_behind t.home folder
    rw [join_path_eq, clean_of_rooted t hhead, hplace]
    exact ⟨rfl, isStep_placeOf t hhead⟩

/-! ### What is at a place -/

/-- Whether there is a file or a folder at a place. -/
def hasAt (t : FileTree) (p : Position) : Bool := t.isFolder p || (t.fileAt? p).isSome

variable {t : FileTree} {q : Position}

/-- The places on the way to a file or a folder are folders. -/
theorem isFolder_of_hasAt (hp : t.hasAt p = true) (hq : q <+: p) (hne : q ≠ p) :
    t.isFolder q = true := by
  simp only [hasAt, isFolder, Bool.or_eq_true, List.any_eq_true, List.isPrefixOf_iff_prefix,
    Bool.and_eq_true, bne_iff_ne, fileAt?, Option.isSome_iff_exists] at hp ⊢
  rcases hp with ((hhome | ⟨r, hr, hpre⟩) | ⟨file, hfile, hpre, -⟩) | ⟨content, hfile⟩
  · exact .inl (.inl (hq.trans hhome))
  · exact .inl (.inr ⟨r, hr, hq.trans hpre⟩)
  · refine .inr ⟨file, hfile, hq.trans hpre, ?_⟩
    rintro rfl
    exact hne (hq.eq_of_length (Nat.le_antisymm hq.length_le hpre.length_le))
  · obtain ⟨before, after, hfiles, -⟩ := List.lookup_eq_some_iff.mp hfile
    exact .inr ⟨(p, content), by simp [hfiles], hq, hne⟩

/-- What is there can be walked to. -/
theorem walk_of_hasAt {names : List String} (h : ∀ name ∈ names, IsStep name)
    (hp : t.hasAt (p ++ names) = true) : t.walk p names = .ok (p ++ names) := by
  induction names generalizing p with
  | nil => simp [walk]
  | cons name names ih =>
    obtain ⟨hname, hnames⟩ := List.forall_mem_cons.mp h
    have hfolder : t.isFolder p = true :=
      isFolder_of_hasAt hp (List.prefix_append _ _) (by simp)
    rw [List.append_cons] at hp ⊢
    rw [walk, ← ih hnames hp]
    simp [hfolder, hname.ne_empty, hname.ne_dot, hname.ne_up]

/-- A path finds what is at its place. -/
theorem contains_path (h : ∀ name ∈ p, IsStep name) (hp : p ≠ []) :
    t.contains p.path = t.hasAt p := by
  have hlocate : t.locate p.path = t.walk [] ("" :: p) := by
    rw [locate, if_neg (by simpa using p.path_ne_empty), head?_path, components_path h hp]
    rfl
  cases hhas : t.hasAt p with
  | true =>
    have hroot : t.isFolder [] = true := isFolder_of_hasAt hhas List.nil_prefix hp.symm
    have hwalk := walk_of_hasAt h (p := []) hhas
    rw [contains, hlocate, walk]
    simp only [hroot, hwalk]
    exact hhas
  | false =>
    rw [contains]
    split
    next place hplace =>
      obtain rfl : place = p := (locate_eq hplace).trans (placeOf_path t h)
      exact hhas
    next => rfl

end FileTree

/-! ## Upwards -/

namespace Config

variable {p : Position}

/-- The root is its own parent. -/
theorem parent_root : Text.Path.parent (Position.path []) = Position.path [] := by decide

/-- **The walk goes through the beginnings of a position, longest first**: as long as it may take as
many steps as the position has names, it gets to the root. -/
theorem ancestors_path (h : ∀ name ∈ p, IsStep name) {fuel : Nat} (hfuel : p.length ≤ fuel) :
    ancestors p.path fuel = p.inits.reverse.map Position.path := by
  induction p using List.reverseRecOn generalizing fuel with
  | nil =>
    cases fuel with
    | zero => rfl
    | succ n => rw [ancestors, parent_root]; simp
  | append_singleton p name ih =>
    obtain ⟨hp, hname⟩ := List.forall_mem_append.mp h
    have hname := List.forall_mem_singleton.mp hname
    have hlonger := Position.length_path_lt p hname
    cases fuel with
    | zero => simp at hfuel
    | succ n =>
      have hne : (Position.path p == Position.path (p ++ [name])) = false :=
        beq_eq_false_iff_ne.mpr fun heq => absurd hlonger (by simp [heq])
      have hn : p.length ≤ n := by simpa using hfuel
      rw [ancestors, FileTree.parent_path hp hname]
      simp [hne, ih hp hn, List.inits_append]

/-- A path is as long as its position, or longer. The search has fuel for that many folders. -/
theorem length_le_path (h : ∀ name ∈ p, IsStep name) : p.length ≤ p.path.length := by
  induction p using List.reverseRecOn with
  | nil => exact Nat.zero_le _
  | append_singleton p name ih =>
    obtain ⟨hp, hname⟩ := List.forall_mem_append.mp h
    have hlonger := Position.length_path_lt p (List.forall_mem_singleton.mp hname)
    rw [List.length_append, List.length_singleton]
    exact Nat.succ_le_of_lt ((ih hp).trans_lt hlonger)

theorem isStep_fileNames : ∀ name ∈ fileNames, IsStep name := by decide

/-- The configuration file in the folder at `q`. -/
def fileIn? (t : FileTree) (q : Position) : Option String :=
  (fileNames.find? fun name => t.hasAt (q ++ [name])).map fun name => Position.path (q ++ [name])

/-- The first path that the tree contains. -/
theorem run_firstContained (t : FileTree) (paths : List String) :
    (firstContained FileTree.disk paths).run t = (paths.find? t.contains, t) := by
  induction paths with
  | nil => rfl
  | cons path paths ih =>
    rw [firstContained, List.find?_cons]
    change (if t.contains path then pure (some path) else firstContained FileTree.disk paths :
      StateM FileTree (Option String)).run t = _
    cases t.contains path with
    | true => rfl
    | false => exact ih

/-- In one folder, the names are tried in their order. -/
theorem find?_filesIn (t : FileTree) {q : Position} (h : ∀ name ∈ q, IsStep name) :
    (fileNames.map (Text.Path.join (Position.path q))).find? t.contains = fileIn? t q := by
  have hjoin : fileNames.map (Text.Path.join (Position.path q))
      = fileNames.map fun name => Position.path (q ++ [name]) :=
    List.map_congr_left fun name hname => FileTree.join_path h (isStep_fileNames name hname)
  have hcontains : fileNames.find? (t.contains ∘ fun name => Position.path (q ++ [name]))
      = fileNames.find? fun name => t.hasAt (q ++ [name]) := by
    refine List.find?_congr fun name hname => FileTree.contains_path ?_ (by simp)
    exact List.forall_mem_append.mpr
      ⟨h, List.forall_mem_singleton.mpr (isStep_fileNames name hname)⟩
  rw [hjoin, List.find?_map, hcontains, fileIn?]

/-- The folders are tried from the innermost to the root. -/
theorem find?_candidates (t : FileTree) (h : ∀ name ∈ p, IsStep name) :
    (candidates p.path).find? t.contains = p.inits.reverse.findSome? (fileIn? t) := by
  have hbeginnings : ∀ q ∈ p.inits.reverse, ∀ name ∈ q, IsStep name := fun q hq name hname =>
    h name (((List.mem_inits _ _).mp (List.mem_reverse.mp hq)).subset hname)
  rw [candidates, ancestors_path h (length_le_path h)]
  generalize p.inits.reverse = folders at hbeginnings
  induction folders with
  | nil => rfl
  | cons q folders ih =>
    obtain ⟨hq, hfolders⟩ := List.forall_mem_cons.mp hbeginnings
    rw [List.map_cons, List.flatMap_cons, List.find?_append, find?_filesIn t hq, ih hfolders,
      List.findSome?_cons]
    cases fileIn? t q <;> rfl

/-- What is found: the file in the first of the folders, looking upwards, that has one. -/
theorem run_find (t : FileTree) (h : ∀ name ∈ t.home, IsStep name) (folder : String) :
    (find FileTree.disk folder).run t
      = ((t.placeOf folder).inits.reverse.findSome? (fileIn? t), t) := by
  obtain ⟨habsolute, hsteps⟩ := t.absolute_eq h folder
  change (firstContained FileTree.disk
    (candidates (Text.Path.absolute t.home.path folder))).run t = _
  rw [run_firstContained, habsolute, find?_candidates t hsteps]

/-! ## The nearest file -/

/-- The file `name` in the folder at `q` is the configuration that counts for the folder at `start`:
no folder between the two has one, and of several files in the folder it is the first in order. -/
structure IsNearest (t : FileTree) (start q : Position) (name : String) : Prop where
  above : q <+: start
  name_mem : name ∈ fileNames
  present : t.hasAt (q ++ [name]) = true
  nearest : ∀ r, r <+: start → ∀ other ∈ fileNames, t.hasAt (r ++ [other]) = true → r <+: q
  preferred : ∀ other ∈ fileNames, t.hasAt (q ++ [other]) = true →
    fileNames.idxOf name ≤ fileNames.idxOf other

section

variable {t : FileTree} {start q q' : Position} {name name' : String}

/-- There is one nearest file. -/
theorem IsNearest.unique (h : IsNearest t start q name) (h' : IsNearest t start q' name') :
    q = q' ∧ name = name' := by
  have hq : q = q' := by
    have hle := h.nearest q' h'.above name' h'.name_mem h'.present
    have hge := h'.nearest q h.above name h.name_mem h.present
    exact hge.eq_of_length (Nat.le_antisymm hge.length_le hle.length_le)
  subst hq
  have hidx := Nat.le_antisymm (h.preferred name' h'.name_mem h'.present)
    (h'.preferred name h.name_mem h.present)
  exact ⟨rfl, (List.idxOf_inj h.name_mem).mp hidx⟩

/-- No file in a folder means none of the names. -/
theorem fileIn?_eq_none :
    fileIn? t q = none ↔ ∀ name ∈ fileNames, t.hasAt (q ++ [name]) = false := by
  simp [fileIn?]

/-- The file that is found in a folder is the first in order. -/
theorem fileIn?_eq_some {path : String} (h : fileIn? t q = some path) :
    ∃ name ∈ fileNames, path = Position.path (q ++ [name]) ∧ t.hasAt (q ++ [name]) = true ∧
      ∀ other ∈ fileNames, t.hasAt (q ++ [other]) = true →
        fileNames.idxOf name ≤ fileNames.idxOf other := by
  obtain ⟨name, hfind, rfl⟩ := Option.map_eq_some_iff.mp h
  obtain ⟨hpresent, before, after, hnames, hbefore⟩ := List.find?_eq_some_iff_append.mp hfind
  refine ⟨name, List.mem_of_find?_eq_some hfind, rfl, hpresent, fun other hother hhas => ?_⟩
  have hnot : other ∉ before := fun hmem => by simpa [hhas] using hbefore other hmem
  have hname : name ∉ before := fun hmem => by simpa [hpresent] using hbefore name hmem
  rw [hnames, List.idxOf_append_of_notMem hname, List.idxOf_append_of_notMem hnot]
  simp

/-- The folders above come later. -/
theorem pairwise_inits (p : Position) : p.inits.reverse.Pairwise fun q r => r <+: q := by
  induction p using List.reverseRecOn with
  | nil => simp
  | append_singleton p name ih =>
    have hinits : (p ++ [name]).inits.reverse = (p ++ [name]) :: p.inits.reverse := by
      simp [List.inits_append]
    rw [hinits]
    refine List.pairwise_cons.mpr ⟨fun q hq => ?_, ih⟩
    exact ((List.mem_inits _ _).mp (List.mem_reverse.mp hq)).trans (List.prefix_append _ _)

/-- Looking upwards stops at the nearest file. -/
theorem isNearest_of_findSome? {path : String}
    (h : start.inits.reverse.findSome? (fileIn? t) = some path) :
    ∃ q name, IsNearest t start q name ∧ path = Position.path (q ++ [name]) := by
  obtain ⟨nearer, q, farther, hfolders, hfile, hnearer⟩ := List.findSome?_eq_some_iff.mp h
  obtain ⟨name, hname, rfl, hpresent, hpreferred⟩ := fileIn?_eq_some hfile
  have hmem : ∀ r, r ∈ nearer ++ q :: farther ↔ r <+: start := fun r => by
    rw [← hfolders, List.mem_reverse, List.mem_inits]
  have hpairwise := pairwise_inits start
  rw [hfolders] at hpairwise
  refine ⟨q, name, ⟨(hmem q).mp (by simp), hname, hpresent, ?_, hpreferred⟩, rfl⟩
  intro r hr other hother hhas
  rcases List.mem_append.mp ((hmem r).mpr hr) with hr | hr
  · simp [fileIn?_eq_none.mp (hnearer r hr) other hother] at hhas
  · rcases List.mem_cons.mp hr with rfl | hr
    · exact List.prefix_rfl
    · exact (List.pairwise_cons.mp (List.pairwise_append.mp hpairwise).2.1).1 r hr

end

/-- **The configuration file that is found is the nearest one**, and there is none only if no folder
up to the root has one. The walk ends by itself: the last folder it comes to is the root, which is
its own parent. -/
theorem find_nearest (t : FileTree) (h : ∀ name ∈ t.home, IsStep name) (folder : String) :
    let start := t.placeOf folder
    let found := (find FileTree.disk folder).run t
    found.2 = t ∧
    (∀ path, found.1 = some path ↔
      ∃ q name, IsNearest t start q name ∧ path = Position.path (q ++ [name])) ∧
    (found.1 = none ↔
      ∀ q, q <+: start → ∀ name ∈ fileNames, t.hasAt (q ++ [name]) = false) ∧
    (ancestors start.path start.path.length).getLast? = some (Position.path []) ∧
    Text.Path.parent (Position.path []) = Position.path [] := by
  intro start found
  have hfound : found = (start.inits.reverse.findSome? (fileIn? t), t) := run_find t h folder
  have hsteps := (t.absolute_eq h folder).2
  have hnone : found.1 = none ↔
      ∀ q, q <+: start → ∀ name ∈ fileNames, t.hasAt (q ++ [name]) = false := by
    rw [hfound, List.findSome?_eq_none_iff]
    simp only [List.mem_reverse, List.mem_inits, fileIn?_eq_none]
  refine ⟨by rw [hfound], fun path => ⟨fun hpath => ?_, ?_⟩, hnone, ?_, parent_root⟩
  · rw [hfound] at hpath
    exact isNearest_of_findSome? hpath
  · rintro ⟨q, name, hnearest, rfl⟩
    cases hresult : found.1 with
    | none =>
      have hpresent := hnone.mp hresult q hnearest.above name hnearest.name_mem
      simp [hnearest.present] at hpresent
    | some path =>
      rw [hfound] at hresult
      obtain ⟨q', name', hnearest', rfl⟩ := isNearest_of_findSome? hresult
      obtain ⟨rfl, rfl⟩ := hnearest.unique hnearest'
      rfl
  · have hroot : start.inits.head? = some [] := by cases start <;> rfl
    rw [ancestors_path hsteps (length_le_path hsteps), List.getLast?_map, List.getLast?_reverse,
      hroot]
    rfl

/-- A nearer file counts, although one further up comes first in order; the folder to start from
need not exist. -/
theorem find_nearest_toml :
    ((find FileTree.disk "a/../b").run
      ⟨["home", "work"], [(["home", "derw.yaml"], ""), (["home", "work", "derw.toml"], "")], [],
        .usual⟩).1
      = some "/home/work/derw.toml" := by
  let t : FileTree :=
    ⟨["home", "work"], [(["home", "derw.yaml"], ""), (["home", "work", "derw.toml"], "")], [],
      .usual⟩
  have hnearest : ∀ r ∈ (t.placeOf "a/../b").inits, ∀ other ∈ fileNames,
      t.hasAt (r ++ [other]) = true → r <+: ["home", "work"] := by decide
  have hspec := find_nearest t (by decide) "a/../b"
  refine (hspec.2.1 _).mpr ⟨["home", "work"], "derw.toml", ⟨?_, ?_, ?_, ?_, ?_⟩, rfl⟩
  · decide
  · decide
  · decide
  · exact fun r hr => hnearest r ((List.mem_inits _ _).mpr hr)
  · decide

end Config

end Derw
