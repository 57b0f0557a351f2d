import Derw.Yaml.Node

/-!
# Proofs/Yaml/Lines — every node of a document is on a line

A node takes its line from the token it starts with, or from one next to it where nothing is
written; tokens count lines from zero, nodes from one. So whatever the readers give has positive
lines all the way down (`Node.Numbered`), which is one induction on the fuel over all of them
(`Reader.numbers`).
-/

namespace Derw.Yaml

namespace Node

/-- `m` is `n` or a part of it: an item of a sequence, a key or a value of a mapping. What an alias
stands for is a part of the node that has the anchor, not of the alias. -/
inductive Within : Node → Node → Prop
  | refl (n : Node) : Within n n
  | item {l : Nat} {ns : List Node} {c m : Node} (hc : c ∈ ns) (h : Within m c) :
    Within m (.sequence l ns)
  | key {l : Nat} {es : List Entry} {e : Entry} {m : Node} (he : e ∈ es) (h : Within m e.key) :
    Within m (.mapping l es)
  | value {l : Nat} {es : List Entry} {e : Entry} {m : Node} (he : e ∈ es) (h : Within m e.value) :
    Within m (.mapping l es)

/-- A node inside a node inside another. -/
theorem Within.trans {k m n : Node} (h : k.Within m) (h' : m.Within n) : k.Within n := by
  induction h' with
  | refl => exact h
  | item hc _ ih => exact .item hc (ih h)
  | key he _ ih => exact .key he (ih h)
  | value he _ ih => exact .value he (ih h)

/-- All parts of the node are on a line. -/
def Numbered (n : Node) : Prop := ∀ m : Node, m.Within n → 1 ≤ m.line

/-- Lines are counted from one. -/
theorem numbered_scalar (l : Nat) (style : Style) (tag : Option String) (text : String) :
    (scalar (l + 1) style tag text).Numbered := by
  rintro m ⟨⟩
  exact Nat.le_add_left 1 l

theorem numbered_empty (l : Nat) : (empty l).Numbered := numbered_scalar l .bare none ""

/-- An alias has a line, whatever it stands for. -/
theorem numbered_aliased (l : Nat) (name : String) (target : Node) :
    (aliased (l + 1) name target).Numbered := by
  rintro m ⟨⟩
  exact Nat.le_add_left 1 l

/-- So has one that stands for a node around it. -/
theorem numbered_loop (l : Nat) (name : String) : (loop (l + 1) name).Numbered := by
  rintro m ⟨⟩
  exact Nat.le_add_left 1 l

/-- A sequence of numbered items. -/
theorem numbered_sequence (l : Nat) {ns : List Node} (h : ∀ c ∈ ns, c.Numbered) :
    (sequence (l + 1) ns).Numbered := by
  intro m hm
  cases hm with
  | refl => exact Nat.le_add_left 1 l
  | item hc hm => exact h _ hc m hm

end Node

/-- All parts of the key and of the value are on a line. -/
structure Entry.Numbered (e : Entry) : Prop where
  key : e.key.Numbered
  value : e.value.Numbered

/-- A mapping of numbered entries. -/
theorem Node.numbered_mapping (l : Nat) {es : List Entry} (h : ∀ e ∈ es, e.Numbered) :
    (mapping (l + 1) es).Numbered := by
  intro m hm
  cases hm with
  | refl => exact Nat.le_add_left 1 l
  | key he hm => exact (h _ he).key m hm
  | value he hm => exact (h _ he).value m hm

/-! ## What may be read -/

namespace Reader

/-- Whatever is read, if anything is, is `P`. -/
def Gives {α : Type} (P : α → Prop) (x : Option (α × Reader)) : Prop := ∀ a r, x = some (a, r) → P a

section Gives

variable {α β : Type} {P : α → Prop} {Q : β → Prop}

/-- What reads nothing gives nothing wrong. -/
theorem gives_none : Gives P none := nofun

/-- What is given without reading on. -/
theorem gives_pure {a : α} (h : P a) (r : Reader) : Gives P (pure (a, r)) := by
  rintro _ _ ⟨⟩
  exact h

/-- One reader after the other. -/
theorem Gives.bind {x : Option (α × Reader)} {f : α × Reader → Option (β × Reader)}
    (hx : Gives P x) (hf : ∀ a r, P a → Gives Q (f (a, r))) : Gives Q (x >>= f) := by
  intro b r h
  obtain ⟨⟨a, r'⟩, ha, hb⟩ := Option.bind_eq_some_iff.mp h
  exact hf a r' (hx a r' ha) b r hb

/-- Looking at a token reads nothing. -/
theorem gives_peek {r : Reader} {f : Token → Option (α × Reader)} (h : ∀ t, Gives P (f t)) :
    Gives P (r.peek >>= f) := by
  intro a r' ha
  obtain ⟨t, -, hb⟩ := Option.bind_eq_some_iff.mp ha
  exact h t a r' hb

/-- Either of two readers. -/
theorem gives_ite {c : Prop} [Decidable c] {x y : Option (α × Reader)} (hx : Gives P x)
    (hy : Gives P y) : Gives P (if c then x else y) := by
  split
  · exact hx
  · exact hy

/-- Reading goes on behind a comma, where there has to be one. -/
theorem gives_comma {first : Bool} {c : Prop} [Decidable c] {r r' : Reader}
    {f : Reader → Option (α × Reader)} (h : ∀ r, Gives P (f r)) :
    Gives P (if first then pure r >>= f else if c then pure r' >>= f else none >>= f) :=
  gives_ite (h r) (gives_ite (h r') gives_none)

end Gives

/-! ## The readers -/

/-- What is read with this fuel has its lines, and so do the items and entries that are added to
those read before. -/
structure Numbers (fuel : Nat) : Prop where
  node : ∀ block indentless r, Gives Node.Numbered (node block indentless fuel r)
  blockItems : ∀ acc r, (∀ c ∈ acc, c.Numbered) →
    Gives (∀ c ∈ ·, c.Numbered) (blockItems acc fuel r)
  indentlessItems : ∀ acc r, (∀ c ∈ acc, c.Numbered) →
    Gives (∀ c ∈ ·, c.Numbered) (indentlessItems acc fuel r)
  blockEntries : ∀ acc r, (∀ e ∈ acc, e.Numbered) →
    Gives (∀ e ∈ ·, e.Numbered) (blockEntries acc fuel r)
  blockPart : ∀ t r, Gives Node.Numbered (blockPart t fuel r)
  flowItems : ∀ first acc r, (∀ c ∈ acc, c.Numbered) →
    Gives (∀ c ∈ ·, c.Numbered) (flowItems first acc fuel r)
  flowPair : ∀ r, Gives Entry.Numbered (flowPair fuel r)
  flowValue : ∀ close r, Gives Node.Numbered (flowValue close fuel r)
  flowEntries : ∀ first acc r, (∀ e ∈ acc, e.Numbered) →
    Gives (∀ e ∈ ·, e.Numbered) (flowEntries first acc fuel r)

/-- Without fuel nothing is read. -/
theorem numbers_zero : Numbers 0 where
  node _ _ _ := by rw [Reader.node]; exact gives_none
  blockItems _ _ _ := by rw [Reader.blockItems]; exact gives_none
  indentlessItems _ _ _ := by rw [Reader.indentlessItems]; exact gives_none
  blockEntries _ _ _ := by rw [Reader.blockEntries]; exact gives_none
  blockPart _ _ := by rw [Reader.blockPart]; exact gives_none
  flowItems _ _ _ _ := by rw [Reader.flowItems]; exact gives_none
  flowPair _ := by rw [Reader.flowPair]; exact gives_none
  flowValue _ _ := by rw [Reader.flowValue]; exact gives_none
  flowEntries _ _ _ _ := by rw [Reader.flowEntries]; exact gives_none

namespace Numbers

variable {fuel : Nat} (ih : Numbers fuel)
include ih

/-- A node, of whichever kind its first token announces. -/
theorem node_succ (block indentless : Bool) (r : Reader) :
    Gives Node.Numbered (Reader.node block indentless (fuel + 1) r) := by
  rw [Reader.node]
  refine gives_peek fun first => ?_
  dsimp only
  split
  · split
    · exact gives_none
    · exact gives_pure (Node.numbered_aliased _ _ _) _
    · exact gives_pure (Node.numbered_loop _ _) _
  · refine gives_peek fun t => ?_
    simp only [pure_bind]
    -- Settling the anchor leaves the node as it is, so each kind of node is on its own here.
    split
    · exact gives_pure (Node.numbered_scalar _ _ _ _) _
    · exact (ih.flowItems _ _ _ (by simp)).bind fun _ _ h =>
        gives_pure (Node.numbered_sequence _ h) _
    · exact (ih.flowEntries _ _ _ (by simp)).bind fun _ _ h =>
        gives_pure (Node.numbered_mapping _ h) _
    · refine gives_ite ?_ (gives_ite ?_ (gives_ite ?_ (gives_ite gives_none ?_)))
      · exact (ih.indentlessItems _ _ (by simp)).bind fun _ _ h =>
          gives_pure (Node.numbered_sequence _ h) _
      · exact (ih.blockItems _ _ (by simp)).bind fun _ _ h =>
          gives_pure (Node.numbered_sequence _ h) _
      · exact (ih.blockEntries _ _ (by simp)).bind fun _ _ h =>
          gives_pure (Node.numbered_mapping _ h) _
      · exact gives_pure (Node.numbered_scalar _ _ _ _) _

/-- The items of a block sequence, each behind a dash of its own. -/
theorem blockItems_succ (acc : List Node) (r : Reader) (hacc : ∀ c ∈ acc, c.Numbered) :
    Gives (∀ c ∈ ·, c.Numbered) (Reader.blockItems acc (fuel + 1) r) := by
  rw [Reader.blockItems]
  refine gives_peek fun t => ?_
  split
  · refine gives_peek fun next => gives_ite ?_ ?_
    · exact ih.blockItems _ _ (List.forall_mem_cons.mpr ⟨Node.numbered_empty _, hacc⟩)
    · exact (ih.node _ _ _).bind fun item _ hitem =>
        ih.blockItems _ _ (List.forall_mem_cons.mpr ⟨hitem, hacc⟩)
  · exact gives_pure (by simpa using hacc) _
  · exact gives_none

/-- The same where the dashes stand at the indentation of the key. -/
theorem indentlessItems_succ (acc : List Node) (r : Reader) (hacc : ∀ c ∈ acc, c.Numbered) :
    Gives (∀ c ∈ ·, c.Numbered) (Reader.indentlessItems acc (fuel + 1) r) := by
  rw [Reader.indentlessItems]
  refine gives_peek fun t => gives_ite ?_ ?_
  · refine gives_peek fun next => gives_ite ?_ ?_
    · exact ih.indentlessItems _ _ (List.forall_mem_cons.mpr ⟨Node.numbered_empty _, hacc⟩)
    · exact (ih.node _ _ _).bind fun item _ hitem =>
        ih.indentlessItems _ _ (List.forall_mem_cons.mpr ⟨hitem, hacc⟩)
  · exact gives_pure (by simpa using hacc) _

/-- What stands behind a dash or a key, if anything does. -/
theorem blockPart_succ (t : Token) (r : Reader) :
    Gives Node.Numbered (Reader.blockPart t (fuel + 1) r) := by
  rw [Reader.blockPart]
  exact gives_peek fun next =>
    gives_ite (gives_pure (Node.numbered_empty _) _) (ih.node _ _ _)

/-- The entries of a block mapping. -/
theorem blockEntries_succ (acc : List Entry) (r : Reader) (hacc : ∀ e ∈ acc, e.Numbered) :
    Gives (∀ e ∈ ·, e.Numbered) (Reader.blockEntries acc (fuel + 1) r) := by
  rw [Reader.blockEntries]
  refine gives_peek fun t => ?_
  split
  · refine (ih.blockPart _ _).bind fun key r hkey => gives_peek fun t => ?_
    have hrest : ∀ value r, value.Numbered →
        Gives (∀ e ∈ ·, e.Numbered) (Reader.blockEntries (.mk key value :: acc) fuel r) :=
      fun _ _ hvalue => ih.blockEntries _ _ (List.forall_mem_cons.mpr ⟨⟨hkey, hvalue⟩, hacc⟩)
    exact gives_ite ((ih.blockPart _ _).bind hrest) (hrest _ _ (Node.numbered_empty _))
  · exact gives_pure (by simpa using hacc) _
  · exact gives_none

/-- A value in brackets, or an empty one before a comma. -/
theorem flowValue_succ (close : TokenKind) (r : Reader) :
    Gives Node.Numbered (Reader.flowValue close (fuel + 1) r) := by
  rw [Reader.flowValue]
  refine gives_peek fun t => gives_ite ?_ (gives_pure (Node.numbered_empty _) _)
  exact gives_peek fun next =>
    gives_ite (gives_pure (Node.numbered_empty _) _) (ih.node _ _ _)

/-- A single entry between brackets. -/
theorem flowPair_succ (r : Reader) : Gives Entry.Numbered (Reader.flowPair (fuel + 1) r) := by
  rw [Reader.flowPair]
  refine gives_peek fun t => ?_
  have hrest : ∀ key r, key.Numbered → Gives Entry.Numbered
      (Reader.flowValue .sequenceClose fuel r >>= fun p => pure (.mk key p.1, p.2)) :=
    fun _ _ hkey => (ih.flowValue _ _).bind fun _ _ hvalue => gives_pure ⟨hkey, hvalue⟩ _
  exact gives_ite (hrest _ _ (Node.numbered_empty _)) ((ih.node _ _ _).bind hrest)

/-- The items of a sequence in brackets. -/
theorem flowItems_succ (first : Bool) (acc : List Node) (r : Reader)
    (hacc : ∀ c ∈ acc, c.Numbered) :
    Gives (∀ c ∈ ·, c.Numbered) (Reader.flowItems first acc (fuel + 1) r) := by
  have hdone : ∀ r : Reader, Gives (∀ c ∈ ·, Node.Numbered c) (pure (acc.reverse, r)) :=
    gives_pure (by simpa using hacc)
  rw [Reader.flowItems]
  refine gives_peek fun t => gives_ite (hdone _) (gives_comma fun r => gives_peek fun t => ?_)
  split
  · exact hdone _
  · exact (ih.flowPair _).bind fun entry _ hentry => ih.flowItems _ _ _ (List.forall_mem_cons.mpr
      ⟨Node.numbered_mapping _ (List.forall_mem_singleton.mpr hentry), hacc⟩)
  · exact (ih.node _ _ _).bind fun item _ hitem =>
      ih.flowItems _ _ _ (List.forall_mem_cons.mpr ⟨hitem, hacc⟩)

/-- The entries of a mapping in braces. -/
theorem flowEntries_succ (first : Bool) (acc : List Entry) (r : Reader)
    (hacc : ∀ e ∈ acc, e.Numbered) :
    Gives (∀ e ∈ ·, e.Numbered) (Reader.flowEntries first acc (fuel + 1) r) := by
  have hdone : ∀ r : Reader, Gives (∀ e ∈ ·, Entry.Numbered e) (pure (acc.reverse, r)) :=
    gives_pure (by simpa using hacc)
  rw [Reader.flowEntries]
  refine gives_peek fun t => gives_ite (hdone _) (gives_comma fun r => gives_peek fun t => ?_)
  split
  · exact hdone _
  · have hrest : ∀ key r, key.Numbered → Gives (∀ e ∈ ·, e.Numbered)
        (Reader.flowValue .mappingClose fuel r >>= fun p =>
          Reader.flowEntries false (.mk key p.1 :: acc) fuel p.2) :=
      fun _ _ hkey => (ih.flowValue _ _).bind fun _ _ hvalue =>
        ih.flowEntries _ _ _ (List.forall_mem_cons.mpr ⟨⟨hkey, hvalue⟩, hacc⟩)
    exact gives_peek fun next =>
      gives_ite (hrest _ _ (Node.numbered_empty _)) ((ih.node _ _ _).bind hrest)
  · exact (ih.node _ _ _).bind fun key _ hkey => gives_peek fun next =>
      ih.flowEntries _ _ _ (List.forall_mem_cons.mpr ⟨⟨hkey, Node.numbered_empty _⟩, hacc⟩)

end Numbers

/-- **What is read has its lines, with whatever fuel.** -/
theorem numbers (fuel : Nat) : Numbers fuel := by
  induction fuel with
  | zero => exact numbers_zero
  | succ fuel ih =>
    exact
      { node := ih.node_succ
        blockItems := ih.blockItems_succ
        indentlessItems := ih.indentlessItems_succ
        blockEntries := ih.blockEntries_succ
        blockPart := ih.blockPart_succ
        flowItems := ih.flowItems_succ
        flowPair := ih.flowPair_succ
        flowValue := ih.flowValue_succ
        flowEntries := ih.flowEntries_succ }

end Reader

/-- Every node of a document has a line. -/
theorem firstDocument_numbered {ts : List Token} {root : Node}
    (h : firstDocument ts = some (some root)) : root.Numbered := by
  have hnode : ∀ {fuel : Nat} {r : Reader},
      (r.node true false fuel >>= fun p => p.2.peek >>= fun _ => pure (some p.1))
        = some (some root) → root.Numbered := by
    intro fuel r h
    obtain ⟨⟨n, r'⟩, hn, h⟩ := Option.bind_eq_some_iff.mp h
    obtain ⟨-, -, h⟩ := Option.bind_eq_some_iff.mp h
    cases h
    exact (Reader.numbers fuel).node _ _ _ _ _ hn
  obtain ⟨t, -, h⟩ := Option.bind_eq_some_iff.mp h
  split at h
  · cases h
  · obtain ⟨next, -, h⟩ := Option.bind_eq_some_iff.mp h
    split at h
    · cases h
      exact Node.numbered_empty _
    · exact hnode h
  · exact hnode h

/-- **Every node of a document is on a line.** -/
theorem readDocument_numbered {text : String} {root : Node}
    (h : readDocument text = some (some root)) : root.Numbered := by
  obtain ⟨gs, -, h⟩ := Option.bind_eq_some_iff.mp h
  exact firstDocument_numbered h

end Derw.Yaml
