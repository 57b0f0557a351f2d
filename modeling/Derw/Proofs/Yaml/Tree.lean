import Derw.Yaml.Typed

/-!
# Proofs/Yaml/Tree — the nodes of an indented document

Tokens in block style make up nodes: a scalar by itself, a sequence of entries and a mapping of keys
and values, each up to the end of its block. `Reads` says which node some tokens are read as, with
the fuel that they need, which is twice their number.
-/

namespace Derw.Yaml

/-- The tokens that nodes start with here. -/
def TokenKind.startsNode : TokenKind → Bool
  | .scalar .. | .sequenceOpen | .blockSequence | .blockMapping => true
  | _ => false

/-- A token that starts a node is of no kind that does not. -/
theorem TokenKind.beq_of_startsNode {k k' : TokenKind} (h : k.startsNode)
    (h' : k'.startsNode = false) : (k == k') = false := by
  rw [beq_eq_false_iff_ne]
  rintro rfl
  rw [h] at h'
  cases h'

namespace Reader

theorem exists_succ {k fuel : Nat} (h : k + 1 ≤ fuel) : ∃ n, fuel = n + 1 :=
  ⟨fuel - 1, by omega⟩

/-- The tokens are read as the node, whatever comes after them. -/
structure Reads (ts : List Token) (n : Node) : Prop where
  starts : ∃ t us, ts = t :: us ∧ t.kind.startsNode
  node_eq : ∀ indentless fuel rest anchors, 2 * ts.length ≤ fuel →
    node true indentless fuel ⟨ts ++ rest, anchors⟩ = some (n, ⟨rest, anchors⟩)

/-- A scalar is one token. -/
theorem reads_scalar (l : Nat) (style : Style) (text : String) :
    Reads [⟨l, .scalar style text⟩] (.scalar (l + 1) style none text) where
  starts := ⟨_, _, rfl, rfl⟩
  node_eq indentless fuel rest anchors hfuel := by
    obtain ⟨fuel, rfl⟩ := exists_succ hfuel
    rw [node]
    rfl

/-- The empty sequence is a pair of brackets. -/
theorem reads_emptySequence (l l' : Nat) :
    Reads [⟨l, .sequenceOpen⟩, ⟨l', .sequenceClose⟩] (.sequence (l + 1) []) where
  starts := ⟨_, _, rfl, rfl⟩
  node_eq indentless fuel rest anchors hfuel := by
    obtain ⟨fuel, rfl⟩ : ∃ n, fuel = n + 1 + 1 := ⟨fuel - 2, by simp at hfuel; omega⟩
    rw [node]
    simp [peek, properties, openAnchor, settle, advance, flowItems]

/-- Entries up to the end of their block, read as the items of a sequence. -/
inductive ReadsItems : List Token → List Node → Prop
  | done (l : Nat) : ReadsItems [⟨l, .blockEnd⟩] []
  | entry (l : Nat) {ts us : List Token} {n : Node} {ns : List Node} (h : Reads ts n)
    (hs : ReadsItems us ns) : ReadsItems (⟨l, .entry⟩ :: (ts ++ us)) (n :: ns)

/-- Entry by entry, behind those read before. -/
theorem ReadsItems.blockItems_eq {ts : List Token} {ns : List Node} (h : ReadsItems ts ns)
    (acc : List Node) (fuel : Nat) (hfuel : 2 * ts.length ≤ fuel) (rest : List Token)
    (anchors : List (String × Option Node)) :
    blockItems acc fuel ⟨ts ++ rest, anchors⟩ = some (acc.reverse ++ ns, ⟨rest, anchors⟩) := by
  induction h generalizing acc fuel with
  | done l =>
    obtain ⟨fuel, rfl⟩ := exists_succ hfuel
    rw [blockItems, List.append_nil]
    rfl
  | @entry l ts us n ns h _ ih =>
    simp only [List.length_cons, List.length_append] at hfuel
    obtain ⟨fuel, rfl⟩ := exists_succ (show 1 + 1 ≤ fuel by omega)
    have hnode := h.node_eq false fuel (us ++ rest) anchors (by omega)
    have hitems := ih (n :: acc) fuel (by omega)
    obtain ⟨t, ts, rfl, hstarts⟩ := h.starts
    have hentry : (t.kind == .entry || t.kind == .blockEnd) = false := by
      rw [TokenKind.beq_of_startsNode hstarts rfl, TokenKind.beq_of_startsNode hstarts rfl]
      rfl
    rw [blockItems]
    simp only [peek, advance, List.cons_append, List.head?_cons, List.tail_cons,
      Option.bind_eq_bind, Option.bind_some, hentry, List.append_assoc] at hnode ⊢
    rw [if_neg Bool.false_ne_true, hnode, Option.bind_some, hitems, List.reverse_cons,
      List.append_assoc, List.singleton_append]

/-- Items behind their opening token are a sequence. -/
theorem ReadsItems.reads {ts : List Token} {ns : List Node} (h : ReadsItems ts ns) (l : Nat) :
    Reads (⟨l, .blockSequence⟩ :: ts) (.sequence (l + 1) ns) where
  starts := ⟨_, _, rfl, rfl⟩
  node_eq indentless fuel rest anchors hfuel := by
    obtain ⟨fuel, rfl⟩ := exists_succ hfuel
    have hitems := h.blockItems_eq [] fuel (by simp at hfuel; omega) rest anchors
    rw [node]
    simp [peek, properties, openAnchor, settle, advance, hitems]

/-- Keys and values up to the end of their block, read as the entries of a mapping. -/
inductive ReadsEntries : List Token → List Entry → Prop
  | done (l : Nat) : ReadsEntries [⟨l, .blockEnd⟩] []
  | pair (l l' : Nat) {ks vs us : List Token} {k v : Node} {es : List Entry} (hkey : Reads ks k)
    (hvalue : Reads vs v) (hs : ReadsEntries us es) :
    ReadsEntries (⟨l, .key⟩ :: (ks ++ ⟨l', .value⟩ :: (vs ++ us))) (.mk k v :: es)

/-- A node behind an entry or a key is what that entry or key holds. -/
theorem Reads.blockPart_eq {ts : List Token} {n : Node} (h : Reads ts n) (t : Token) (fuel : Nat)
    (hfuel : 2 * ts.length + 1 ≤ fuel) (rest : List Token)
    (anchors : List (String × Option Node)) :
    blockPart t fuel ⟨ts ++ rest, anchors⟩ = some (n, ⟨rest, anchors⟩) := by
  obtain ⟨fuel, rfl⟩ := exists_succ hfuel
  have hnode := h.node_eq true fuel rest anchors (by omega)
  obtain ⟨t', ts, rfl, hstarts⟩ := h.starts
  have hpart : (t'.kind == .key || t'.kind == .value || t'.kind == .blockEnd) = false := by
    rw [TokenKind.beq_of_startsNode hstarts rfl, TokenKind.beq_of_startsNode hstarts rfl,
      TokenKind.beq_of_startsNode hstarts rfl]
    rfl
  rw [blockPart]
  simp only [peek, List.cons_append, List.head?_cons, Option.bind_eq_bind, Option.bind_some, hpart]
    at hnode ⊢
  rw [if_neg Bool.false_ne_true, hnode]

/-- Key by key, behind those read before. -/
theorem ReadsEntries.blockEntries_eq {ts : List Token} {es : List Entry} (h : ReadsEntries ts es)
    (acc : List Entry) (fuel : Nat) (hfuel : 2 * ts.length ≤ fuel) (rest : List Token)
    (anchors : List (String × Option Node)) :
    blockEntries acc fuel ⟨ts ++ rest, anchors⟩ = some (acc.reverse ++ es, ⟨rest, anchors⟩) := by
  induction h generalizing acc fuel with
  | done l =>
    obtain ⟨fuel, rfl⟩ := exists_succ hfuel
    rw [blockEntries, List.append_nil]
    rfl
  | @pair l l' ks vs us k v es hkey hvalue _ ih =>
    simp only [List.length_cons, List.length_append] at hfuel
    obtain ⟨fuel, rfl⟩ := exists_succ (show 1 + 1 ≤ fuel by omega)
    have hk := hkey.blockPart_eq ⟨l, .key⟩ fuel (by omega)
      (⟨l', .value⟩ :: (vs ++ (us ++ rest))) anchors
    have hv := hvalue.blockPart_eq ⟨l', .value⟩ fuel (by omega) (us ++ rest) anchors
    have hentries := ih (.mk k v :: acc) fuel (by omega)
    rw [blockEntries]
    simp only [peek, advance, List.cons_append, List.head?_cons, List.tail_cons,
      Option.bind_eq_bind, Option.bind_some, List.append_assoc, hk]
    rw [if_pos (beq_self_eq_true _), hv, Option.bind_some, hentries, List.reverse_cons,
      List.append_assoc, List.singleton_append]

/-- Entries behind their opening token are a mapping. -/
theorem ReadsEntries.reads {ts : List Token} {es : List Entry} (h : ReadsEntries ts es) (l : Nat) :
    Reads (⟨l, .blockMapping⟩ :: ts) (.mapping (l + 1) es) where
  starts := ⟨_, _, rfl, rfl⟩
  node_eq indentless fuel rest anchors hfuel := by
    obtain ⟨fuel, rfl⟩ := exists_succ hfuel
    have hentries := h.blockEntries_eq [] fuel (by simp at hfuel; omega) rest anchors
    rw [node]
    simp [peek, properties, openAnchor, settle, advance, hentries]

/-- **Tokens that are read as a node are a document.** -/
theorem Reads.firstDocument_eq {ts : List Token} {n : Node} (h : Reads ts n) (t : Token) :
    firstDocument (ts ++ [t]) = some (some n) := by
  have hnode := h.node_eq false (2 * (ts ++ [t]).length + 4) [t] [] (by simp; omega)
  obtain ⟨⟨l, kind⟩, ts, rfl, hstarts⟩ := h.starts
  rw [firstDocument]
  cases kind with
  | scalar | sequenceOpen | blockSequence | blockMapping =>
    simp only [List.cons_append] at hnode
    simp only [peek, List.cons_append, List.head?_cons, Option.bind_eq_bind, Option.bind_some,
      hnode]
    rfl
  | _ => exact absurd hstarts Bool.false_ne_true

end Reader

/-! ## Reading values -/

namespace Node

/-- A scalar of that text is a text. -/
theorem text?_scalar {style : Style} {s : String} (l : Nat)
    (h : style = .bare → meaning true s = .text) :
    (scalar l style none s).text? = some (some s) := by
  have hvalue : scalarValue style none s = some .text := by
    rw [scalarValue]
    split
    next hbare => rw [h (eq_of_beq hbare)]
    next => rfl
  simp only [text?, scalarOf?, resolved, Option.bind_eq_bind, Option.bind_some, hvalue]
  rfl

/-- The items of a sequence, if each of them says something. -/
theorem list?_sequence {α : Type} {item : Node → Option (Option α)} {ns : List Node} {xs : List α}
    (l : Nat) (h : ns.mapM item = some (xs.map some)) :
    (sequence l ns).list? item = some (some xs) := by
  simp [list?, resolved, h, List.filterMap_map]

end Node

end Derw.Yaml
