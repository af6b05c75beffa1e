import PageContent.Proofs.OperatorTree.Links

/-! What the links of a table spell is what is read off it, and two tables that spell
outlines of one shape have the same links. -/
namespace PageContent

namespace Outline

mutual

def entriesOf : Outline → List (Nat × Instruction)
  | node id op children => (id, op) :: entries children

def entries : List Outline → List (Nat × Instruction)
  | [] => []
  | o :: rest => entriesOf o ++ entries rest

end

mutual

def mapIn (g : Nat → Nat) (f : Instruction → Instruction) : Outline → Outline
  | node id op children => node (g id) (f op) (map g f children)

def map (g : Nat → Nat) (f : Instruction → Instruction) : List Outline → List Outline
  | [] => []
  | o :: rest => mapIn g f o :: map g f rest

end

@[simp] theorem entriesAppend (as bs : List Outline) :
    entries (as ++ bs) = entries as ++ entries bs := by
  induction as with
  | nil => simp [entries]
  | cons o rest ih => simp [entries, ih]

@[simp] theorem mapAppend (g : Nat → Nat) (f : Instruction → Instruction) (as bs : List Outline) :
    map g f (as ++ bs) = map g f as ++ map g f bs := by
  induction as with
  | nil => simp [map]
  | cons o rest ih => simp [map, ih]

theorem idsEntries (os : List Outline) : ids os = (entries os).map Prod.fst := by
  induction os using forest with
  | nil => rfl
  | cons id op children rest below later => simp [ids, idsOf, entries, entriesOf, below, later]

theorem mapMap (g g' : Nat → Nat) (f f' : Instruction → Instruction) (os : List Outline) :
    map g' f' (map g f os) = map (g' ∘ g) (f' ∘ f) os := by
  induction os using forest with
  | nil => rfl
  | cons id op children rest below later => simp [map, mapIn, below, later]

end Outline

namespace OperatorTree
open Outline

theorem Linked.op {t : OperatorTree} {parent prev first last os}
    (h : Linked t parent prev first last os) :
    ∀ e ∈ entries os, t.op? e.1 = some e.2 := by
  induction h with
  | nil => simp [entries]
  | cons found before above below later ihBelow ihLater =>
    intro e member
    simp only [entries, entriesOf, List.mem_append, List.mem_cons] at member
    rcases member with (rfl | member) | member
    · simp [op?, found]
    · exact ihBelow e member
    · exact ihLater e member

theorem Spells.op {t : OperatorTree} {os} (h : Spells t os) {id : Nat} {op : Instruction}
    (there : (id, op) ∈ entries os) : t.op? id = some op :=
  h.linked.op _ there

theorem Spells.numbers {t : OperatorTree} {os} (h : Spells t os) :
    (ids os).Perm (List.range t.size) := by
  rw [List.perm_ext_iff_of_nodup h.once List.nodup_range]
  intro id
  rw [h.all, List.mem_range]

theorem Spells.count {t : OperatorTree} {os} (h : Spells t os) : (ids os).length = t.size := by
  simpa using h.numbers.length_eq

theorem Linked.outlineFrom {t : OperatorTree} {parent prev first last os}
    (h : Linked t parent prev first last os) {fuel : Nat} (enough : (ids os).length ≤ fuel) :
    t.outlineFrom fuel first = os := by
  induction h generalizing fuel with
  | nil => cases fuel <;> rfl
  | cons found before above below later ihBelow ihLater =>
    simp only [ids, idsOf, List.cons_append, List.length_cons, List.length_append] at enough
    cases fuel with
    | zero => omega
    | succ fuel =>
      simp only [OperatorTree.outlineFrom, found]
      rw [ihBelow (by omega), ihLater (by omega)]

theorem Spells.outline {t : OperatorTree} {os} (h : Spells t os) : t.outline = os :=
  h.linked.outlineFrom (Nat.le_of_eq h.count)

theorem Linked.modify {t : OperatorTree} {id : Nat} {f : Instruction → Instruction}
    {parent prev first last os} (h : Linked t parent prev first last os) :
    Linked (t.modify id f) parent prev first last (revise id f os) := by
  induction h with
  | nil => exact .nil
  | @cons parent prev last i n children rest found before above below later ihBelow ihLater =>
    simp only [revise, reviseIn]
    have found' : (t.modify id f).nodes[i]? =
        some (if i = id then { n with op := f n.op } else n) := by
      simp only [OperatorTree.modify, Array.getElem?_modify, found]
      by_cases same : id = i <;> simp [same, eq_comm]
    by_cases same : i = id
    · rw [if_pos same] at found' ⊢
      exact .cons (n := { n with op := f n.op }) found' before above ihBelow ihLater
    · rw [if_neg same] at found' ⊢
      exact .cons (n := n) found' before above ihBelow ihLater

theorem lengthRevise (id : Nat) (f : Instruction → Instruction) (os : List Outline) :
    (revise id f os).length = os.length := by
  induction os with
  | nil => rfl
  | cons o rest ih => simp [revise, ih]

theorem Spells.modify {t : OperatorTree} {os} (h : Spells t os) (id : Nat)
    (f : Instruction → Instruction) : Spells (t.modify id f) (revise id f os) where
  linked := h.linked.modify
  once := by rw [idsRevise]; exact h.once
  all := by simpa [OperatorTree.modify, size] using h.all
  length := by
    rw [lengthRevise]
    exact h.length

theorem Linked.sameLinks {t t' : OperatorTree} {f f' : Instruction → Instruction}
    {parent prev first last os first' last' os'}
    (h : Linked t parent prev first last os) (h' : Linked t' parent prev first' last' os')
    (shape : map id f os = map id f' os') :
    (first = first' ∧ last = last') ∧ ∀ i ∈ ids os, ∃ n n', t.nodes[i]? = some n ∧
      t'.nodes[i]? = some n' ∧ { n with op := f n.op } = { n' with op := f' n'.op } := by
  induction h generalizing first' last' os' with
  | nil =>
    cases h' with
    | nil => exact ⟨⟨rfl, rfl⟩, by simp [ids]⟩
    | cons => simp [map] at shape
  | @cons parent prev last i n children rest found before above below later ihBelow ihLater =>
    cases h' with
    | nil => simp [map] at shape
    | @cons _ _ _ i' n' children' rest' found' before' above' below' later' =>
      simp only [map, mapIn, List.cons.injEq, Outline.node.injEq, id_eq] at shape
      obtain ⟨⟨same, sameOp, sameBelow⟩, sameLater⟩ := shape
      subst same
      have b := ihBelow below' sameBelow
      have l := ihLater later' sameLater
      refine ⟨⟨rfl, l.1.2⟩, ?_⟩
      intro j member
      simp only [ids, idsOf, List.mem_append, List.mem_cons] at member
      rcases member with (rfl | member) | member
      · refine ⟨n, n', found, found', ?_⟩
        rw [OperatorNode.mk.injEq]
        exact ⟨sameOp, before.trans before'.symm, l.1.1, above.trans above'.symm, b.1.1, b.1.2⟩
      · exact b.2 j member
      · exact l.2 j member

def revised (f : Instruction → Instruction) (t : OperatorTree) : OperatorTree :=
  { t with nodes := t.nodes.map fun n => { n with op := f n.op } }

theorem mapLength (g : Nat → Nat) (f : Instruction → Instruction) (os : List Outline) :
    (map g f os).length = os.length := by
  induction os with
  | nil => rfl
  | cons o rest ih => simp [map, ih]

theorem idsMap (f : Instruction → Instruction) (os : List Outline) :
    ids (map id f os) = ids os := by
  induction os using forest with
  | nil => rfl
  | cons id op children rest below later => simp [map, mapIn, ids, idsOf, below, later]

theorem Spells.same {t t' : OperatorTree} {f f' : Instruction → Instruction} {os os'}
    (h : t.Spells os) (h' : t'.Spells os') (shape : map id f os = map id f' os') :
    t.revised f = t'.revised f' := by
  obtain ⟨⟨head, tail⟩, each⟩ := h.linked.sameLinks h'.linked shape
  have length : t.length = t'.length := by
    rw [h.length, h'.length, ← mapLength id f os, shape, mapLength]
  have nodes : (t.revised f).nodes = (t'.revised f').nodes := by
    refine Array.ext_getElem? fun i => ?_
    simp only [revised, Array.getElem?_map]
    by_cases there : i ∈ ids os
    · obtain ⟨n, n', found, found', same⟩ := each i there
      rw [found, found', Option.map_some, Option.map_some, same]
    · have there' : i ∉ ids os' := by
        rw [← idsMap f', ← shape, idsMap]
        exact there
      rw [h.all, Nat.not_lt] at there
      rw [h'.all, Nat.not_lt] at there'
      rw [Array.getElem?_eq_none there, Array.getElem?_eq_none there']
      rfl
  simp only [revised] at nodes ⊢
  rw [nodes, head, tail, length]

end OperatorTree

end PageContent
