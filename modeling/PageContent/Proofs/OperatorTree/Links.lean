import PageContent.OperatorTree.Outline

/-! A table of operators and the outline that its links spell. Adding an operator
adds one leaf to the outline; changing an operator in place changes no link. -/
namespace PageContent

namespace Outline

theorem forest {motive : List Outline → Prop} (nil : motive [])
    (cons : ∀ id op children rest, motive children → motive rest →
      motive (.node id op children :: rest)) : ∀ os, motive os
  | [] => nil
  | .node id op children :: rest =>
    cons id op children rest (forest nil cons children) (forest nil cons rest)

mutual

def idsOf : Outline → List Nat
  | node id _ children => id :: ids children

def ids : List Outline → List Nat
  | [] => []
  | o :: rest => idsOf o ++ ids rest

end

mutual

def graftIn (p : Nat) (leaf : Outline) : Outline → Outline
  | node id op children =>
    node id op (if id = p then children ++ [leaf] else graft p leaf children)

def graft (p : Nat) (leaf : Outline) : List Outline → List Outline
  | [] => []
  | o :: rest => graftIn p leaf o :: graft p leaf rest

end

def attach (parent : Option Nat) (leaf : Outline) (os : List Outline) : List Outline :=
  match parent with
  | some p => graft p leaf os
  | none => os ++ [leaf]

mutual

def reviseIn (id : Nat) (f : Instruction → Instruction) : Outline → Outline
  | node i op children => node i (if i = id then f op else op) (revise id f children)

def revise (id : Nat) (f : Instruction → Instruction) : List Outline → List Outline
  | [] => []
  | o :: rest => reviseIn id f o :: revise id f rest

end

@[simp] theorem idsAppend (as bs : List Outline) : ids (as ++ bs) = ids as ++ ids bs := by
  induction as with
  | nil => simp [ids]
  | cons o rest ih => simp [ids, ih]

@[simp] theorem graftAppend (p : Nat) (leaf : Outline) (as bs : List Outline) :
    graft p leaf (as ++ bs) = graft p leaf as ++ graft p leaf bs := by
  induction as with
  | nil => simp [graft]
  | cons o rest ih => simp [graft, ih]

@[simp] theorem reviseAppend (id : Nat) (f : Instruction → Instruction) (as bs : List Outline) :
    revise id f (as ++ bs) = revise id f as ++ revise id f bs := by
  induction as with
  | nil => simp [revise]
  | cons o rest ih => simp [revise, ih]

theorem graftElsewhere {p : Nat} {leaf : Outline} {os : List Outline} (h : p ∉ ids os) :
    graft p leaf os = os := by
  induction os using forest with
  | nil => rfl
  | cons id op children rest below later =>
    simp only [ids, idsOf, List.mem_append, List.mem_cons, not_or] at h
    simp [graft, graftIn, Ne.symm h.1.1, below h.1.2, later h.2]

theorem reviseElsewhere {id : Nat} {f : Instruction → Instruction} {os : List Outline}
    (h : id ∉ ids os) : revise id f os = os := by
  induction os using forest with
  | nil => rfl
  | cons i op children rest below later =>
    simp only [ids, idsOf, List.mem_append, List.mem_cons, not_or] at h
    simp [revise, reviseIn, Ne.symm h.1.1, below h.1.2, later h.2]

@[simp] theorem idsRevise (id : Nat) (f : Instruction → Instruction) (os : List Outline) :
    ids (revise id f os) = ids os := by
  induction os using forest with
  | nil => rfl
  | cons i op children rest below later => simp [revise, reviseIn, ids, idsOf, below, later]

theorem idsGraft {p : Nat} {leaf : Outline} {os : List Outline} (once : (ids os).Nodup)
    (h : p ∈ ids os) : (ids (graft p leaf os)).Perm (idsOf leaf ++ ids os) := by
  induction os using forest with
  | nil => simp [ids] at h
  | cons id op children rest below later =>
    simp only [ids, idsOf, List.cons_append, List.nodup_cons, List.mem_append, not_or,
      List.nodup_append] at once
    obtain ⟨fresh, onceBelow, onceLater, apart⟩ := once
    simp only [ids, idsOf, List.mem_append, List.mem_cons] at h
    simp only [graft, graftIn, ids, idsOf]
    rcases h with (same | inside) | after
    · subst same
      rw [graftElsewhere fresh.2]
      simp only [if_pos, idsAppend, ids, List.append_nil]
      grind
    · have other : id ≠ p := fun same => fresh.1 (same ▸ inside)
      have absent : p ∉ ids rest := fun later => apart p inside p later rfl
      rw [if_neg other, graftElsewhere absent]
      have ih := below onceBelow inside
      grind
    · have other : id ≠ p := fun same => fresh.2 (same ▸ after)
      have absent : p ∉ ids children := fun below => apart p below p after rfl
      rw [if_neg other, graftElsewhere absent]
      have ih := later onceLater after
      grind

end Outline

namespace OperatorTree
open Outline

inductive Linked (t : OperatorTree) :
    (parent prev first last : Option Nat) → List Outline → Prop where
  | nil {parent prev} : Linked t parent prev none prev []
  | cons {parent prev last id n children rest}
      (found : t.nodes[id]? = some n) (before : n.prev = prev) (above : n.parent = parent)
      (below : Linked t (some id) none n.firstChild n.lastChild children)
      (later : Linked t parent (some id) n.next last rest) :
      Linked t parent prev (some id) last (.node id n.op children :: rest)

structure Spells (t : OperatorTree) (os : List Outline) : Prop where
  linked : Linked t none none t.head t.tail os
  once : (ids os).Nodup
  all : ∀ id, id ∈ ids os ↔ id < t.size
  length : t.length = os.length

theorem spellsEmpty : Spells empty [] where
  linked := .nil
  once := by simp [ids]
  all := by simp [ids, size, empty]
  length := rfl

theorem Linked.bounded {t parent prev first last os} (h : Linked t parent prev first last os) :
    ∀ id ∈ ids os, id < t.size := by
  induction h with
  | nil => simp [ids]
  | cons found before above below later ihBelow ihLater =>
    intro i member
    simp only [ids, idsOf, List.mem_append, List.mem_cons] at member
    rcases member with (rfl | member) | member
    · exact (Array.getElem?_eq_some_iff.mp found).1
    · exact ihBelow i member
    · exact ihLater i member

theorem Linked.lastOf {t parent prev first last os} (h : Linked t parent prev first last os) :
    (os = [] ∧ first = none ∧ last = prev) ∨
    ∃ q n, first ≠ none ∧ last = some q ∧ q ∈ ids os ∧ t.nodes[q]? = some n ∧
      n.parent = parent := by
  induction h with
  | nil => exact .inl ⟨rfl, rfl, rfl⟩
  | @cons parent prev last id n children rest found before above below later _ ihLater =>
    right
    rcases ihLater with ⟨empty, _, same⟩ | ⟨q, m, _, same, member, found', above'⟩
    · exact ⟨id, n, by simp, same, by simp [ids, idsOf], found, above⟩
    · exact ⟨q, m, by simp, same, by simp [ids, member], found', above'⟩

theorem Linked.frame {t t' : OperatorTree} {parent prev first last os}
    (h : Linked t parent prev first last os)
    (same : ∀ id ∈ ids os, t'.nodes[id]? = t.nodes[id]?) :
    Linked t' parent prev first last os := by
  induction h with
  | nil => exact .nil
  | cons found before above below later ihBelow ihLater =>
    refine .cons ((same _ (by simp [ids, idsOf])).trans found) before above (ihBelow ?_) (ihLater ?_)
    · intro i member
      exact same i (by simp [ids, idsOf, member])
    · intro i member
      exact same i (by simp [ids, member])

def lastUnder (t : OperatorTree) (parent : Option Nat) : Option Nat :=
  match parent with
  | some p => t.nodes[p]?.bind OperatorNode.lastChild
  | none => t.tail

def joined (t : OperatorTree) (parent : Option Nat) (id : Nat) (n : OperatorNode) : OperatorNode :=
  { n with
    next := if t.lastUnder parent = some id then some t.size else n.next
    firstChild := if parent = some id then n.firstChild.or (some t.size) else n.firstChild
    lastChild := if parent = some id then some t.size else n.lastChild }

@[simp] theorem sizePush (t : OperatorTree) (op : Instruction) (parent : Option Nat) :
    (t.push op parent).size = t.size + 1 := by
  unfold push size
  cases parent with
  | none => cases t.tail <;> simp
  | some p => dsimp only; split <;> simp

theorem pushOld {t : OperatorTree} {id : Nat} (op : Instruction) (parent : Option Nat)
    (old : id < t.size) :
    (t.push op parent).nodes[id]? = t.nodes[id]?.map (t.joined parent id) := by
  have found : t.nodes[id]? = some t.nodes[id] := Array.getElem?_eq_getElem old
  have stays : ∀ n, (t.nodes.push n)[id]? = t.nodes[id]? := by
    intro n
    exact Array.getElem?_push.trans (if_neg (Nat.ne_of_lt old))
  unfold push joined lastUnder
  cases parent with
  | none =>
    cases htail : t.tail with
    | none => simp [stays, found]
    | some q => by_cases hq : q = id <;> simp [Array.getElem?_modify, stays, found, hq]
  | some p =>
    by_cases hp : p = id <;> cases hlast : t.nodes[p]?.bind OperatorNode.lastChild with
    | none =>
      simp only [hlast]
      simp [Array.getElem?_modify, stays, found, hp]
    | some q =>
      simp only [hlast]
      by_cases hq : q = id <;> simp [Array.getElem?_modify, stays, found, hp, hq]

theorem pushNew {t : OperatorTree} (op : Instruction) {parent : Option Nat}
    (above : parent ≠ some t.size) (after : t.lastUnder parent ≠ some t.size) :
    (t.push op parent).nodes[t.size]? =
      some ⟨op, t.lastUnder parent, none, parent, none, none⟩ := by
  have fresh : ∀ n, (t.nodes.push n)[t.nodes.size]? = some n := by simp
  unfold push lastUnder size at *
  cases parent with
  | none =>
    cases htail : t.tail with
    | none => simp only [fresh]
    | some q =>
      have other : q ≠ t.nodes.size := by simpa [htail] using after
      simp only [Array.getElem?_modify, if_neg other, fresh]
  | some p =>
    have otherParent : p ≠ t.nodes.size := by simpa using above
    cases hlast : t.nodes[p]?.bind OperatorNode.lastChild with
    | none => simp only [hlast, Array.getElem?_modify, if_neg otherParent, fresh]
    | some q =>
      have other : q ≠ t.nodes.size := by simpa [hlast] using after
      simp only [hlast, Array.getElem?_modify, if_neg otherParent, if_neg other, fresh]

theorem joinedElsewhere {t : OperatorTree} {parent : Option Nat} {id : Nat} (n : OperatorNode)
    (above : parent ≠ some id) (after : t.lastUnder parent ≠ some id) :
    t.joined parent id n = n := by
  simp [joined, above, after]

theorem Linked.pushElsewhere {t : OperatorTree} {op : Instruction} {parent above prev first last os}
    (h : Linked t above prev first last os)
    (apart : ∀ id ∈ ids os, parent ≠ some id ∧ t.lastUnder parent ≠ some id) :
    Linked (t.push op parent) above prev first last os := by
  apply h.frame
  intro id member
  have same : t.joined parent id = fun n => n :=
    funext fun n => joinedElsewhere n (apart id member).1 (apart id member).2
  rw [pushOld op parent (h.bounded id member), same, Option.map_id']

theorem Linked.extend {t : OperatorTree} (op : Instruction) {parent prev first last os}
    (h : Linked t parent prev first last os) (end' : t.lastUnder parent = last)
    (once : (ids os).Nodup) (outside : ∀ id ∈ ids os, parent ≠ some id)
    (above : parent ≠ some t.size) (after : t.lastUnder parent ≠ some t.size) :
    Linked (t.push op parent) parent prev (first.or (some t.size)) (some t.size)
      (os ++ [.node t.size op []]) := by
  induction h with
  | nil =>
    have found := pushNew op above after
    exact .cons found end' rfl .nil .nil
  | @cons parent prev last id n children rest found before above' below later _ ih =>
    simp only [ids, idsOf, List.cons_append, List.nodup_cons, List.mem_append, not_or,
      List.nodup_append] at once
    obtain ⟨fresh, onceBelow, onceLater, apart⟩ := once
    have bound : id < t.size := (Array.getElem?_eq_some_iff.mp found).1
    have outsideId : parent ≠ some id := outside id (by simp [ids, idsOf])
    have outsideBelow : ∀ i ∈ ids children, parent ≠ some i :=
      fun i member => outside i (by simp [ids, idsOf, member])
    have outsideLater : ∀ i ∈ ids rest, parent ≠ some i :=
      fun i member => outside i (by simp [ids, member])
    have found' : (t.push op parent).nodes[id]? = some (t.joined parent id n) := by
      rw [pushOld op parent bound, found, Option.map_some]
    have longer := ih end' onceLater outsideLater above after
    -- The chain goes on at the new operator if `id` was the last one, else where it did.
    have goesOn : (t.joined parent id n).next = n.next.or (some t.size) ∧
        ∀ i ∈ ids children, t.lastUnder parent ≠ some i := by
      rcases later.lastOf with ⟨_, stop, same⟩ | ⟨q, m, goes, same, member, _, _⟩
      · refine ⟨by simp [joined, end', same, stop], ?_⟩
        intro i inside equal
        have : i = id := Option.some.inj (equal.symm.trans (end'.trans same))
        exact fresh.1 (this ▸ inside)
      · have other : q ≠ id := fun equal => fresh.2 (equal ▸ member)
        refine ⟨?_, ?_⟩
        · obtain ⟨next, hn⟩ := Option.ne_none_iff_exists'.mp goes
          simp [joined, end', same, other, hn]
        · intro i inside equal
          have : i = q := Option.some.inj (equal.symm.trans (end'.trans same))
          exact apart i inside q member this
    refine .cons (n := t.joined parent id n) found' before above' ?_ ?_
    · have same : (t.joined parent id n).firstChild = n.firstChild ∧
          (t.joined parent id n).lastChild = n.lastChild := by simp [joined, outsideId]
      rw [same.1, same.2]
      exact below.pushElsewhere fun i inside => ⟨outsideBelow i inside, goesOn.2 i inside⟩
    · rw [goesOn.1]
      exact longer

theorem Linked.graft {t : OperatorTree} (op : Instruction) {p : Nat} {parent prev first last os}
    (h : Linked t parent prev first last os) (once : (ids os).Nodup)
    (outside : parent ≠ some p) (valid : p < t.size)
    (owned : ∀ q m, t.lastUnder (some p) = some q → t.nodes[q]? = some m → m.parent = some p)
    (after : t.lastUnder (some p) ≠ some t.size) :
    Linked (t.push op (some p)) parent prev first last (graft p (.node t.size op []) os) := by
  induction h with
  | nil => exact .nil
  | @cons parent prev last id n children rest found before above below later ihBelow ihLater =>
    simp only [ids, idsOf, List.cons_append, List.nodup_cons, List.mem_append, not_or,
      List.nodup_append] at once
    obtain ⟨fresh, onceBelow, onceLater, -⟩ := once
    have bound : id < t.size := (Array.getElem?_eq_some_iff.mp found).1
    have notLast : t.lastUnder (some p) ≠ some id := by
      intro equal
      exact outside (above.symm.trans (owned id n equal found))
    have found' : (t.push op (some p)).nodes[id]? = some (t.joined (some p) id n) := by
      rw [pushOld op (some p) bound, found, Option.map_some]
    have goesOn : (t.joined (some p) id n).next = n.next := by simp [joined, notLast]
    simp only [Outline.graft, graftIn]
    refine .cons (n := t.joined (some p) id n) found' before above ?_ ?_
    · by_cases same : id = p
      · subst same
        have ends : t.lastUnder (some id) = n.lastChild := by simp [lastUnder, found]
        have longer := below.extend op ends onceBelow
          (fun i inside equal => fresh.1 (Option.some.inj equal ▸ inside))
          (fun equal => Nat.ne_of_lt bound (Option.some.inj equal)) after
        simpa [joined] using longer
      · have other : some id ≠ some p := fun equal => same (Option.some.inj equal)
        have inside := ihBelow onceBelow other
        rw [joinedElsewhere n other.symm notLast, if_neg same]
        exact inside
    · rw [goesOn]
      exact ihLater onceLater outside

theorem Linked.owned {t : OperatorTree} {p : Nat} {parent prev first last os}
    (h : Linked t parent prev first last os) (there : p ∈ ids os) {q : Nat}
    (ends : t.lastUnder (some p) = some q) :
    q ∈ ids os ∧ ∃ m, t.nodes[q]? = some m ∧ m.parent = some p := by
  induction h with
  | nil => simp [ids] at there
  | @cons parent prev last id n children rest found before above below later ihBelow ihLater =>
    simp only [ids, idsOf, List.mem_append, List.mem_cons] at there ⊢
    rcases there with (rfl | inside) | after
    · have ends' : n.lastChild = some q := by simpa [lastUnder, found] using ends
      rcases below.lastOf with ⟨_, _, same⟩ | ⟨q', m, _, same, member, found', above'⟩
      · rw [ends'] at same
        contradiction
      · cases Option.some.inj (ends'.symm.trans same)
        exact ⟨.inl (.inr member), m, found', above'⟩
    · have ih := ihBelow inside
      exact ⟨.inl (.inr ih.1), ih.2⟩
    · have ih := ihLater after
      exact ⟨.inr ih.1, ih.2⟩

theorem lengthGraft (p : Nat) (leaf : Outline) (os : List Outline) :
    (Outline.graft p leaf os).length = os.length := by
  induction os with
  | nil => rfl
  | cons o rest ih => simp [Outline.graft, ih]

theorem Spells.push {t : OperatorTree} {os} (h : Spells t os) (op : Instruction)
    {parent : Option Nat} (valid : ∀ p, parent = some p → p < t.size) :
    Spells (t.push op parent) (attach parent (.node t.size op []) os) := by
  have beyond : t.size ∉ ids os := fun member => Nat.lt_irrefl _ ((h.all _).mp member)
  cases parent with
  | none =>
    have after : t.lastUnder none ≠ some t.size := by
      rcases h.linked.lastOf with ⟨_, _, same⟩ | ⟨q, _, _, same, member, _, _⟩
      · simp [lastUnder, same]
      · intro equal
        cases Option.some.inj (same.symm.trans equal)
        exact beyond member
    refine ⟨?_, ?_, ?_, ?_⟩
    · have longer := h.linked.extend op rfl h.once (by simp) (by simp) after
      simpa [OperatorTree.push, attach, size] using longer
    · simp only [attach, idsAppend, ids, idsOf, List.append_nil, List.nodup_append]
      refine ⟨h.once, by simp, ?_⟩
      intro i member j new equal
      rw [List.mem_singleton.mp new] at equal
      exact beyond (equal ▸ member)
    · intro id
      simp only [attach, idsAppend, ids, idsOf, List.append_nil, List.mem_append, h.all, sizePush,
        List.mem_singleton]
      omega
    · simp [attach, OperatorTree.push, h.length]
  | some p =>
    have bound := valid p rfl
    have there : p ∈ ids os := (h.all p).mpr bound
    have after : t.lastUnder (some p) ≠ some t.size := by
      intro equal
      exact beyond (h.linked.owned there equal).1
    have perm := @idsGraft p (.node t.size op []) os h.once there
    simp only [idsOf, ids, List.cons_append, List.nil_append] at perm
    refine ⟨?_, ?_, ?_, ?_⟩
    · refine h.linked.graft op h.once (by simp) bound ?_ after
      intro q m ends found
      obtain ⟨_, m', found', above⟩ := h.linked.owned there ends
      cases Option.some.inj (found.symm.trans found')
      exact above
    · exact perm.nodup_iff.mpr (List.nodup_cons.mpr ⟨beyond, h.once⟩)
    · intro id
      rw [attach, perm.mem_iff, List.mem_cons, h.all, sizePush]
      omega
    · rw [attach, lengthGraft, ← h.length]
      simp [OperatorTree.push]

end OperatorTree

end PageContent
