import Mathlib.Data.List.Induction
import PageContent.Proofs.OperatorTree.Visited

/-! The links of a table of operators, told by the operators that were added and the parents
they were given, whatever the order. -/
namespace PageContent.OperatorTree

structure Addition where
  op : Instruction
  parent : Option Nat

def ofAdditions (as : List Addition) : OperatorTree :=
  as.foldl (fun t a => t.push a.op a.parent) empty

def Grounded (as : List Addition) : Prop :=
  ∀ (id : Nat) (a : Addition) (p : Nat), as[id]? = some a → a.parent = some p → p < id

instance (as : List Addition) : Decidable (Grounded as) :=
  decidable_of_iff (∀ id < as.length, ∀ p ∈ as[id]?.bind Addition.parent, p < id) <| by
    constructor
    · intro each id a p there above
      exact each id (List.getElem?_eq_some_iff.mp there).1 p (by rw [there]; exact above)
    · intro grounded id _ p above
      obtain ⟨a, there, under⟩ := Option.bind_eq_some_iff.mp above
      exact grounded id a p there under

def under (as : List Addition) (parent : Option Nat) : List Nat :=
  (List.range as.length).filter fun id => as[id]?.map Addition.parent = some parent

def expected (as : List Addition) (id : Nat) (a : Addition) : OperatorNode where
  op := a.op
  prev := ((under as a.parent).filter (· < id)).getLast?
  next := ((under as a.parent).filter (id < ·)).head?
  parent := a.parent
  firstChild := (under as (some id)).head?
  lastChild := (under as (some id)).getLast?

variable {t : OperatorTree} {as : List Addition} {a b : Addition} {parent : Option Nat} {id : Nat}

theorem memberUnder : id ∈ under as parent ↔ as[id]?.map Addition.parent = some parent := by
  simp only [under, List.mem_filter, List.mem_range, decide_eq_true_eq, and_iff_right_iff_imp]
  intro found
  obtain ⟨a, there, -⟩ := Option.map_eq_some_iff.mp found
  exact (List.getElem?_eq_some_iff.mp there).1

theorem underBounded (member : id ∈ under as parent) : id < as.length := by
  obtain ⟨a, there, -⟩ := Option.map_eq_some_iff.mp (memberUnder.mp member)
  exact (List.getElem?_eq_some_iff.mp there).1

theorem underOrdered (as : List Addition) (parent : Option Nat) :
    (under as parent).Pairwise (· < ·) :=
  List.pairwise_lt_range.filter _

theorem underPush (as : List Addition) (a : Addition) (parent : Option Nat) :
    under (as ++ [a]) parent =
      under as parent ++ if a.parent = parent then [as.length] else [] := by
  have old : (List.range as.length).filter
      (fun id => (as ++ [a])[id]?.map Addition.parent = some parent) = under as parent := by
    refine List.filter_congr fun id member => ?_
    rw [List.getElem?_append_left (List.mem_range.mp member)]
  rw [under, List.length_append, List.length_singleton, List.range_succ, List.filter_append, old]
  by_cases same : a.parent = parent <;> simp [same]

theorem besideOrdered {front back : List Nat} (h : (front ++ id :: back).Pairwise (· < ·)) :
    (front ++ id :: back).filter (· < id) = front ∧
    (front ++ id :: back).filter (id < ·) = back := by
  obtain ⟨-, later, before⟩ := List.pairwise_append.mp h
  have greater := (List.pairwise_cons.mp later).1
  have less : ∀ i ∈ front, i < id := fun i member => before i member id List.mem_cons_self
  have keepFront : front.filter (· < id) = front := List.filter_eq_self.mpr (by simpa using less)
  have keepBack : back.filter (id < ·) = back := List.filter_eq_self.mpr (by simpa using greater)
  have dropFront : front.filter (id < ·) = [] :=
    List.filter_eq_nil_iff.mpr fun i member => by simpa using Nat.le_of_lt (less i member)
  have dropBack : back.filter (· < id) = [] :=
    List.filter_eq_nil_iff.mpr fun i member => by simpa using Nat.le_of_lt (greater i member)
  simp [keepFront, keepBack, dropFront, dropBack]

theorem Grounded.front (h : Grounded (as ++ [a])) : Grounded as := by
  intro id b p there
  have bound := (List.getElem?_eq_some_iff.mp there).1
  exact h id b p ((List.getElem?_append_left bound).trans there)

theorem Grounded.last (h : Grounded (as ++ [a])) : ∀ p, a.parent = some p → p < as.length :=
  fun p => h as.length a p (by simp)

theorem Grounded.childless (h : Grounded as) (beyond : as.length ≤ id + 1) :
    under as (some id) = [] := by
  refine List.eq_nil_iff_forall_not_mem.mpr fun child member => ?_
  obtain ⟨b, there, below⟩ := Option.map_eq_some_iff.mp (memberUnder.mp member)
  have later := h child b id there below
  have bound := underBounded member
  omega

structure Holds (t : OperatorTree) (as : List Addition) : Prop where
  node : ∀ id, t.nodes[id]? = as[id]?.map (expected as id)
  size : t.size = as.length
  length : t.length = (under as none).length
  head : t.head = (under as none).head?
  tail : t.tail = (under as none).getLast?

namespace Holds

theorem last (h : Holds t as) (grounded : Grounded as) (parent : Option Nat) :
    t.lastUnder parent = (under as parent).getLast? := by
  cases parent with
  | none => exact h.tail
  | some p =>
    rw [lastUnder, h.node]
    cases there : as[p]? with
    | some b => rfl
    | none =>
      rw [grounded.childless (Nat.le_succ_of_le (List.getElem?_eq_none_iff.mp there))]
      rfl

theorem nextPush (a : Addition) (member : id ∈ under as parent) :
    ((under (as ++ [a]) parent).filter (id < ·)).head? =
      if (under as a.parent).getLast? = some id then some as.length
      else ((under as parent).filter (id < ·)).head? := by
  obtain ⟨front, back, split⟩ := List.append_of_mem member
  have ordered := underOrdered as parent
  have orderedPush := underOrdered (as ++ [a]) parent
  rw [underPush] at orderedPush ⊢
  by_cases same : a.parent = parent
  · subst same
    rw [if_pos rfl, split, List.append_assoc, List.cons_append] at orderedPush ⊢
    rw [split] at ordered
    rw [(besideOrdered ordered).2, (besideOrdered orderedPush).2]
    cases back with
    | nil => simp
    | cons next back =>
      have other : ((next :: back).getLast?) ≠ some id := by
        intro ends
        have later := (List.pairwise_cons.mp (List.pairwise_append.mp ordered).2.1).1 id
          (List.mem_of_getLast? ends)
        exact Nat.lt_irrefl _ later
      rw [if_neg (by simpa using other)]
      rfl
  · rw [if_neg same, List.append_nil, if_neg]
    intro ends
    have there := memberUnder.mp (List.mem_of_getLast? ends)
    exact same (Option.some.inj (there.symm.trans (memberUnder.mp member)))

theorem joinedExpected (h : Holds t as) (grounded : Grounded as) (there : as[id]? = some b) :
    t.joined a.parent id (expected as id b) = expected (as ++ [a]) id b := by
  have member : id ∈ under as b.parent := memberUnder.mpr (by rw [there]; rfl)
  have bound := underBounded member
  have before : ((under (as ++ [a]) b.parent).filter (· < id)).getLast? =
      ((under as b.parent).filter (· < id)).getLast? := by
    rw [underPush, List.filter_append]
    split <;> simp [Nat.le_of_lt bound]
  have first : (if a.parent = some id then (under as (some id)).head?.or (some as.length)
      else (under as (some id)).head?) = (under (as ++ [a]) (some id)).head? := by
    rw [underPush]
    split <;> simp
  have last : (if a.parent = some id then some as.length else (under as (some id)).getLast?) =
      (under (as ++ [a]) (some id)).getLast? := by
    rw [underPush]
    split <;> simp
  simp only [joined, expected, h.last grounded, h.size, before, first, last, nextPush a member]

theorem expectedNew (grounded : Grounded (as ++ [a])) : expected (as ++ [a]) as.length a =
    ⟨a.op, (under as a.parent).getLast?, none, a.parent, none, none⟩ := by
  have ends : under (as ++ [a]) a.parent = under as a.parent ++ as.length :: [] := by
    rw [underPush, if_pos rfl]
  have ordered := underOrdered (as ++ [a]) a.parent
  rw [ends] at ordered
  simp only [expected, grounded.childless (Nat.le_of_eq List.length_append), ends,
    (besideOrdered ordered).1, (besideOrdered ordered).2, List.head?_nil, List.getLast?_nil]

theorem push (h : Holds t as) (grounded : Grounded (as ++ [a])) :
    Holds (t.push a.op a.parent) (as ++ [a]) := by
  have last := h.last grounded.front
  have fresh : t.lastUnder a.parent ≠ some t.size := by
    intro same
    rw [last, h.size] at same
    exact Nat.lt_irrefl _ (underBounded (List.mem_of_getLast? same))
  have above : a.parent ≠ some t.size := by
    intro same
    have bound := grounded.last _ same
    rw [h.size] at bound
    exact Nat.lt_irrefl _ bound
  have size : (t.push a.op a.parent).size = as.length + 1 := by rw [sizePush, h.size]
  refine ⟨fun id => ?_, ?_, ?_, ?_, ?_⟩
  · rcases Nat.lt_trichotomy id as.length with old | rfl | beyond
    · obtain ⟨b, there⟩ : ∃ b, as[id]? = some b := ⟨_, List.getElem?_eq_getElem old⟩
      rw [pushOld a.op a.parent (h.size ▸ old), h.node, List.getElem?_append_left old, there]
      exact congrArg some (h.joinedExpected grounded.front there)
    · rw [← h.size, pushNew a.op above fresh, last, h.size]
      simp [expectedNew grounded]
    · rw [Array.getElem?_eq_none, List.getElem?_eq_none]
      · rfl
      · simp only [List.length_append, List.length_singleton]
        omega
      · rw [OperatorTree.size] at size
        omega
  · rw [size]; simp
  · rw [underPush]
    cases found : a.parent <;> simp [OperatorTree.push, h.length]
  · rw [underPush]
    cases found : a.parent <;> simp [OperatorTree.push, h.head, h.size]
  · rw [underPush]
    cases found : a.parent <;> simp [OperatorTree.push, h.tail, h.size]

end Holds

theorem additionsHeld (grounded : Grounded as) : Holds (ofAdditions as) as := by
  induction as using List.reverseRecOn with
  | nil => exact ⟨fun _ => rfl, rfl, rfl, rfl, rfl⟩
  | append_singleton as a ih =>
    rw [ofAdditions, List.foldl_append]
    exact (ih grounded.front).push grounded

theorem additionsSpell (grounded : Grounded as) : ∃ os, (ofAdditions as).Spells os := by
  induction as using List.reverseRecOn with
  | nil => exact ⟨[], spellsEmpty⟩
  | append_singleton as a ih =>
    obtain ⟨os, spells⟩ := ih grounded.front
    have bound (p : Nat) (above : a.parent = some p) : p < (ofAdditions as).size := by
      rw [(additionsHeld grounded.front).size]
      exact grounded.last p above
    rw [ofAdditions, List.foldl_append]
    exact ⟨_, spells.push a.op bound⟩

theorem chainAlong {fuel : Nat} {ids : List Nat} (enough : ids.length ≤ fuel)
    (next : ∀ front id back, ids = front ++ id :: back → t.next? id = back.head?) :
    t.chain fuel ids.head? = ids := by
  induction ids generalizing fuel with
  | nil => cases fuel <;> rfl
  | cons id rest ih =>
    obtain ⟨fuel, rfl⟩ := Nat.exists_eq_add_of_le' (Nat.le_of_add_left_le enough)
    have later := ih (Nat.le_of_succ_le_succ enough) fun front i back split =>
      next (id :: front) i back (by rw [split, List.cons_append])
    rw [List.head?_cons, chain, next [] id rest rfl, later]

namespace Holds

theorem beside (h : Holds t as) {front back : List Nat}
    (split : under as parent = front ++ id :: back) :
    t.prev? id = front.getLast? ∧ t.next? id = back.head? := by
  have member : id ∈ under as parent := by simp [split]
  obtain ⟨a, there, rfl⟩ := Option.map_eq_some_iff.mp (memberUnder.mp member)
  have ordered := underOrdered as a.parent
  rw [split] at ordered
  obtain ⟨before, after⟩ := besideOrdered ordered
  simp only [prev?, next?, h.node, there, Option.map_some, Option.bind_some, expected, split, before,
    after, and_self]

theorem chained (h : Holds t as) (parent : Option Nat) :
    t.chain t.size (under as parent).head? = under as parent := by
  refine chainAlong ?_ fun front id back split => (h.beside split).2
  have bound := List.length_filter_le (fun id => as[id]?.map Addition.parent = some parent)
    (List.range as.length)
  rw [List.length_range] at bound
  rw [h.size]
  exact bound

theorem top (h : Holds t as) : t.top = under as none := by
  rw [OperatorTree.top, h.head, h.chained]

theorem childEnds (h : Holds t as) (grounded : Grounded as) (p : Nat) :
    t.firstChild? p = (under as (some p)).head? ∧
    t.lastChild? p = (under as (some p)).getLast? := by
  rw [firstChild?, lastChild?, h.node]
  cases there : as[p]? with
  | some a => exact ⟨rfl, rfl⟩
  | none =>
    rw [grounded.childless (Nat.le_succ_of_le (List.getElem?_eq_none_iff.mp there))]
    exact ⟨rfl, rfl⟩

theorem children (h : Holds t as) (grounded : Grounded as) (p : Nat) :
    t.children p = under as (some p) := by
  rw [OperatorTree.children, (h.childEnds grounded p).1, h.chained]

theorem inverse (h : Holds t as) {i j : Nat} : t.next? i = some j ↔ t.prev? j = some i := by
  have known (id : Nat) (b : Addition) (there : as[id]? = some b) :
      ∃ front back, under as b.parent = front ++ id :: back :=
    List.append_of_mem (memberUnder.mpr (by rw [there]; rfl))
  constructor
  · intro after
    obtain ⟨n, found, -⟩ := Option.bind_eq_some_iff.mp after
    rw [h.node] at found
    obtain ⟨b, there, -⟩ := Option.map_eq_some_iff.mp found
    obtain ⟨front, back, split⟩ := known i b there
    rw [(h.beside split).2] at after
    obtain ⟨back, rfl⟩ := List.head?_eq_some_iff.mp after
    rw [List.append_cons] at split
    rw [(h.beside split).1, List.getLast?_concat]
  · intro before
    obtain ⟨n, found, -⟩ := Option.bind_eq_some_iff.mp before
    rw [h.node] at found
    obtain ⟨b, there, -⟩ := Option.map_eq_some_iff.mp found
    obtain ⟨front, back, split⟩ := known j b there
    rw [(h.beside split).1] at before
    obtain ⟨front, rfl⟩ := List.getLast?_eq_some_iff.mp before
    rw [List.append_assoc, List.singleton_append] at split
    rw [(h.beside split).2, List.head?_cons]

end Holds

/-- However operators are added, each under none or under any that was added before, the links
of the table describe the tree: they are consistent, the top level and what stands under each
operator are the additions with this parent in their order, neighbours in such a list are
linked both ways and its ends are where they are said to be. -/
theorem additionsLinked (grounded : Grounded as) :
    (ofAdditions as).isLinked = true ∧
    (ofAdditions as).size = as.length ∧
    (ofAdditions as).length = (under as none).length ∧
    (∀ id, (ofAdditions as).op? id = as[id]?.map Addition.op ∧
      (ofAdditions as).parent? id = as[id]?.bind Addition.parent) ∧
    (ofAdditions as).top = under as none ∧
    (∀ p, (ofAdditions as).children p = under as (some p)) ∧
    (∀ parent front id back, under as parent = front ++ id :: back →
      (ofAdditions as).prev? id = front.getLast? ∧ (ofAdditions as).next? id = back.head?) ∧
    (∀ i j, (ofAdditions as).next? i = some j ↔ (ofAdditions as).prev? j = some i) ∧
    (ofAdditions as).head = (under as none).head? ∧
    (ofAdditions as).tail = (under as none).getLast? ∧
    (∀ p, (ofAdditions as).firstChild? p = (under as (some p)).head? ∧
      (ofAdditions as).lastChild? p = (under as (some p)).getLast?) := by
  obtain ⟨os, spells⟩ := additionsSpell grounded
  have held := additionsHeld grounded
  refine ⟨spells.isLinked, held.size, held.length, fun id => ?_, held.top,
    held.children grounded, fun parent front id back split => held.beside split,
    fun i j => held.inverse, held.head, held.tail, held.childEnds grounded⟩
  rw [op?, parent?, held.node]
  cases as[id]? <;> exact ⟨rfl, rfl⟩

def interleaved : List Addition :=
  [⟨.unknown "a" [], none⟩, ⟨.unknown "b" [], none⟩, ⟨.unknown "c" [], some 0⟩,
    ⟨.unknown "d" [], some 1⟩, ⟨.unknown "e" [], some 0⟩, ⟨.unknown "f" [], none⟩,
    ⟨.unknown "g" [], some 2⟩, ⟨.unknown "h" [], some 0⟩]

theorem additionsLinkedInterleaved : Grounded interleaved ∧
    (ofAdditions interleaved).isLinked = true ∧ (ofAdditions interleaved).top = [0, 1, 5] ∧
    (ofAdditions interleaved).children 0 = [2, 4, 7] ∧
    (ofAdditions interleaved).prev? 4 = some 2 ∧ (ofAdditions interleaved).next? 4 = some 7 ∧
    (ofAdditions interleaved).lastChild? 0 = some 7 := by
  have grounded : Grounded interleaved := by
    intro id a p there above
    have bound : id < 8 := (List.getElem?_eq_some_iff.mp there).1
    have earlier : ∀ id < 8, ∀ p ∈ interleaved[id]?.bind Addition.parent, p < id := by decide
    exact earlier id bound p (by rw [there]; exact above)
  obtain ⟨linked, -, -, -, top, children, beside, -, -, -, ends⟩ := additionsLinked grounded
  obtain ⟨prev, next⟩ := beside (some 0) [2] 4 [7] rfl
  exact ⟨grounded, linked, top, children 0, prev, next, (ends 0).2⟩

end PageContent.OperatorTree
