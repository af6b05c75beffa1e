import PageContent.Proofs.OperatorTree.Additions
import PageContent.Proofs.OperatorTree.Spots

/-! A walk holds one operator at a time and climbs the links to find the next. It meets the
operators as a recursion does that goes down to what stands under each of them. -/
namespace PageContent

namespace Outline

def root : Outline → Nat
  | node id _ _ => id

theorem spotsIds (depth : Nat) (os : List Outline) : (spots depth os).map Spot.id = ids os := by
  induction os using forest generalizing depth with
  | nil => rfl
  | cons id op children rest below later => simp [spots, spotsOf, ids, idsOf, below, later]

end Outline

namespace OperatorTree
open Outline

/-- What a recursion meets that takes each of some operators with all that stands under it
before it takes the next: the operators in this order, each with its level. -/
inductive Descends (as : List Addition) : Nat → List Nat → List (Nat × Nat) → Prop where
  | nil {level} : Descends as level [] []
  | cons {level id rest below later}
      (inside : Descends as (level + 1) (under as (some id)) below)
      (after : Descends as level rest later) :
      Descends as level (id :: rest) ((id, level) :: (below ++ later))

inductive Climbs (t : OperatorTree) : Nat → Option Nat → Prop where
  | beside {id next} (found : t.next? id = some next) : Climbs t id (some next)
  | up {id p goal} (last : t.next? id = none) (above : t.parent? id = some p)
      (further : Climbs t p goal) : Climbs t id goal
  | out {id} (last : t.next? id = none) (above : t.parent? id = none) : Climbs t id none

inductive Follows (t : OperatorTree) : Nat → Option Nat → Prop where
  | child {id first} (found : t.firstChild? id = some first) : Follows t id (some first)
  | climb {id goal} (leaf : t.firstChild? id = none) (climbs : Climbs t id goal) :
      Follows t id goal

inductive Walks (t : OperatorTree) : Option Nat → List Nat → Prop where
  | done : Walks t none []
  | step {id goal rest} (follows : Follows t id goal) (later : Walks t goal rest) :
      Walks t (some id) (id :: rest)

inductive Rises (t : OperatorTree) : Option Nat → Nat → Prop where
  | top : Rises t none 0
  | up {id n} (above : Rises t (t.parent? id) n) : Rises t (some id) (n + 1)

variable {t : OperatorTree} {as : List Addition} {os : List Outline} {id : Nat}
  {goal parent prev first last : Option Nat}

namespace Linked

theorem chain (h : t.Linked parent prev first last os) {fuel : Nat}
    (enough : (ids os).length ≤ fuel) : t.chain fuel first = os.map root := by
  induction h generalizing fuel with
  | nil => cases fuel <;> rfl
  | cons found before above below later ihBelow ihLater =>
    simp only [ids, idsOf, List.cons_append, List.length_cons, List.length_append] at enough
    obtain ⟨fuel, rfl⟩ := Nat.exists_eq_add_of_le' (Nat.le_of_add_left_le enough)
    have next := @ihLater fuel (by omega)
    simp [OperatorTree.chain, next?, found, next, root]

theorem descends (h : t.Linked parent prev first last os) (held : t.Holds as)
    (grounded : Grounded as) (enough : (ids os).length ≤ t.size) (level : Nat) :
    Descends as level (os.map root) ((spots level os).map fun s => (s.id, s.depth)) := by
  induction h generalizing level with
  | nil => exact .nil
  | @cons parent prev last id n children rest found before above below later ihBelow ihLater =>
    simp only [ids, idsOf, List.cons_append, List.length_cons, List.length_append] at enough
    have under : under as (some id) = children.map root := by
      rw [← held.children grounded, OperatorTree.children, firstChild?, found]
      exact below.chain (by omega)
    have inside := ihBelow (by omega) (level + 1)
    have after := ihLater (by omega) level
    rw [← under] at inside
    simpa [spots, spotsOf, root] using Descends.cons inside after

theorem walks (h : t.Linked parent prev first last os) {beyond : Option Nat} {rest : List Nat}
    (around : ∀ p, parent = some p → t.Climbs p beyond) (top : parent = none → beyond = none)
    (further : t.Walks beyond rest) : t.Walks (first.or beyond) (ids os ++ rest) := by
  induction h generalizing beyond rest with
  | nil => simpa [ids] using further
  | @cons parent prev last id n children siblings found before above below later ihBelow ihLater =>
    have next : t.next? id = n.next := by simp [next?, found]
    have parent' : t.parent? id = parent := by simp [parent?, found, above]
    have child : t.firstChild? id = n.firstChild := by simp [firstChild?, found]
    have climbs : t.Climbs id (n.next.or beyond) := by
      cases beside : n.next with
      | some j => exact .beside (next.trans beside)
      | none =>
        cases owner : parent with
        | some p => exact .up (next.trans beside) (parent'.trans owner) (around p owner)
        | none =>
          rw [top owner]
          exact .out (next.trans beside) (parent'.trans owner)
    have follows : t.Follows id (n.firstChild.or (n.next.or beyond)) := by
      cases leads : n.firstChild with
      | some c => exact .child (child.trans leads)
      | none => exact .climb (child.trans leads) climbs
    have after := ihLater around top further
    have inside := ihBelow (fun p same => Option.some.inj same ▸ climbs) (by simp) after
    simpa [ids, idsOf] using Walks.step follows inside

theorem rises (h : t.Linked parent prev first last os) {level : Nat}
    (around : t.Rises parent level) : ∀ s ∈ spots level os, t.Rises (t.parent? s.id) s.depth := by
  induction h generalizing level with
  | nil => simp [spots]
  | cons found before above below later ihBelow ihLater =>
    have here : t.parent? _ = _ := (congrArg (·.bind OperatorNode.parent) found).trans above
    rw [← here] at around
    intro s member
    simp only [spots, spotsOf, List.mem_append, List.mem_cons] at member
    rcases member with (rfl | inside) | after
    · exact around
    · exact ihBelow (.up around) s inside
    · exact ihLater (here ▸ around) s after

end Linked

-- Parents come first, so a climb from an operator takes less steps than its number.
theorem Climbs.exact (h : t.Climbs id goal)
    (earlier : ∀ id p, t.parent? id = some p → p < id) {fuel : Nat} (enough : id < fuel) :
    t.climb fuel id = goal := by
  induction h generalizing fuel with
  | beside found =>
    cases fuel with
    | zero => contradiction
    | succ fuel => simp [climb, found]
  | up last above further ih =>
    cases fuel with
    | zero => contradiction
    | succ fuel =>
      have less := earlier _ _ above
      have rest := @ih fuel (by omega)
      simp [climb, last, above, rest]
  | out last above =>
    cases fuel with
    | zero => contradiction
    | succ fuel => simp [climb, last, above]

theorem Follows.exact (h : t.Follows id goal)
    (earlier : ∀ id p, t.parent? id = some p → p < id) (inside : id < t.size) :
    t.after? id = goal := by
  cases h with
  | child found => simp [after?, found]
  | climb leaf climbs => simp [after?, leaf, climbs.exact earlier inside]

theorem Walks.exact {visited : List Nat} (h : t.Walks goal visited)
    (earlier : ∀ id p, t.parent? id = some p → p < id) (inside : ∀ id ∈ visited, id < t.size)
    {fuel : Nat} (enough : visited.length ≤ fuel) : t.preorderFrom fuel goal = visited := by
  induction h generalizing fuel with
  | done => cases fuel <;> rfl
  | @step id goal rest follows later ih =>
    cases fuel with
    | zero => contradiction
    | succ fuel =>
      have next := follows.exact earlier (inside id List.mem_cons_self)
      have after := ih (fun i member => inside i (List.mem_cons_of_mem _ member))
        (Nat.le_of_succ_le_succ enough)
      rw [preorderFrom, next, after]

/-- However operators are added, a walk comes to its end and meets each of them once, in the
order of the recursion that takes an operator, then all that stands under it, then the next.
The way up from an operator comes to its end as well, and counts its level in that recursion. -/
theorem additionsWalked (grounded : Grounded as) : ∃ visits,
    Descends as 0 (under as none) visits ∧
    (ofAdditions as).Walks (ofAdditions as).head (visits.map Prod.fst) ∧
    (ofAdditions as).preorder = visits.map Prod.fst ∧
    (visits.map Prod.fst).Perm (List.range as.length) ∧
    ∀ id level, (id, level) ∈ visits →
      (ofAdditions as).Rises ((ofAdditions as).parent? id) level ∧
      (ofAdditions as).depth id = level := by
  obtain ⟨os, spells⟩ := additionsSpell grounded
  have held := additionsHeld grounded
  have numbers : ((spots 0 os).map fun s => (s.id, s.depth)).map Prod.fst = ids os := by
    rw [List.map_map, ← spotsIds 0 os]
    rfl
  have top : under as none = os.map root := by
    rw [← held.top, OperatorTree.top]
    exact spells.linked.chain (Nat.le_of_eq spells.count)
  have earlier : ∀ id p, (ofAdditions as).parent? id = some p → p < id := by
    intro id p above
    rw [parent?, held.node, Option.bind_map, Option.bind_eq_some_iff] at above
    obtain ⟨a, there, under⟩ := above
    exact grounded id a p there under
  have walks : (ofAdditions as).Walks (ofAdditions as).head (ids os) := by
    simpa using spells.linked.walks (by simp) (fun _ => rfl) .done
  refine ⟨(spots 0 os).map fun s => (s.id, s.depth), ?_, ?_, ?_, ?_, ?_⟩
  · rw [top]
    exact spells.linked.descends held grounded (Nat.le_of_eq spells.count) 0
  · rw [numbers]
    exact walks
  · rw [numbers, preorder]
    exact walks.exact earlier (fun id member => (spells.all id).mp member)
      (Nat.le_of_eq spells.count)
  · rw [numbers, ← held.size]
    exact spells.numbers
  · intro id level member
    obtain ⟨s, there, same⟩ := List.mem_map.mp member
    obtain ⟨rfl, rfl⟩ := Prod.mk.inj same
    exact ⟨spells.linked.rises .top s there, spells.depth there⟩

theorem additionsWalkedInterleaved : Grounded interleaved ∧ ∃ visits,
    Descends interleaved 0 (under interleaved none) visits ∧
    (ofAdditions interleaved).preorder = visits.map Prod.fst ∧
    visits.map Prod.fst = [0, 2, 6, 4, 7, 1, 3, 5] ∧
    (ofAdditions interleaved).Walks (some 0) (visits.map Prod.fst) ∧
    (ofAdditions interleaved).depth 6 = 2 := by
  have grounded : Grounded interleaved := by decide
  obtain ⟨visits, descends, walks, same, -, -⟩ := additionsWalked grounded
  exact ⟨grounded, visits, descends, same, same.symm.trans rfl, walks, rfl⟩

end OperatorTree

end PageContent
