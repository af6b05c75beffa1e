import PageContent.Proofs.Builder.Filtering
import PageContent.Proofs.ContentStream.Boundaries
import PageContent.Proofs.Page.Kept

/-! Content streams that leave no block open. Such a one is read of its own streams whatever stands
before and after them, so that content streams put into another order are read again as they were. -/
namespace PageContent

namespace OperatorTree

def Ended (t : OperatorTree) : Prop := ∀ id start, t.op? id ≠ some (.block start none)

def opens : Instruction → Bool
  | .block _ none => true
  | _ => false

instance (t : OperatorTree) : Decidable t.Ended :=
  decidable_of_iff (∀ id, id < t.size → (t.op? id).all fun op => !opens op) <| by
    constructor
    · intro closed id start found
      have inside : id < t.size := by
        obtain ⟨n, there, -⟩ := Option.map_eq_some_iff.mp found
        exact (Array.getElem?_eq_some_iff.mp there).1
      have shut := closed id inside
      rw [found] at shut
      cases shut
    · intro ended id _
      cases found : t.op? id with
      | none => rfl
      | some op =>
        cases op with
        | block start stop =>
          cases stop with
          | none => exact absurd found (ended id start)
          | some stop => rfl
        | _ => rfl

end OperatorTree

namespace Builder

theorem fedEnded {binding : Binding} {params : Params} {feeds : List Feed} {b : Builder}
    (fed : (new binding params).fedAll feeds = b) : b.tree.Ended ↔ b.openBlocks = [] := by
  have consistent := fedConsistent binding params feeds
  rw [fed] at consistent
  constructor
  · intro ended
    refine List.eq_nil_iff_forall_not_mem.mpr fun id opened => ?_
    obtain ⟨start, found⟩ := (consistent.unended id).mp opened
    exact ended id start found
  · intro none id start found
    have opened := (consistent.unended id).mpr ⟨start, found⟩
    rw [none] at opened
    cases opened

end Builder

theorem OperatorTree.endedRebound {data : Bytes} {binding binding' : Binding} {params : Params}
    {t t' : OperatorTree} (parsed : parse data binding params = .ok t)
    (rebound : parse data binding' params = .ok t') (ended : t.Ended) : t'.Ended := by
  obtain ⟨b, run, closed⟩ := parseExact.mp parsed
  obtain ⟨c, run', closed'⟩ := parseExact.mp rebound
  obtain ⟨rfl, -⟩ := Builder.treeExact.mp closed
  obtain ⟨rfl, -⟩ := Builder.treeExact.mp closed'
  have fed {binding : Binding} {b : Builder} (run : (Builder.new binding params).addData data =
      (b, none)) : (Builder.new binding params).fedAll [.data data] = b := congrArg Prod.fst run
  obtain ⟨_, again, twins⟩ := (ContentStream.twinsNew params binding binding').addItems run
  cases run'.symm.trans again
  have none := (Builder.fedEnded (fed run)).mp ended
  refine (Builder.fedEnded (fed run')).mpr (List.eq_nil_iff_length_eq_zero.mpr ?_)
  rw [← twins.depth, none, List.length_nil]

namespace ContentStream
open Builder

variable {d : Document} {params : Params} {id : Nat} {ns : List Nat} {g : ContentStream}
  {later gs streams : List ContentStream}

theorem Unfinished.Begun.settled {u : Unfinished} (begun : u.Begun d params) {t : OperatorTree}
    (closed : u.builder.toTree = .ok t) (ended : t.Ended) : u.builder.isSettled = true := by
  obtain ⟨first, rest, -, run⟩ := begun
  obtain ⟨feeds, fed⟩ := addAllFed run
  obtain ⟨rfl, clear, -⟩ := treeExact.mp closed
  simp [isSettled, clear, (fedEnded fed).mp ended]

theorem groupsHead {current : Option Unfinished}
    (begun : ∀ u, current = some u → u.Begun d params ∧ u.builder.isSettled = false)
    (ok : groupsFrom d params id current ns = .ok (g :: later)) : ∃ mine rest, ns = mine ++ rest ∧
      groupsFrom d params (id + 1) none rest = .ok later ∧
      (later ≠ [] ∨ g.tree.Ended → ∀ id' rest' later',
        groupsFrom d params (id' + 1) none rest' = .ok later' →
          groupsFrom d params id' current (mine ++ rest') = .ok ({ g with id := id' } :: later')) := by
  induction ns generalizing current with
  | nil =>
    cases current with
    | none => cases ok
    | some u =>
      obtain ⟨t, closed, same⟩ := groupsEnd.mp ok
      cases same
      obtain ⟨begun, busy⟩ := begun u rfl
      refine ⟨[], [], rfl, rfl, fun goes => ?_⟩
      obtain more | ended := goes
      · exact absurd rfl more
      · rw [begun.settled closed ended] at busy
        cases busy
  | cons node others ih =>
    obtain ⟨s, data, b, found, payload, taken, ⟨busy, more⟩ | ⟨clean, _, more, same⟩⟩ :=
      groupsCons.mp ok
    · have next := Unfinished.Begun.next (fun u same => (begun u same).1) found payload taken
      obtain ⟨mine, rest, rfl, tail, again⟩ := ih (fun u same => by cases same; exact ⟨next, busy⟩) more
      refine ⟨node :: mine, rest, rfl, tail, fun goes id' rest' later' follows => ?_⟩
      exact groupsCons.mpr ⟨s, data, b, found, payload, taken,
        .inl ⟨busy, again goes id' rest' later' follows⟩⟩
    · cases same
      refine ⟨[node], others, rfl, more, fun _ id' rest' later' follows => ?_⟩
      exact groupsCons.mpr ⟨s, data, b, found, payload, taken, .inr ⟨clean, later', follows, rfl⟩⟩

theorem headNodes {mine rest : List Nat} (ok : groups d id (mine ++ rest) params = .ok (g :: later))
    (tail : groups d (id + 1) rest params = .ok later) : mine = g.backing.map Backing.node := by
  obtain ⟨all, -⟩ := groupsOf ok
  obtain ⟨those, -⟩ := groupsOf tail
  have whole : g.backing.map Backing.node ++ rest = mine ++ rest := by
    rw [← all, ← those]
    simp [nodes]
  exact (List.append_cancel_right whole).symm

def Separate (d : Document) (params : Params) (g : ContentStream) : Prop :=
  ∀ id ns later, groups d (id + 1) ns params = .ok later →
    groups d id (g.backing.map Backing.node ++ ns) params = .ok ({ g with id } :: later)

theorem groupsSeparate (ok : groups d id ns params = .ok gs) (ended : ∀ g ∈ gs, g.tree.Ended) :
    ∀ g ∈ gs, Separate d params g := by
  induction gs generalizing id ns with
  | nil => exact fun _ there => by cases there
  | cons first others ih =>
    obtain ⟨mine, rest, rfl, tail, again⟩ := groupsHead (fun u same => by cases same) ok
    obtain rfl := headNodes ok tail
    intro g there
    obtain rfl | after := List.mem_cons.mp there
    · exact again (.inr (ended g there))
    · exact ih tail (fun g member => ended g (List.mem_cons_of_mem _ member)) g after

theorem Whole.ofSeparate (each : ∀ g ∈ streams, Separate d params g) : Whole d params streams := by
  suffices all : ∀ id, ∃ gs, groups d id (nodes streams) params = .ok gs ∧
      gs.map unnumbered = streams.map unnumbered from ⟨0, all 0⟩
  induction streams with
  | nil => exact fun id => ⟨[], rfl, rfl⟩
  | cons first others ih =>
    intro id
    obtain ⟨gs, ok, same⟩ := ih (fun g there => each g (List.mem_cons_of_mem _ there)) (id + 1)
    refine ⟨{ first with id } :: gs, ?_, by simp [same, unnumbered]⟩
    have head := each first List.mem_cons_self id _ _ ok
    simpa [nodes] using head

theorem likeMember {s : ContentStream} (same : gs.map unnumbered = streams.map unnumbered)
    (there : s ∈ streams) : ∃ g ∈ gs, g.backing = s.backing ∧ g.tree = s.tree ∧
      ∀ id, ({ g with id } : ContentStream) = { s with id } := by
  have like : s.unnumbered ∈ gs.map unnumbered := same ▸ List.mem_map_of_mem there
  obtain ⟨g, member, alike⟩ := List.mem_map.mp like
  refine ⟨g, member, ?_⟩
  cases g
  cases s
  simp only [unnumbered, mk.injEq] at alike
  obtain ⟨-, rfl, rfl, rfl⟩ := alike
  exact ⟨rfl, rfl, fun _ => rfl⟩

theorem Whole.separate (h : Whole d params streams) (ended : ∀ s ∈ streams, s.tree.Ended) :
    ∀ s ∈ streams, Separate d params s := by
  obtain ⟨_, gs, ok, same⟩ := h
  have ended' : ∀ g ∈ gs, g.tree.Ended := by
    intro g there
    obtain ⟨s, member, -, tree, -⟩ := likeMember same.symm there
    exact tree ▸ ended s member
  intro s there id ns later follows
  obtain ⟨g, member, backing, -, renumbered⟩ := likeMember same there
  rw [← renumbered id, ← backing]
  exact groupsSeparate ok ended' g member id ns later follows

end ContentStream

end PageContent
