import PageContent.Proofs.Builder.Feeding
import PageContent.Proofs.ContentStream.Regrouped

/-! Streams are cut at the first place where they can be: within a group some operand always
waits or some block is always open, and nothing is left over where the next group begins. -/
namespace PageContent

namespace Builder

theorem Twins.settled {p q : Place} {b c : Builder} (h : Twins p q b c) :
    b.isSettled = c.isSettled := by
  have closed : b.openBlocks = [] ↔ c.openBlocks = [] := by
    simp only [List.eq_nil_iff_length_eq_zero, h.depth]
  rw [Bool.eq_iff_iff]
  simp [isSettled, h.pending, closed]

end Builder

namespace ContentStream
open Builder

theorem twinsNew (params : Params) (binding binding' : Binding) :
    Twins origin origin (.new binding params) (.new binding' params) :=
  (InStep.start binding').2 binding

theorem addAllTwins {p q : Place} {d : Document} {b b' c : Builder} {backing : List Backing}
    (h : Twins p q b c) (run : addAll d b backing = .ok b') :
    ∃ c', addAll d c backing = .ok c' ∧ Twins p q b' c' := by
  induction backing generalizing b c with
  | nil => cases run; exact ⟨c, rfl, h⟩
  | cons s rest ih =>
    obtain ⟨data, b₁, payload, taken, more⟩ := addAllCons.mp run
    obtain ⟨c₁, taken', twins⟩ := h.addItems taken
    obtain ⟨c', others, last⟩ := ih twins more
    exact ⟨c', addAllCons.mpr ⟨data, c₁, payload, taken', others⟩, last⟩

theorem addAllFed {d : Document} {b b' : Builder} {backing : List Backing}
    (run : addAll d b backing = .ok b') : ∃ feeds, b.fedAll feeds = b' := by
  induction backing generalizing b with
  | nil => cases run; exact ⟨[], rfl⟩
  | cons s rest ih =>
    obtain ⟨data, b₁, -, taken, more⟩ := addAllCons.mp run
    obtain ⟨feeds, last⟩ := ih more
    refine ⟨.data data :: feeds, ?_⟩
    have first : (b.addData data).1 = b₁ := by rw [taken]
    rw [← last, ← first]
    rfl

def Uncut (d : Document) (b : Builder) (backing : List Backing) : Prop :=
  ∀ n, 0 < n → n < backing.length →
    ∃ c, addAll d b (backing.take n) = .ok c ∧ c.isSettled = false

theorem Uncut.next {d : Document} {b c : Builder} {done : List Backing} (h : Uncut d b done)
    (run : addAll d b done = .ok c) (busy : done ≠ [] → c.isSettled = false) (s : Backing) :
    Uncut d b (done ++ [s]) := by
  intro n some inside
  rw [List.length_append, List.length_singleton] at inside
  rw [List.take_append_of_le_length (by omega)]
  obtain last | before : n = done.length ∨ n < done.length := by omega
  · rw [last, List.take_length]
    exact ⟨c, run, busy (List.ne_nil_of_length_pos (last ▸ some))⟩
  · exact h n some before

theorem Uncut.rebound {d : Document} {params : Params} {binding : Binding} {backing : List Backing}
    (h : Uncut d (.new binding params) backing) (binding' : Binding) :
    Uncut d (.new binding' params) backing := by
  intro n some inside
  obtain ⟨c, run, busy⟩ := h n some inside
  obtain ⟨c', run', twins⟩ := addAllTwins (twinsNew params binding binding') run
  exact ⟨c', run', twins.settled ▸ busy⟩

theorem groupsCut {d : Document} {params : Params} {id : Nat} {current : Option Unfinished}
    {nodes : List Nat} {gs : List ContentStream} (ok : groupsFrom d params id current nodes = .ok gs)
    (begun : ∀ u, current = some u → u.Begun d params)
    (uncut : ∀ u, current = some u → u.builder.isSettled = false ∧
      ∀ binding, Uncut d (.new binding params) u.backing) :
    ∀ k g, gs[k]? = some g → (∀ binding, Uncut d (.new binding params) g.backing) ∧
      (k + 1 < gs.length → ∀ binding, ∃ b,
        addAll d (.new binding params) g.backing = .ok b ∧ b.isSettled = true) := by
  induction nodes generalizing id current gs with
  | nil =>
    intro k g found
    cases current with
    | none =>
      obtain rfl : [] = gs := by simpa [groupsFrom] using ok
      simp at found
    | some u =>
      obtain ⟨t, -, rfl⟩ := groupsEnd.mp ok
      obtain ⟨rfl, rfl⟩ : k = 0 ∧ _ = g := by simpa [List.getElem?_singleton] using found
      exact ⟨(uncut u rfl).2, fun more => by simp at more⟩
  | cons node rest ih =>
    obtain ⟨s, data, b, resolved, payload, taken, ending⟩ := groupsCons.mp ok
    obtain ⟨first, later, backing, run⟩ := Unfinished.Begun.next begun resolved payload taken
    have inner : ∀ binding, Uncut d (.new binding params)
        ((current.getD ⟨.new ⟨d.id, s.ref⟩ params, []⟩).backing ++ [s]) := by
      cases current with
      | none =>
        intro binding n some inside
        simp at inside
        omega
      | some u =>
        obtain ⟨first', later', backing', run'⟩ := begun u rfl
        obtain ⟨busy, apart⟩ := uncut u rfl
        exact (Uncut.next (apart _) run' (fun _ => busy) s).rebound
    obtain ⟨busy, more⟩ | ⟨clean, after, more, rfl⟩ := ending
    · refine ih more ?_ ?_
      · rintro u ⟨⟩
        exact ⟨first, later, backing, run⟩
      · rintro u ⟨⟩
        exact ⟨busy, inner⟩
    · rintro (_ | k) g found
      · cases found
        refine ⟨inner, fun _ binding => ?_⟩
        obtain ⟨b', run', twins⟩ := addAllTwins (twinsNew params _ binding) run
        exact ⟨b', run', twins.settled ▸ clean⟩
      · rw [List.getElem?_cons_succ] at found
        obtain ⟨apart, ends⟩ := ih more (by simp) (by simp) k g found
        exact ⟨apart, fun before => ends (by simpa using before)⟩

theorem readBound {d : Document} {params : Params} {id : Nat} {backing : List Backing}
    {s : ContentStream} (ok : read d id backing params = .ok s) {i : Nat} {op : Instruction}
    (found : s.tree.op? i = some op) : ∀ o ∈ op.allOperands, o.isBoundTo s.binding = true := by
  obtain ⟨first, rest, b, t, -, run, closed, rfl⟩ := readOk.mp ok
  obtain ⟨feeds, rfl⟩ := addAllFed run
  obtain ⟨rfl, -⟩ := finishedTree closed
  obtain ⟨inner, levels, standing⟩ :=
    fedStanding ⟨[], [], standingNew ⟨d.id, first.ref⟩ params⟩ feeds
  have bound := standing.consistent.bound i op found
  rw [(fedKept _ feeds).2] at bound
  exact bound

/-- How a group of streams is cut off, with `more` for whether another one follows. -/
structure Cut (d : Document) (params : Params) (more : Prop) (g : ContentStream) : Prop where
  begins : ∃ first rest, g.backing = first :: rest ∧ g.binding = ⟨d.id, first.ref⟩
  bound : ∀ i op, g.tree.op? i = some op → ∀ o ∈ op.allOperands, o.isBoundTo g.binding = true
  uncut : ∀ binding, Uncut d (.new binding params) g.backing
  ends : ∀ binding, ∃ b, addAll d (.new binding params) g.backing = .ok b ∧
    (more → b.isSettled = true)
  again : g.reread d params = .ok g

/-- The groups share out the streams in order, at least one to each. Whatever the binding of
a new builder, the streams of a group leave it unsettled after each but the last, and the last
one settles it if another group follows. Operands are bound to the first stream of their
group, and its streams read again are the group. -/
theorem groupsEarliest {d : Document} {params : Params} {id : Nat} {nodes : List Nat}
    {gs : List ContentStream} (ok : groups d id nodes params = .ok gs) :
    nodes.mapM (Backing.resolve d) = .ok (gs.flatMap ContentStream.backing) ∧
    (gs.flatMap ContentStream.backing).map Backing.node = nodes ∧
    ∀ k g, gs[k]? = some g → Cut d params (k + 1 < gs.length) g := by
  obtain ⟨⟨backing, resolved, shared⟩, -, reads⟩ := groupsExact ok nofun
  obtain rfl : gs.flatMap ContentStream.backing = backing := shared
  refine ⟨resolved, (mapResolveNodes resolved).1, ?_⟩
  intro k g found
  have again := reads g (List.mem_of_getElem? found)
  obtain ⟨uncut, settles⟩ := groupsCut ok nofun nofun k g found
  obtain ⟨first, rest, b, t, begins, run, -, same⟩ := readOk.mp again
  refine ⟨⟨first, rest, begins, by rw [same]⟩, fun i op => readBound again, uncut, ?_, again⟩
  intro binding
  obtain ⟨b', run', -⟩ := addAllTwins (twinsNew params _ binding) run
  refine ⟨b', run', fun more => ?_⟩
  obtain ⟨b'', run'', clean⟩ := settles more binding
  obtain rfl : b' = b'' := by simpa [run'] using run''
  exact clean

def sixStreams : Document :=
  ⟨1, #[⟨.stream [] (ascii ['B', 'T']), some ⟨1, 0⟩⟩, ⟨.stream [] [], some ⟨2, 0⟩⟩,
    ⟨.stream [] (ascii ['E', 'T', ' ', '0']), some ⟨3, 0⟩⟩, ⟨.stream [] (ascii ['g']), some ⟨4, 0⟩⟩,
    ⟨.stream [] [], some ⟨5, 0⟩⟩, ⟨.stream [] (ascii ['B', 'T']), some ⟨6, 0⟩⟩],
    #[.node 0, .node 1, .node 2, .node 3, .node 4, .node 5], []⟩

theorem groupsEarliestOfSix : ∃ gs, groups sixStreams 4 [0, 1, 2, 3, 4, 5] .default = .ok gs ∧
    gs.map (fun g => g.backing.map Backing.node) = [[0, 1, 2, 3], [4], [5]] ∧
    ∀ k g, gs[k]? = some g → Cut sixStreams .default (k + 1 < gs.length) g :=
  ⟨_, rfl, rfl, (@groupsEarliest sixStreams .default 4 [0, 1, 2, 3, 4, 5] _ rfl).2.2⟩

end ContentStream
end PageContent
