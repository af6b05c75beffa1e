import PageContent.ContentStream
import PageContent.Proofs.Builder.Twins

/-! Cutting content at its settled places changes nothing but how operators are numbered
and bound: read in groups or in one go, the same streams are accepted, and the trees of the
groups put together are the one tree. -/
namespace PageContent
open Outline

namespace Builder

theorem settled {b : Builder} (h : b.isSettled = true) : b.pending = [] ∧ b.openBlocks = [] := by
  simpa [isSettled] using h

theorem settledTree {b : Builder} (h : b.isSettled = true) : b.toTree = .ok b.tree := by
  obtain ⟨clear, closed⟩ := settled h
  simp [toTree, clear, closed]

theorem Twins.restart {p q : Place} {b c : Builder} (h : Twins p q b c) (done : b.isSettled = true)
    (binding : Binding) :
    Twins ⟨p.whole b.tree.outline, p.shift + b.tree.size⟩ q (new binding b.params) c := by
  obtain ⟨inner, levels, inner', levels', hb, hc, matched⟩ := h.grown
  obtain ⟨clear, closed⟩ := settled done
  have number := h.number
  refine ⟨h.params, clear.symm.trans h.pending, ?_, [], [], inner', levels', buildsNew _ _, hc, ?_⟩
  · simp only [new, OperatorTree.size, OperatorTree.empty, Array.size_empty] at number ⊢
    omega
  · cases matched with
    | top same =>
      refine .top ?_
      rw [← same, hb.spells.outline]
      simp [Place.whole, Place.inside, Outline.map, plug]
    | level =>
      rw [hb.opened] at closed
      simp at closed

end Builder

namespace ContentStream
open Builder

def joined (shift : Nat) : List ContentStream → List Outline
  | [] => []
  | s :: rest =>
    Outline.map (· + shift) Instruction.unbound s.tree.outline ++ joined (shift + s.tree.size) rest

theorem resolveOk {d : Document} {node : Nat} {s : Backing} :
    Backing.resolve d node = .ok s ↔
      d.kind node = .ok .stream ∧ d.ref? node = some s.ref ∧ s.node = node := by
  unfold Backing.resolve
  cases d.kind node with
  | error fault => simp [bind, Except.bind]
  | ok kind =>
    by_cases stream : kind = .stream
    · cases d.ref? node with
      | none => simp [bind, Except.bind, stream, throw, throwThe, MonadExceptOf.throw]
      | some ref => cases s; simp [bind, Except.bind, stream, pure, Except.pure]; grind
    · simp [bind, Except.bind, stream, throw, throwThe, MonadExceptOf.throw]

theorem resolveNode {d : Document} {node : Nat} {s : Backing} (ok : Backing.resolve d node = .ok s) :
    s.node = node := (resolveOk.mp ok).2.2

theorem addAllCons {d : Document} {b b' : Builder} {s : Backing} {rest : List Backing} :
    addAll d b (s :: rest) = .ok b' ↔ ∃ data b₁, d.streamData s.node = .ok data ∧
      b.addData data = (b₁, none) ∧ addAll d b₁ rest = .ok b' := by
  rw [addAll, bindOk]
  constructor
  · rintro ⟨data, payload, ok⟩
    split at ok
    · simp [throw, throwThe, MonadExceptOf.throw] at ok
    · rename_i b₁ taken
      exact ⟨data, b₁, payload, taken, ok⟩
  · rintro ⟨data, b₁, payload, taken, ok⟩
    exact ⟨data, payload, by rw [taken]; exact ok⟩

theorem mapResolve {d : Document} {node : Nat} {rest : List Nat} {backing : List Backing} :
    (node :: rest).mapM (Backing.resolve d) = .ok backing ↔ ∃ s later,
      Backing.resolve d node = .ok s ∧ rest.mapM (Backing.resolve d) = .ok later ∧
      backing = s :: later := by
  simp only [List.mapM_cons, bindOk, pureOk]
  constructor
  · rintro ⟨s, first, later, others, rfl⟩
    exact ⟨s, later, first, others, rfl⟩
  · rintro ⟨s, later, first, others, rfl⟩
    exact ⟨s, first, later, others, rfl⟩

theorem groupsCons {d : Document} {params : Params} {id node : Nat} {current : Option Unfinished}
    {rest : List Nat} {gs : List ContentStream} :
    groupsFrom d params id current (node :: rest) = .ok gs ↔ ∃ s data b,
      Backing.resolve d node = .ok s ∧ d.streamData node = .ok data ∧
      (current.getD ⟨.new ⟨d.id, s.ref⟩ params, []⟩).builder.addData data = (b, none) ∧
      ((b.isSettled = false ∧ groupsFrom d params id
          (some ⟨b, (current.getD ⟨.new ⟨d.id, s.ref⟩ params, []⟩).backing ++ [s]⟩) rest = .ok gs) ∨
        (b.isSettled = true ∧ ∃ later, groupsFrom d params (id + 1) none rest = .ok later ∧
          gs = ⟨id, b.binding,
            (current.getD ⟨.new ⟨d.id, s.ref⟩ params, []⟩).backing ++ [s], b.tree⟩ :: later)) := by
  rw [groupsFrom, bindOk]
  constructor
  · rintro ⟨s, found, ok⟩
    obtain ⟨data, payload, ok⟩ := bindOk.mp ok
    split at ok
    · simp [throw, throwThe, MonadExceptOf.throw] at ok
    · rename_i b taken
      refine ⟨s, data, b, found, payload, taken, ?_⟩
      split at ok
      · rename_i clean
        simp only [Unfinished.close, settledTree clean, bindOk, pureOk] at ok
        obtain ⟨first, ⟨_, h, rfl⟩, later, others, rfl⟩ := ok
        cases h
        exact .inr ⟨clean, later, others, rfl⟩
      · rename_i busy
        exact .inl ⟨by simpa using busy, ok⟩
  · rintro ⟨s, data, b, found, payload, taken, ⟨busy, ok⟩ | ⟨clean, later, others, rfl⟩⟩
    · exact ⟨s, found, bindOk.mpr ⟨data, payload, by simp [taken, busy, ok]⟩⟩
    · refine ⟨s, found, bindOk.mpr ⟨data, payload, ?_⟩⟩
      simp [taken, clean, Unfinished.close, settledTree clean, others, bind, Except.bind, pure,
        Except.pure]

theorem groupsEnd {d : Document} {params : Params} {id : Nat} {u : Unfinished}
    {gs : List ContentStream} :
    groupsFrom d params id (some u) [] = .ok gs ↔ ∃ t, u.builder.toTree = .ok t ∧
      gs = [⟨id, u.builder.binding, u.backing, t⟩] := by
  simp only [groupsFrom, Unfinished.close, bindOk, pureOk]
  constructor
  · rintro ⟨_, ⟨t, last, rfl⟩, rfl⟩
    exact ⟨t, last, rfl⟩
  · rintro ⟨t, last, rfl⟩
    exact ⟨_, ⟨t, last, rfl⟩, rfl⟩

def origin : Place := ⟨[], 0⟩

-- Where the next stream starts a group, any new builder is in step.
def InStep (p : Place) (params : Params) (current : Option Unfinished) (c : Builder) : Prop :=
  c.params = params ∧ match current with
    | some u => Twins p origin u.builder c
    | none => ∀ binding, Twins p origin (.new binding params) c

namespace InStep
variable {p : Place} {params : Params} {current : Option Unfinished} {c : Builder}

theorem start (binding : Binding) : InStep origin params none (.new binding params) := by
  refine ⟨rfl, fun other => ⟨rfl, rfl, rfl, [], [], [], [], buildsNew _ _, buildsNew _ _, ?_⟩⟩
  exact .top rfl

theorem builder (h : InStep p params current c) (fresh : Binding) :
    Twins p origin (current.getD ⟨.new fresh params, []⟩).builder c := by
  cases current with
  | none => exact h.2 fresh
  | some u => exact h.2

theorem restart {b : Builder} (params' : c.params = params) (h : Twins p origin b c)
    (clean : b.isSettled = true) :
    InStep ⟨p.whole b.tree.outline, p.shift + b.tree.size⟩ params none c := by
  refine ⟨params', fun binding => ?_⟩
  have same : b.params = params := h.params.trans params'
  exact same ▸ h.restart clean binding

end InStep

theorem groupsAlong {d : Document} {params : Params} {nodes : List Nat} {p : Place} {id : Nat}
    {current : Option Unfinished} {c : Builder} {gs : List ContentStream}
    (h : InStep p params current c) (ok : groupsFrom d params id current nodes = .ok gs) :
    ∃ backing c' t, nodes.mapM (Backing.resolve d) = .ok backing ∧ addAll d c backing = .ok c' ∧
      c'.toTree = .ok t ∧ p.done ++ joined p.shift gs = origin.whole t.outline := by
  induction nodes generalizing p id current c gs with
  | nil =>
    cases current with
    | none =>
      obtain rfl : [] = gs := by simpa [groupsFrom] using ok
      obtain ⟨t, last, same⟩ := (h.2 ⟨d.id, ⟨0, 0⟩⟩).toTree (settledTree rfl)
      exact ⟨[], c, t, rfl, rfl, last, same⟩
    | some u =>
      obtain ⟨t₀, last, rfl⟩ := groupsEnd.mp ok
      obtain ⟨t, closed, same⟩ := Twins.toTree h.2 last
      exact ⟨[], c, t, rfl, rfl, closed, by simpa [joined, Place.whole, Place.inside] using same⟩
  | cons node rest ih =>
    obtain ⟨s, data, b, found, payload, taken, ending⟩ := groupsCons.mp ok
    obtain ⟨c₁, taken₁, twins⟩ := (h.builder ⟨d.id, s.ref⟩).addItems taken
    have params₁ : c₁.params = params := (addItemsKept taken₁).1.trans h.1
    have payload₁ : d.streamData s.node = .ok data := resolveNode found ▸ payload
    obtain ⟨busy, more⟩ | ⟨clean, later, more, rfl⟩ := ending
    · obtain ⟨backing, c', t, others, run, closed, same⟩ := ih ⟨params₁, twins⟩ more
      exact ⟨s :: backing, c', t, mapResolve.mpr ⟨s, backing, found, others, rfl⟩,
        addAllCons.mpr ⟨data, c₁, payload₁, taken₁, run⟩, closed, same⟩
    · obtain ⟨backing, c', t, others, run, closed, same⟩ := ih (.restart params₁ twins clean) more
      refine ⟨s :: backing, c', t, mapResolve.mpr ⟨s, backing, found, others, rfl⟩,
        addAllCons.mpr ⟨data, c₁, payload₁, taken₁, run⟩, closed, ?_⟩
      rw [← same]
      simp [joined, Place.whole, Place.inside]

theorem groupsExist {d : Document} {params : Params} {nodes : List Nat} {p : Place} {id : Nat}
    {current : Option Unfinished} {c c' : Builder} {backing : List Backing} {t : OperatorTree}
    (h : InStep p params current c) (found : nodes.mapM (Backing.resolve d) = .ok backing)
    (run : addAll d c backing = .ok c') (closed : c'.toTree = .ok t) :
    ∃ gs, groupsFrom d params id current nodes = .ok gs := by
  induction nodes generalizing p id current c backing with
  | nil =>
    obtain rfl : [] = backing := by simpa [pure, Except.pure] using found
    obtain rfl : c = c' := by simpa [addAll] using run
    cases current with
    | none => exact ⟨[], rfl⟩
    | some u =>
      obtain ⟨t₀, last, -⟩ := (Twins.symm h.2).toTree closed
      exact ⟨_, groupsEnd.mpr ⟨t₀, last, rfl⟩⟩
  | cons node rest ih =>
    obtain ⟨s, later, first, others, rfl⟩ := mapResolve.mp found
    obtain ⟨data, c₁, payload, taken, run⟩ := addAllCons.mp run
    obtain ⟨b, taken₁, twins⟩ := (h.builder ⟨d.id, s.ref⟩).symm.addItems taken
    have params₁ : c₁.params = params := (addItemsKept taken).1.trans h.1
    have payload₁ : d.streamData node = .ok data := resolveNode first ▸ payload
    cases clean : b.isSettled with
    | false =>
      have goesOn : InStep p params (some ⟨b, (current.getD ⟨.new ⟨d.id, s.ref⟩ params, []⟩).backing
          ++ [s]⟩) c₁ := ⟨params₁, twins.symm⟩
      obtain ⟨gs, ok⟩ := ih goesOn others run
      exact ⟨gs, groupsCons.mpr ⟨s, data, b, first, payload₁, taken₁, .inl ⟨clean, ok⟩⟩⟩
    | true =>
      obtain ⟨gs, ok⟩ := ih (.restart params₁ twins.symm clean) others run
      exact ⟨_, groupsCons.mpr ⟨s, data, b, first, payload₁, taken₁, .inr ⟨clean, gs, ok, rfl⟩⟩⟩

theorem makeOk {d : Document} {id node : Nat} {rest : List Nat} {params : Params}
    {s : ContentStream} :
    make d id (node :: rest) params = .ok s ↔ ∃ first later b t,
      (node :: rest).mapM (Backing.resolve d) = .ok (first :: later) ∧
      addAll d (.new ⟨d.id, first.ref⟩ params) (first :: later) = .ok b ∧ b.toTree = .ok t ∧
      s = ⟨id, ⟨d.id, first.ref⟩, first :: later, t⟩ := by
  rw [make, bindOk]
  constructor
  · rintro ⟨backing, found, ok⟩
    obtain ⟨first, later, -, -, rfl⟩ := mapResolve.mp found
    simp only [read, bindOk, pureOk] at ok
    obtain ⟨b, run, t, closed, rfl⟩ := ok
    exact ⟨first, later, b, t, found, run, closed, rfl⟩
  · rintro ⟨first, later, b, t, found, run, closed, rfl⟩
    refine ⟨first :: later, found, ?_⟩
    simp only [read, bindOk, pureOk]
    exact ⟨b, run, t, closed, rfl⟩

/-- Streams are accepted in groups exactly if they are accepted as one content stream, and
then the operators of the groups, numbered on from group to group, are those of the one
stream but for their bindings. -/
theorem groupsJoined (d : Document) (params : Params) (node : Nat) (rest : List Nat)
    (id id' : Nat) :
    ((∃ gs, groups d id (node :: rest) params = .ok gs) ↔
      ∃ s, make d id' (node :: rest) params = .ok s) ∧
    ∀ gs s, groups d id (node :: rest) params = .ok gs →
      make d id' (node :: rest) params = .ok s →
      joined 0 gs = Outline.map (· + 0) Instruction.unbound s.tree.outline := by
  refine ⟨⟨?_, ?_⟩, ?_⟩
  · rintro ⟨gs, ok⟩
    obtain ⟨first, _, _, first', -⟩ := groupsCons.mp ok
    obtain ⟨backing, c', t, found, run, closed, -⟩ := groupsAlong (.start ⟨d.id, first.ref⟩) ok
    obtain ⟨s, later, head, -, rfl⟩ := mapResolve.mp found
    obtain rfl : first = s := by simpa [first'] using head
    exact ⟨_, makeOk.mpr ⟨first, later, c', t, found, run, closed, rfl⟩⟩
  · rintro ⟨s, ok⟩
    obtain ⟨first, later, b, t, found, run, closed, -⟩ := makeOk.mp ok
    exact groupsExist (.start _) found run closed
  · intro gs s ok single
    obtain ⟨first, later, b, t, found, run, closed, rfl⟩ := makeOk.mp single
    obtain ⟨backing, c', t', found', run', closed', same⟩ := groupsAlong (.start ⟨d.id, first.ref⟩) ok
    obtain rfl : first :: later = backing := by simpa [found] using found'
    obtain rfl : b = c' := by simpa [run] using run'
    obtain rfl : t = t' := by simpa [closed] using closed'
    simpa [origin, Place.whole, Place.inside] using same

def threeStreams : Document :=
  ⟨1, #[⟨.stream [] (ascii ['B', 'T']), some ⟨1, 0⟩⟩, ⟨.stream [] (ascii ['E', 'T']), some ⟨2, 0⟩⟩,
    ⟨.stream [] (ascii ['n']), some ⟨3, 0⟩⟩], #[.node 0, .node 1, .node 2], []⟩

theorem groupsJoinedOfThree : ∃ gs s, gs.length = 2 ∧
    groups threeStreams 4 [0, 1, 2] .default = .ok gs ∧
    make threeStreams 9 [0, 1, 2] .default = .ok s ∧
    joined 0 gs = Outline.map (· + 0) Instruction.unbound s.tree.outline := by
  refine ⟨_, _, ?_, rfl, rfl, ?_⟩
  · rfl
  · exact (groupsJoined threeStreams .default 0 [1, 2] 4 9).2 _ _ rfl rfl

end ContentStream

end PageContent
