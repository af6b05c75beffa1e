import Mathlib.Data.List.Nodup
import PageContent.Proofs.ContentStream.Grouping

/-! Every group is what its own backing streams are read as, and groups depend on nothing
else in a document than the streams they are read from. -/
namespace PageContent.ContentStream
open Builder

def unnumbered (s : ContentStream) : ContentStream := { s with id := 0 }

theorem addAllLast {d : Document} {b b' : Builder} {s : Backing} {done : List Backing} :
    addAll d b (done ++ [s]) = .ok b' ↔ ∃ c data, addAll d b done = .ok c ∧
      d.streamData s.node = .ok data ∧ c.addData data = (b', none) := by
  induction done generalizing b with
  | nil =>
    rw [List.nil_append, addAllCons]
    constructor
    · rintro ⟨data, b₁, payload, taken, last⟩
      cases last
      exact ⟨b, data, rfl, payload, taken⟩
    · rintro ⟨c, data, first, payload, taken⟩
      cases first
      exact ⟨data, b', payload, taken, rfl⟩
  | cons first rest ih =>
    simp only [List.cons_append, addAllCons, ih]
    constructor
    · rintro ⟨data, b₁, payload, taken, c, data', run, more⟩
      exact ⟨c, data', ⟨data, b₁, payload, taken, run⟩, more⟩
    · rintro ⟨c, data', ⟨data, b₁, payload, taken, run⟩, more⟩
      exact ⟨data, b₁, payload, taken, c, data', run, more⟩

theorem readOk {d : Document} {id : Nat} {backing : List Backing} {params : Params}
    {s : ContentStream} : read d id backing params = .ok s ↔ ∃ first rest b t,
      backing = first :: rest ∧ addAll d (.new ⟨d.id, first.ref⟩ params) backing = .ok b ∧
      b.toTree = .ok t ∧ s = ⟨id, ⟨d.id, first.ref⟩, backing, t⟩ := by
  cases backing with
  | nil => simp [read]
  | cons first rest =>
    simp only [read, bindOk, pureOk]
    constructor
    · rintro ⟨b, run, t, closed, rfl⟩
      exact ⟨first, rest, b, t, rfl, run, closed, rfl⟩
    · rintro ⟨_, _, b, t, same, run, closed, rfl⟩
      cases same
      exact ⟨b, run, t, closed, rfl⟩

def Unfinished.Begun (d : Document) (params : Params) (u : Unfinished) : Prop :=
  ∃ first rest, u.backing = first :: rest ∧
    addAll d (.new ⟨d.id, first.ref⟩ params) u.backing = .ok u.builder

theorem Unfinished.Begun.next {d : Document} {params : Params} {current : Option Unfinished}
    (begun : ∀ u, current = some u → u.Begun d params) {node : Nat} {s : Backing} {data : Bytes}
    {b : Builder} (found : Backing.resolve d node = .ok s) (payload : d.streamData node = .ok data)
    (taken : (current.getD ⟨.new ⟨d.id, s.ref⟩ params, []⟩).builder.addData data = (b, none)) :
    (Unfinished.mk b ((current.getD ⟨.new ⟨d.id, s.ref⟩ params, []⟩).backing ++ [s])).Begun
      d params := by
  have payload' : d.streamData s.node = .ok data := resolveNode found ▸ payload
  cases current with
  | none => exact ⟨s, [], rfl, addAllLast.mpr ⟨_, data, rfl, payload', taken⟩⟩
  | some u =>
    obtain ⟨first, rest, backing, run⟩ := begun u rfl
    exact ⟨first, rest ++ [s], by simp [backing], addAllLast.mpr ⟨_, data, run, payload', taken⟩⟩

theorem Unfinished.Begun.read {d : Document} {params : Params} {u : Unfinished}
    (begun : u.Begun d params) {t : OperatorTree} (closed : u.builder.toTree = .ok t) (id : Nat) :
    ContentStream.read d id u.backing params = .ok ⟨id, u.builder.binding, u.backing, t⟩ := by
  obtain ⟨first, rest, backing, run⟩ := begun
  have binding : ∀ {backing : List Backing} {b c : Builder}, addAll d b backing = .ok c →
      c.binding = b.binding := by
    intro backing
    induction backing with
    | nil => rintro b c ⟨⟩; rfl
    | cons s rest ih =>
      intro b c run
      obtain ⟨data, b₁, -, taken, more⟩ := addAllCons.mp run
      exact (ih more).trans (addItemsKept taken).2
  exact readOk.mpr ⟨first, rest, _, t, backing, run, closed, by rw [binding run]; rfl⟩

theorem groupsExact {d : Document} {params : Params} {id : Nat} {current : Option Unfinished}
    {nodes : List Nat} {gs : List ContentStream} (ok : groupsFrom d params id current nodes = .ok gs)
    (begun : ∀ u, current = some u → u.Begun d params) :
    (∃ backing, nodes.mapM (Backing.resolve d) = .ok backing ∧
      gs.flatMap ContentStream.backing = (current.elim [] Unfinished.backing) ++ backing) ∧
    gs.map ContentStream.id = List.range' id gs.length ∧
    ∀ g ∈ gs, read d g.id g.backing params = .ok g := by
  induction nodes generalizing id current gs with
  | nil =>
    cases current with
    | none =>
      obtain rfl : [] = gs := by simpa [groupsFrom] using ok
      exact ⟨⟨[], rfl, rfl⟩, rfl, by simp⟩
    | some u =>
      obtain ⟨t, closed, rfl⟩ := groupsEnd.mp ok
      have read := (begun u rfl).read closed id
      exact ⟨⟨[], rfl, by simp⟩, rfl, by simpa using read⟩
  | cons node rest ih =>
    obtain ⟨s, data, b, found, payload, taken, ending⟩ := groupsCons.mp ok
    have next := Unfinished.Begun.next begun found payload taken
    have whole : (current.getD ⟨.new ⟨d.id, s.ref⟩ params, []⟩).backing =
        current.elim [] Unfinished.backing := by
      cases current <;> rfl
    obtain ⟨busy, more⟩ | ⟨clean, later, more, rfl⟩ := ending
    · obtain ⟨⟨backing, others, same⟩, numbers, each⟩ := ih more fun u same => by
        cases same
        exact next
      refine ⟨⟨s :: backing, mapResolve.mpr ⟨s, backing, found, others, rfl⟩, ?_⟩, numbers, each⟩
      rw [same, ← whole]
      simp
    · obtain ⟨⟨backing, others, same⟩, numbers, each⟩ := ih more fun u same => by cases same
      refine ⟨⟨s :: backing, mapResolve.mpr ⟨s, backing, found, others, rfl⟩, ?_⟩, ?_, ?_⟩
      · rw [List.flatMap_cons, same, ← whole]
        simp
      · simp [numbers, List.range'_succ]
      · intro g member
        obtain rfl | after := List.mem_cons.mp member
        · exact next.read (settledTree clean) id
        · exact each g after

def nodes (streams : List ContentStream) : List Nat :=
  (streams.flatMap ContentStream.backing).map Backing.node

theorem mapResolveNodes {d : Document} {nodes : List Nat} {backing : List Backing}
    (ok : nodes.mapM (Backing.resolve d) = .ok backing) :
    backing.map Backing.node = nodes ∧ ∀ b ∈ backing, Backing.resolve d b.node = .ok b := by
  induction nodes generalizing backing with
  | nil =>
    obtain rfl : [] = backing := by simpa [pure, Except.pure] using ok
    exact ⟨rfl, by simp⟩
  | cons node rest ih =>
    obtain ⟨s, later, first, others, rfl⟩ := mapResolve.mp ok
    obtain ⟨same, each⟩ := ih others
    have node' := resolveNode first
    refine ⟨by simp [same, node'], ?_⟩
    intro b member
    obtain rfl | after := List.mem_cons.mp member
    · rw [node']
      exact first
    · exact each b after

theorem groupsOf {d : Document} {params : Params} {id : Nat} {ns : List Nat}
    {gs : List ContentStream} (ok : groups d id ns params = .ok gs) :
    nodes gs = ns ∧ (∀ b ∈ gs.flatMap ContentStream.backing, Backing.resolve d b.node = .ok b) ∧
    gs.map ContentStream.id = List.range' id gs.length ∧
    ∀ g ∈ gs, read d g.id g.backing params = .ok g := by
  obtain ⟨⟨backing, found, same⟩, numbers, each⟩ := groupsExact ok fun u same => by cases same
  obtain rfl : gs.flatMap ContentStream.backing = backing := same
  obtain ⟨listed, resolved⟩ := mapResolveNodes found
  exact ⟨listed, resolved, numbers, each⟩

theorem numberedApart {gs : List ContentStream} {next : Nat}
    (numbers : gs.map ContentStream.id = List.range' next gs.length) :
    (∀ g ∈ gs, next ≤ g.id ∧ g.id < next + gs.length) ∧ ∀ g ∈ gs, ∀ h ∈ gs, g.id = h.id → g = h := by
  refine ⟨fun g member => ?_, fun g there h there' same => ?_⟩
  · have number : g.id ∈ gs.map ContentStream.id := List.mem_map_of_mem member
    rwa [numbers, List.mem_range'_1] at number
  · have apart : (gs.map ContentStream.id).Nodup := numbers ▸ List.nodup_range'
    exact List.inj_on_of_nodup_map apart there there' same

theorem groupsSame {d d' : Document} {params : Params} {id : Nat} {current : Option Unfinished}
    {ns : List Nat} (sameId : d'.id = d.id) (same : ∀ n ∈ ns,
      Backing.resolve d' n = Backing.resolve d n ∧ d'.streamData n = d.streamData n) :
    groupsFrom d' params id current ns = groupsFrom d params id current ns := by
  induction ns generalizing id current with
  | nil => cases current <;> rfl
  | cons node rest ih =>
    obtain ⟨backing, data⟩ := same node List.mem_cons_self
    have later := fun {id : Nat} {current : Option Unfinished} =>
      @ih id current fun n member => same n (List.mem_cons_of_mem _ member)
    simp only [groupsFrom, backing, data, sameId, later]

theorem groupsRenumbered {d : Document} {params : Params} {id : Nat} {current : Option Unfinished}
    {ns : List Nat} {gs : List ContentStream} (ok : groupsFrom d params id current ns = .ok gs)
    (id' : Nat) : ∃ gs', groupsFrom d params id' current ns = .ok gs' ∧
      gs'.map unnumbered = gs.map unnumbered := by
  induction ns generalizing id id' current gs with
  | nil =>
    cases current with
    | none => exact ⟨gs, ok, rfl⟩
    | some u =>
      obtain ⟨t, closed, rfl⟩ := groupsEnd.mp ok
      exact ⟨_, groupsEnd.mpr ⟨t, closed, rfl⟩, rfl⟩
  | cons node rest ih =>
    obtain ⟨s, data, b, found, payload, taken, ending⟩ := groupsCons.mp ok
    obtain ⟨busy, more⟩ | ⟨clean, later, more, rfl⟩ := ending
    · obtain ⟨gs', more', same⟩ := ih more id'
      exact ⟨gs', groupsCons.mpr ⟨s, data, b, found, payload, taken, .inl ⟨busy, more'⟩⟩, same⟩
    · obtain ⟨gs', more', same⟩ := ih more (id' + 1)
      refine ⟨_, groupsCons.mpr ⟨s, data, b, found, payload, taken,
        .inr ⟨clean, gs', more', rfl⟩⟩, ?_⟩
      simp [same, unnumbered]

end PageContent.ContentStream
