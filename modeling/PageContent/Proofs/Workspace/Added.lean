import PageContent.Proofs.Builder.Stored
import PageContent.Proofs.Workspace.Rewritten

/-! What is read of content that an edit adds to a page without content. The new stream is none
that a page has read before, so that nothing read before is kept in its place. -/
namespace PageContent

namespace ContentStream
variable {d : Document} {params : Params}

theorem addAllInside {b b' : Builder} {backing : List Backing} (ok : addAll d b backing = .ok b') :
    ∀ s ∈ backing, s.node < d.nodes.size := by
  induction backing generalizing b with
  | nil => simp
  | cons first rest ih =>
    obtain ⟨data, b₁, payload, -, more⟩ := addAllCons.mp ok
    obtain ⟨n, attrs, there, -⟩ := Document.streamDataOk.mp payload
    intro s member
    obtain rfl | later := List.mem_cons.mp member
    · exact (Array.getElem?_eq_some_iff.mp there).1
    · exact ih more s later

theorem rereadInside {s : ContentStream} (ok : s.reread d params = .ok s) :
    ∀ b ∈ s.backing, b.node < d.nodes.size := by
  obtain ⟨first, rest, b, t, -, run, -, -⟩ := readOk.mp ok
  exact addAllInside run

theorem groupsAlone {s : Backing} {n : Nat} {data : Bytes} (found : Backing.resolve d n = .ok s)
    (payload : d.streamData n = .ok data) {binding : Binding} {t : OperatorTree}
    (parsed : OperatorTree.parse data binding params = .ok t) (id : Nat) : ∃ g,
    groups d id [n] params = .ok [g] ∧ g.backing = [s] ∧
      OperatorTree.parse data ⟨d.id, s.ref⟩ params = .ok g.tree := by
  obtain ⟨b, run, closed⟩ := OperatorTree.parseExact.mp parsed
  have resolved : [n].mapM (Backing.resolve d) = .ok [s] := mapResolve.mpr ⟨s, [], found, rfl, rfl⟩
  have whole : addAll d (.new binding params) [s] = .ok b :=
    addAllCons.mpr ⟨data, b, resolveNode found ▸ payload, run, rfl⟩
  obtain ⟨gs, ok⟩ : ∃ gs, groupsFrom d params id none [n] = .ok gs :=
    groupsExist (.start binding) resolved whole closed
  obtain ⟨s', data', b', found', payload', taken, ending⟩ := groupsCons.mp ok
  cases found.symm.trans found'
  cases payload.symm.trans payload'
  have read {t : OperatorTree} (done : b'.toTree = .ok t) :
      OperatorTree.parse data ⟨d.id, s.ref⟩ params = .ok t :=
    OperatorTree.parseExact.mpr ⟨b', taken, done⟩
  obtain ⟨-, more⟩ | ⟨clean, later, more, rfl⟩ := ending
  · obtain ⟨t', done, rfl⟩ := groupsEnd.mp more
    exact ⟨_, ok, rfl, read done⟩
  · cases more
    exact ⟨_, ok, rfl, read (Builder.settledTree clean)⟩

end ContentStream

namespace Page
open Document

variable {d d₁ d₂ : Document} {r : Ref} {data : Bytes} {p : Page} {c : Change}

theorem listedAlone (sound : d.Sound) (dict : d.kind p.node = .ok .dict)
    (bare : d.property? p.node contents = .ok none) (room : d.objects.size + 1 < UInt32.size)
    (added : d.addIndirect (.ofData data) = (d₁, r)) (side : Action.Side) : ∃ d₂ c,
    listed d₁ p.node r side = .ok (d₂, c) ∧ contentNodes d₂ p.node = .ok [d.nodes.size] ∧
      Backing.resolve d₂ d.nodes.size = .ok ⟨d.nodes.size, r⟩ ∧
      d₂.streamData d.nodes.size = .ok data := by
  have stored := addIndirectRevised sound (keyedData data) added
  obtain ⟨stands, payload, numbered⟩ := addDataThere added
  have new : Backing.Holds d₁ ⟨d.nodes.size, r⟩ := ⟨stands, numbered room⟩
  have none : contentNodes d₁ p.node = .ok (List.map Backing.node []) :=
    contentNodesExact.mpr (.inl ⟨(revisedProperty stored dict (by simp) contents).trans bare, rfl⟩)
  obtain ⟨d₂, c, ok, names⟩ := listedNodes stored.sound (stored.kind dict) none
    (fun _ absent => by cases absent) new side
  obtain ⟨changed, quiet, -⟩ := listedChanged stored.sound ok
  refine ⟨d₂, c, ok, ?_, changed.toRevised.backing stands, changed.payloads quiet _ _ payload⟩
  rw [names]
  cases side <;> rfl

end Page

namespace Workspace
open Page PageContent.Action ContentStream

variable {w w' : Workspace} {i : Nat} {still : Prop} {old : List ContentStream}

def Standing (w : Workspace) : Prop := ∀ i, (w.page i).live = true → ∀ s ∈ (w.page i).streams,
  ∀ b ∈ s.backing, b.node < w.home.nodes.size

theorem Step.standing (step : Step still w w') (rooted : Rooted w) (h : Standing w) :
    Standing w' :=
  step.throughout (P := fun d _ s => ∀ b ∈ s.backing, b.node < d.nodes.size) rooted h
    (fun _ inside => inside)
    (fun revised _ inside b behind => Nat.lt_of_lt_of_le (inside b behind) revised.grows) rereadInside

theorem keptFresh {g : ContentStream} {b : Backing} (behind : b ∈ g.backing)
    (fresh : ∀ s ∈ old, ∀ early ∈ s.backing, early.node < b.node) : kept old g = g := by
  obtain same | ⟨before, backing⟩ := keptCases old g
  · exact same
  · exact absurd (fresh _ before b (backing ▸ behind)) (Nat.lt_irrefl _)

theorem refreshAlone (rooted : Rooted w) (live : (w.page i).live = true) {b : Backing} {n : Nat}
    {data : Bytes} (named : contentNodes w.home (w.page i).node = .ok [n])
    (found : Backing.resolve w.home n = .ok b) (payload : w.home.streamData n = .ok data)
    (fresh : ∀ s ∈ (w.page i).streams, ∀ early ∈ s.backing, early.node < n) {binding : Binding}
    {t : OperatorTree} (parsed : OperatorTree.parse data binding (w.page i).params = .ok t) :
    ∃ w' g, (refresh i).on w = (.ok (), w') ∧ (w'.page i).streams = [g] ∧ g.backing = [b] ∧
      OperatorTree.parse data ⟨0, b.ref⟩ (w.page i).params = .ok g.tree := by
  obtain ⟨g, groups, backing, again⟩ := groupsAlone found payload parsed w.nextStream
  have read : (w.page i).readGroups w.home w.nextStream = .ok [g] := bindOk.mpr ⟨[n], named, groups⟩
  obtain ⟨w', done, -, -, page⟩ := refreshOn rooted live read
  have behind : b ∈ g.backing := by rw [backing]; exact List.mem_singleton_self b
  rw [rooted.housed.2] at again
  refine ⟨w', g, done, ?_, backing, again⟩
  rw [page]
  exact congrArg (fun s => [s]) (keptFresh behind (resolveNode found ▸ fresh))

theorem Rooted.dataAdded {d : Document} {r : Ref} {data : Bytes} (rooted : Rooted w)
    (added : w.home.addIndirect (.ofData data) = (d, r)) :
    (addIndirect 0 (.ofData data)).on w = (.ok r, w.setDocument d) ∧ Rooted (w.setDocument d) ∧
      (w.setDocument d).home = d := by
  have stored := Document.addIndirectRevised rooted.sound (keyedData data) added
  have step : Step True w (w.setDocument d) := .revised stored fun _ => stored.keeps.payloads
  exact ⟨by rw [addIndirectOn, added], step.rooted rooted, homeRevised rooted.housed stored⟩

theorem listDone {p : Page} {side : Side} (rooted : Rooted w) (here : p.document = 0) {r : Ref}
    {d : Document} {c : Change} (ok : listed w.home p.node r side = .ok (d, c)) : ∃ w' ws,
    (listRef p r side).on w = (.ok (), w') ∧ Rooted w' ∧ w'.home = { d with watches := ws } ∧
      w.home.Keeps w'.home := by
  rw [listRefOn here]
  exact changeDone rooted
    (fun sound ok => ⟨(listedChanged sound ok).1, (listedChanged sound ok).2.1⟩) ok

theorem listedQuietly (rooted : Rooted w) (live : (w.page i).live = true) {r : Ref} {side : Side}
    {d : Document} {c : Change} (ok : listed w.home (w.page i).node r side = .ok (d, c)) :
    ∃ w₁, (quietly i (listRef (w.page i) r side)).on w = (.ok (), w₁) ∧ Rooted w₁ ∧
      (∃ ws, w₁.home = { d with watches := ws }) ∧
      ∃ watched, w₁.page i = { w.page i with quiet := false, watched := watched } := by
  have here := rooted.here i live
  obtain ⟨w₂, _, run, -, home₂, -⟩ := listDone (rooted.hush i) here ok
  obtain ⟨w₁, quiet, rooted₁, ⟨ws, home₁⟩, page⟩ :=
    quietlyRun rooted live (Leads.listRef here r side) run
  exact ⟨w₁, quiet, rooted₁, ⟨ws, by rw [home₁, home₂]⟩, page⟩

theorem listedRead {d₁ : Document} {r : Ref} {data : Bytes} (rooted : Rooted w)
    (standing : Standing w) (live : (w.page i).live = true)
    (bare : w.home.property? (w.page i).node contents = .ok none)
    (room : w.home.objects.size + 1 < UInt32.size)
    (added : w.home.addIndirect (.ofData data) = (d₁, r)) (side : Side) {binding : Binding}
    {t : OperatorTree} (parsed : OperatorTree.parse data binding (w.page i).params = .ok t) :
    ∃ w₁ w' g, (quietly i (listRef (w.page i) r side)).on (w.setDocument d₁) = (.ok (), w₁) ∧
      (refresh i).on w₁ = (.ok (), w') ∧ (w'.page i).streams = [g] ∧
      g.backing = [⟨w.home.nodes.size, r⟩] ∧
      OperatorTree.parse data ⟨0, r⟩ (w.page i).params = .ok g.tree := by
  obtain ⟨-, stored, home₁⟩ := rooted.dataAdded added
  obtain ⟨d₂, c, ok, named, stands, payload⟩ :=
    listedAlone rooted.sound (rooted.dict i live) bare room added side
  rw [← home₁] at ok
  obtain ⟨w₁, quiet, rooted₁, ⟨ws, home⟩, watched, page⟩ := listedQuietly stored live ok
  have same : w₁.page i = { w.page i with quiet := false, watched := watched } := page
  have alone : contentNodes w₁.home (w₁.page i).node = .ok [w.home.nodes.size] := by
    rw [same, home, contentNodesWatches]
    exact named
  have fresh : ∀ s ∈ (w₁.page i).streams, ∀ b ∈ s.backing, b.node < w.home.nodes.size := by
    rw [same]
    exact standing i live
  obtain ⟨w', g, done, streams, backing, read⟩ := refreshAlone rooted₁
    (by rw [same]; exact live) alone (by rw [home]; exact stands) (by rw [home]; exact payload)
    fresh (by rw [same]; exact parsed)
  rw [same] at read
  exact ⟨w₁, w', g, quiet, done, streams, backing, read⟩

theorem addOn (rooted : Rooted w) (live : (w.page i).live = true)
    (room : w.home.objects.size + 1 < UInt32.size) {side : Side} {pieces : List Bytes}
    {t : OperatorTree} (parsed : OperatorTree.parse (composed (w.page i).params pieces)
      ⟨0, ⟨0, 0⟩⟩ (w.page i).params = .ok t) {d₁ : Document} {r : Ref}
    (added : w.home.addIndirect (.ofData (composed (w.page i).params pieces)) = (d₁, r))
    {w₁ w₂ w₃ : Workspace} {g : ContentStream}
    (quiet : (quietly i (listRef (w.page i) r side)).on (w.setDocument d₁) = (.ok (), w₁))
    (read : (refresh i).on w₁ = (.ok (), w₂)) (found : (w₂.page i).streams.find?
      (fun s => s.backing.any (·.node = w.home.nodes.size)) = some g)
    (counted : (changed i).on w₂ = (.ok (), w₃)) : (add i side pieces).on w = (.ok g, w₃) := by
  obtain ⟨first, -, home₁⟩ := rooted.dataAdded added
  obtain ⟨-, -, numbered⟩ := Document.addDataThere added
  unfold add
  rw [liveBound live]
  dsimp only
  rw [rooted.here i live, parsed, okBound, thenBound first, documentBound (rooted.here i live),
    home₁, numbered room, okBound, thenBound quiet, thenBound read, getBound, found]
  exact thenBound counted _

theorem addedRead (rooted : Rooted w) (standing : Standing w) (live : (w.page i).live = true)
    (bare : w.home.property? (w.page i).node contents = .ok none)
    (room : w.home.objects.size + 1 < UInt32.size) (side : Side) {pieces : List Bytes}
    {t : OperatorTree} (parsed : OperatorTree.parse (composed (w.page i).params pieces)
      ⟨0, ⟨0, 0⟩⟩ (w.page i).params = .ok t) : ∃ s r w', (add i side pieces).on w = (.ok s, w') ∧
      OperatorTree.parse (composed (w.page i).params pieces) ⟨0, r⟩ (w.page i).params = .ok s.tree := by
  cases added : w.home.addIndirect (.ofData (composed (w.page i).params pieces)) with
  | mk d₁ r =>
    obtain ⟨w₁, w', g, quiet, read, streams, backing, again⟩ :=
      listedRead rooted standing live bare room added side parsed
    have found : (w'.page i).streams.find?
        (fun s => s.backing.any (·.node = w.home.nodes.size)) = some g := by
      simp [streams, backing]
    exact ⟨g, r, _, addOn rooted live room parsed added quiet read found (changedOn w' i), again⟩

theorem addRefused (rooted : Rooted w) (live : (w.page i).live = true) {side : Side}
    {pieces : List Bytes} {fault : Fault} (refused : OperatorTree.parse
      (composed (w.page i).params pieces) ⟨0, ⟨0, 0⟩⟩ (w.page i).params = .error fault) :
    (add i side pieces).on w = (.error fault, w) := by
  unfold add
  rw [liveBound live]
  dsimp only
  rw [rooted.here i live, refused]
  rfl

end Workspace

namespace Session
open Workspace Page PageContent.Action

theorem Ran.standing {calls : List Call} {s : Session} (ran : Ran calls s) :
    Standing s.workspace := by
  refine (ran.steps.keeps startRooted (fun i live => ?_) fun rooted step h =>
    step.standing rooted h).2
  cases live

/-- What an edit adds to an open page is refused if its text cannot be read, and then nothing has
changed. If the page had no content, all other text is accepted, and the new content stream tells
the mark of the edit and the operators given, in order and with all they hold, exactly if each of
them could have been read and brings no blank before the end marker of its data, and none ends a
block that another one began. -/
theorem addedAsGiven {calls : List Call} {s : Session} (ran : Ran calls s) {i : Nat}
    (live : (s.workspace.page i).live = true)
    (bare : s.workspace.home.property? (s.workspace.page i).node contents = .ok none)
    (room : s.workspace.home.objects.size + 1 < UInt32.size) {ops : List Instruction}
    (exact : ∀ op ∈ ops, op.Exact) (side : Side) :
    let params := (s.workspace.page i).params
    let read := OperatorTree.parse (composed params (ops.map Instruction.written))
      ⟨0, ⟨0, 0⟩⟩ params
    let added := (add i side (ops.map Instruction.written)).on s.workspace
    (∀ fault, read = .error fault → added = (.error fault, s.workspace)) ∧
    ∀ t, read = .ok t → ∃ stream, added.1 = .ok stream ∧
      (stream.tree.told = (params.marks ++ ops).map Instruction.told ↔
        (∀ op ∈ ops, op.Legible ∧ op.resealed = op) ∧ Instruction.kept [] ops = ops) := by
  refine ⟨fun fault => addRefused ran.rooted live, fun t parsed => ?_⟩
  obtain ⟨stream, r, w', done, read⟩ :=
    addedRead ran.rooted ran.standing live bare room side parsed
  exact ⟨stream, congrArg Prod.fst done, OperatorTree.composedExact exact read⟩

def bareCalls : List Call :=
  [.openPage 0 ⟨false, some "edited", 64⟩ .latin1, .addIndirect (.dict [])]

theorem bareRan : Ran bareCalls (afterAll bareCalls) := by
  have keyed : (Object.dict []).Keyed := ⟨by simp, trivial⟩
  exact (Ran.start.call (.addIndirect (.dict [])) keyed).call (.openPage 0 _ .latin1) trivial

def plainOps : List Instruction :=
  [.block ⟨.fixed "BT" [], []⟩ none, .unknown "again" [.ofName "a b"], .image [] (ascii ['x'])]

theorem plainExact : ∀ op ∈ plainOps, op.Exact := by
  simp [plainOps, Instruction.Exact, Instruction.allOperands, Operand.ofName, Operand.Readable,
    Operand.Realless, Scalar.Readable, Scalar.kind, Dict.Distinct]

theorem plainLegible : ∀ op ∈ plainOps, op.Legible ∧ op.resealed = op := by
  have text : Lexeme.Spoken "BT" := ⟨0x42, [0x54], rfl, Lexer.plainWord rfl, rfl⟩
  have again : Lexeme.Spoken "again" :=
    ⟨0x61, [0x67, 0x61, 0x69, 0x6e], rfl, Lexer.plainWord rfl, rfl⟩
  intro op member
  simp only [plainOps, List.mem_cons, List.not_mem_nil, or_false] at member
  obtain rfl | rfl | rfl := member
  · exact ⟨⟨⟨text, by decide⟩, by decide⟩, rfl⟩
  · exact ⟨⟨⟨again, by decide⟩, by decide⟩, rfl⟩
  · refine ⟨⟨by simp [Dict.Distinct], by simp, fun _ => ⟨?_, trivial⟩, fun ending => ?_⟩, rfl⟩
    · rintro ⟨marked, -⟩
      cases marked
    · cases ending

theorem addedPlain : Ran bareCalls (afterAll bareCalls) ∧ ∃ stream,
    ((add 0 .back (plainOps.map Instruction.written)).on (afterAll bareCalls).workspace).1 =
      .ok stream ∧
    stream.tree.told = (Instruction.mark "edited" :: plainOps).map Instruction.told := by
  have readable : ((OperatorTree.parse (composed ((afterAll bareCalls).workspace.page 0).params
      (plainOps.map Instruction.written)) ⟨0, ⟨0, 0⟩⟩
      ((afterAll bareCalls).workspace.page 0).params).map fun _ => ()) = .ok () := by decide +kernel
  obtain ⟨t, parsed, -⟩ := mapOk.mp readable
  have whole : Instruction.kept [] plainOps = plainOps := rfl
  obtain ⟨stream, done, told⟩ := (addedAsGiven bareRan (i := 0) (by decide +kernel)
    (by decide +kernel) (by decide +kernel) plainExact .back).2 t parsed
  exact ⟨bareRan, stream, done, told.mpr ⟨plainLegible, whole⟩⟩

-- The data goes on behind what reads as its end.
def endingImage : List Instruction := [.image [] (ascii ['a', ' ', 'E', 'I', ' ', 'n'])]

theorem lostImage : Ran bareCalls (afterAll bareCalls) ∧ (∀ op ∈ endingImage, op.Exact) ∧ ∃ stream,
    ((add 0 .back (endingImage.map Instruction.written)).on (afterAll bareCalls).workspace).1 =
      .ok stream ∧
    ((Outline.entries stream.tree.outline).map fun e => e.2.name) = ["MP", "BI", "n", "EI"] ∧
    stream.tree.told ≠ (Instruction.mark "edited" :: endingImage).map Instruction.told := by
  have named : (((add 0 .back (endingImage.map Instruction.written)).on
      (afterAll bareCalls).workspace).1.map fun stream =>
        (Outline.entries stream.tree.outline).map fun e => e.2.name) =
      .ok ["MP", "BI", "n", "EI"] := by decide +kernel
  obtain ⟨stream, done, names⟩ := mapOk.mp named
  refine ⟨bareRan, ?_, stream, done, names, fun same => ?_⟩
  · simp [endingImage, Instruction.Exact, Instruction.allOperands, Dict.Distinct]
  · have four := congrArg List.length names
    have two := congrArg List.length same
    rw [List.length_map] at four
    rw [OperatorTree.told, List.length_map, four] at two
    cases two

end Session

end PageContent
