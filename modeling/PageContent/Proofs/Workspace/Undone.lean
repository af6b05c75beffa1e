import PageContent.Proofs.Workspace.Inserted
import PageContent.Proofs.Workspace.UpToDate

/-! What is added to a page and then removed. The new content stream joins no other one if none
leaves a block open, so that all others are found again when it comes and when it goes. -/
namespace PageContent

namespace ContentStream
open PageContent.Action (Side)

variable {d : Document} {params : Params} {old gs streams : List ContentStream} {g : ContentStream}
  {b : Backing}

theorem behindPut (side : Side) (one : g.backing = [b]) (streams : List ContentStream) :
    (side.put g streams).flatMap ContentStream.backing =
      side.put b (streams.flatMap ContentStream.backing) := by
  cases side <;> simp [Side.put, one]

theorem separateAlone {data : Bytes} (stands : Backing.resolve d b.node = .ok b)
    (payload : d.streamData b.node = .ok data) {binding : Binding} {t : OperatorTree}
    (parsed : OperatorTree.parse data binding params = .ok t) (ended : t.Ended) :
    ∃ g, g.backing = [b] ∧ g.tree.Ended ∧ Separate d params g := by
  obtain ⟨g, groups, one, again⟩ := groupsAlone stands payload parsed 0
  have closed := OperatorTree.endedRebound parsed again ended
  refine ⟨g, one, closed, groupsSeparate groups (fun h there => ?_) g (List.mem_singleton_self g)⟩
  exact List.mem_singleton.mp there ▸ closed

theorem keptPut {side : Side} (apart : (old.map ContentStream.backing).Nodup)
    (one : g.backing = [b]) (fresh : ∀ s ∈ old, ∀ early ∈ s.backing, early.node < b.node)
    (same : gs.map unnumbered = (side.put g old).map unnumbered) :
    ∃ new, gs.map (kept old) = side.put new old ∧ new.unnumbered = g.unnumbered := by
  rw [side.mapPut] at same
  obtain ⟨new, others, rfl, like, rest⟩ := side.putMap same
  have backing : new.backing = [b] := (congrArg ContentStream.backing like).trans one
  have behind : b ∈ new.backing := by rw [backing]; exact List.mem_singleton_self b
  refine ⟨new, ?_, like⟩
  rw [side.mapPut, Workspace.keptFresh behind fresh, keptAll apart (fun _ there => there) rest]

theorem nodesOnce (holds : ∀ s ∈ streams, ∀ b ∈ s.backing, b.Holds d)
    (once : (refs streams).Nodup) : (nodes streams).Nodup := by
  obtain ⟨bs, allNodes, allRefs⟩ := Held.ofStreams holds
  rw [allRefs] at once
  rw [allNodes]
  exact (List.Nodup.of_map _ once).map Held.nodeInjective

end ContentStream

namespace Workspace
open Page PageContent.Action ContentStream

variable {w w' : Workspace} {i : Nat} {side : Side} {pieces : List Bytes} {g : ContentStream}
  {before after : List ContentStream}

theorem Named.put {d d₁ : Document} {p : Page} {streams : List ContentStream}
    (named : Named d p streams) (sound : d.Sound) (dict : d.kind p.node = .ok .dict)
    (ended : ∀ s ∈ streams, s.tree.Ended) {data : Bytes} {r : Ref}
    (added : d.addIndirect (.ofData data) = (d₁, r)) (room : d.objects.size + 1 < UInt32.size)
    (side : Side) {binding : Binding} {t : OperatorTree}
    (parsed : OperatorTree.parse data binding p.params = .ok t) (closed : t.Ended) : ∃ g d₂ c,
    listed d₁ p.node r side = .ok (d₂, c) ∧
      contentNodes d₂ p.node = .ok (nodes (side.put g streams)) ∧
      g.backing = [⟨d.nodes.size, r⟩] ∧ g.tree.Ended ∧ Whole d₁ p.params (side.put g streams) ∧
      ∀ s ∈ side.put g streams, ∀ b ∈ s.backing, b.Holds d₁ := by
  have stored := Document.addIndirectRevised sound (keyedData _) added
  obtain ⟨stands, payload, numbered⟩ := Document.addDataThere added
  have new : Backing.Holds d₁ ⟨d.nodes.size, r⟩ := ⟨stands, numbered room⟩
  obtain ⟨g, one, gEnded, separate⟩ := separateAlone (b := ⟨d.nodes.size, r⟩) stands payload parsed closed
  have holds : ∀ s ∈ side.put g streams, ∀ b ∈ s.backing, b.Holds d₁ := by
    intro s there b behind
    obtain rfl | before := side.memberPut.mp there
    · rw [one] at behind
      exact List.mem_singleton.mp behind ▸ new
    · exact (named.holds s before b behind).revised stored
  have names : contentNodes d₁ p.node = .ok (nodes streams) :=
    revisedContentNodes stored (revisedProperty stored dict (by simp) contents)
      (fun _ _ => by simp) named.names
  obtain ⟨d₂, c, ok, left⟩ := listedNodes stored.sound (stored.kind dict) names
    (fun b behind => by
      obtain ⟨s, there, inside⟩ := List.mem_flatMap.mp behind
      exact holds s (side.memberPut.mpr (.inr there)) b inside) new side
  refine ⟨g, d₂, c, ok, ?_, one, gEnded, Whole.ofSeparate fun s there => ?_, holds⟩
  · rw [left, nodes, behindPut side one]
  · obtain rfl | before := side.memberPut.mp there
    · exact separate
    · exact (named.whole.keeps stored.keeps named.holds).separate ended s before

theorem nodesCut {d : Document}
    (holds : ∀ s ∈ before ++ g :: after, ∀ b ∈ s.backing, b.Holds d)
    (once : (refs (before ++ g :: after)).Nodup) :
    (nodes (before ++ g :: after)).diff (g.backing.map Backing.node) = nodes (before ++ after) := by
  have distinct := nodesOnce holds once
  have parts : nodes (before ++ g :: after) =
      nodes before ++ (g.backing.map Backing.node ++ nodes after) := by simp [nodes]
  rw [parts] at distinct ⊢
  have apart := (List.nodup_append.mp distinct).2.2
  rw [diffMiddle fun n there early => apart n early n (List.mem_append_left _ there) rfl]
  simp [nodes]

theorem placeThere {p : Page} (there : g ∈ p.streams) : ∃ k, p.place g.id = .ok k := by
  cases found : p.streams.findIdx? (·.id = g.id) with
  | none =>
    have missed := List.findIdx?_eq_none_iff.mp found g there
    simp at missed
  | some k => exact ⟨k, by rw [place, found]⟩

theorem cutDone (rooted : Rooted w) (h : UpToDate i w) (once : (w.references i).Nodup)
    (ended : ∀ s ∈ (w.page i).streams, s.tree.Ended)
    (split : (w.page i).streams = before ++ g :: after) : ∃ w',
    (removeStream i g).on w = (.ok (), w') ∧ Rooted w' ∧ UpToDate i w' ∧
      (w'.page i).streams = before ++ after := by
  have here := rooted.here i h.live
  have named := h.named rooted
  have there : g ∈ (w.page i).streams := by rw [split]; simp
  have part : before ++ after ⊆ (w.page i).streams := by rw [split]; simp
  obtain ⟨k, placed⟩ := placeThere there
  obtain ⟨v, found⟩ : ∃ v, w.home.property? (w.page i).node contents = .ok (some v) := by
    obtain ⟨-, none⟩ | ⟨v, -, found, -⟩ := contentNodesExact.mp named.names
    · obtain ⟨b, behind⟩ := List.exists_mem_of_ne_nil _ (named.some g there)
      have listed : b.node ∈ nodes (w.page i).streams :=
        List.mem_map_of_mem (List.mem_flatMap.mpr ⟨g, there, behind⟩)
      rw [none] at listed
      cases listed
    · exact ⟨v, found⟩
  have some : (nodes (w.page i).streams).Perm
      (g.backing.map Backing.node ++ nodes (before ++ after)) := split ▸ nodesMiddle before after g
  obtain ⟨w₁, run, left, keeps⟩ := unlistedAll (rooted.hush i) here (rooted.dict i h.live)
    named.names some (named.holds g there)
  have cut : (nodes (w.page i).streams).diff (g.backing.map Backing.node) =
      nodes (before ++ after) := by
    have holds := named.holds
    have distinct := h.references rooted ▸ once
    rw [split] at holds distinct ⊢
    exact nodesCut holds distinct
  rw [cut] at left
  obtain ⟨w₂, w₃, w₄, quiet, read, counted, rooted₄, fresh, -, -, streams⟩ :=
    h.rearranged rooted once ended (Leads.unlistAll here g.backing) run keeps part left
  refine ⟨w₄, ?_, rooted₄, fresh, streams⟩
  unfold removeStream
  rw [liveBound h.live, placed, okBound, documentBound here, found,
    okBound]
  exact (thenBound quiet _).trans ((thenBound read _).trans counted)

theorem addedDone (rooted : Rooted w) (standing : Standing w) (h : UpToDate i w)
    (distinct : (w.references i).Nodup) (ended : ∀ s ∈ (w.page i).streams, s.tree.Ended)
    (room : w.home.objects.size + 1 < UInt32.size) (side : Side) {t : OperatorTree}
    (parsed : OperatorTree.parse (composed (w.page i).params pieces) ⟨0, ⟨0, 0⟩⟩
      (w.page i).params = .ok t) (closed : t.Ended) : ∃ g w' r,
    (add i side pieces).on w = (.ok g, w') ∧ Rooted w' ∧ UpToDate i w' ∧
      (w'.page i).streams = side.put g (w.page i).streams ∧ g.tree.Ended ∧
      g.backing = [⟨w.home.nodes.size, r⟩] ∧ w.home.indirect r = .error (.noObject r) := by
  have here := rooted.here i h.live
  have named := h.named rooted
  cases added : w.home.addIndirect (.ofData (composed (w.page i).params pieces)) with
  | mk d₁ r =>
    obtain ⟨-, rooted₁, home₁⟩ := rooted.dataAdded added
    change ((w.setDocument d₁).hush i).home = d₁ at home₁
    obtain ⟨g, d₂, c, ok, names, one, gEnded, whole, holds⟩ :=
      named.put rooted.sound (rooted.dict i h.live) ended added room side parsed closed
    rw [← home₁] at ok
    obtain ⟨w₂, ws, run, -, home₂, keeps⟩ := listDone (rooted₁.hush i) here ok
    rw [home₁] at keeps
    have names₂ : contentNodes w₂.home (w.page i).node =
        .ok (nodes (side.put g (w.page i).streams)) := by
      rw [home₂, contentNodesWatches]
      exact names
    obtain ⟨w₃, w₄, gs, quiet, read, rooted₄, -, same, ⟨next, again⟩, watched, page⟩ :=
      renewedUpToDate rooted₁ h.live (Leads.listRef here r side) run names₂ (whole.keeps keeps holds)
    rw [h.references rooted] at distinct
    obtain ⟨new, kept', like⟩ :=
      keptPut (backingsApart named.some distinct) one (standing i h.live) same
    have behind : new.backing = [⟨w.home.nodes.size, r⟩] :=
      (congrArg ContentStream.backing like).trans one
    have tree : new.unnumbered.tree = g.unnumbered.tree := congrArg ContentStream.tree like
    have streams : (w₄.page i).streams = side.put new (w.page i).streams := by
      rw [page]
      exact kept'
    have fresh : UpToDate i w₄ := by
      refine ⟨by rw [page]; exact h.live, next, gs, again, ?_⟩
      rw [streams, same, side.mapPut, side.mapPut, like]
    have found : (w₄.page i).streams.find?
        (fun s => s.backing.any (·.node = w.home.nodes.size)) = some new := by
      rw [streams]
      refine side.findPut (by simp [behind]) fun s there => ?_
      refine List.any_eq_false.mpr fun b inside => ?_
      simpa using Nat.ne_of_lt (standing i h.live s there b inside)
    obtain ⟨w₅, counted, rooted₅, fresh₅, -, page₅⟩ := fresh.counted rooted₄
    have run := addOn rooted h.live room parsed added quiet read found counted
    exact ⟨new, w₅, r, run, rooted₅, fresh₅, by rw [page₅]; exact streams, tree.symm ▸ gEnded,
      behind, Document.addDataFresh added room⟩

end Workspace

namespace Session
open Workspace Page ContentStream PageContent.Action

/-- What a page holds was just read, `/Contents` names each stream once or is absent, and no content
stream leaves a block open. Then text that is read with every block closed comes first or last as a
content stream with one new object behind it, while numbers for objects last, and all others stay.
Removed again, it leaves the list and the references as they were, whatever `/Contents` held. -/
theorem addedAndRemoved {calls : List Call} {s : Session} (ran : Ran calls s) {i : Nat}
    (fresh : UpToDate i s.workspace) (distinct : (s.workspace.references i).Nodup)
    (ended : ∀ g ∈ (s.workspace.page i).streams, g.tree.Ended)
    (room : s.workspace.home.objects.size + 1 < UInt32.size) (side : Side) {pieces : List Bytes}
    {t : OperatorTree} (parsed : OperatorTree.parse (composed (s.workspace.page i).params pieces)
      ⟨0, ⟨0, 0⟩⟩ (s.workspace.page i).params = .ok t) (closed : t.Ended) :
    let w := s.workspace
    ∃ g w' w'' r m, (add i side pieces).on w = (.ok g, w') ∧ g.backing = [⟨m, r⟩] ∧
      w.home.indirect r = .error (.noObject r) ∧ w.home.nodes[m]? = none ∧
      (w'.page i).streams = side.put g (w.page i).streams ∧
      (removeStream i g).on w' = (.ok (), w'') ∧
      (w''.page i).streams = (w.page i).streams ∧ w''.references i = w.references i := by
  intro w
  have named := fresh.named ran.rooted
  obtain ⟨g, w', r, added, rooted', fresh', streams', gEnded, one, free⟩ :=
    addedDone ran.rooted ran.standing fresh distinct ended room side parsed closed
  have new : r ∉ w.references i := by
    rw [fresh.references ran.rooted]
    intro there
    obtain ⟨b, behind, rfl⟩ := List.mem_map.mp there
    obtain ⟨s, member, inside⟩ := List.mem_flatMap.mp behind
    have found := (named.holds s member b inside).2
    rw [free] at found
    cases found
  have distinct' : (w'.references i).Nodup := by
    rw [fresh'.references rooted', streams', refs, behindPut side one, side.mapPut,
      (side.putPerm _ _).nodup_iff, List.nodup_cons]
    rw [fresh.references ran.rooted] at new distinct
    exact ⟨new, distinct⟩
  have ended' : ∀ s ∈ (w'.page i).streams, s.tree.Ended := by
    intro s there
    rw [streams'] at there
    obtain rfl | before := side.memberPut.mp there
    · exact gEnded
    · exact ended s before
  obtain ⟨before, after, split, whole⟩ := side.putSplit g (w.page i).streams
  obtain ⟨w'', removed, rooted'', fresh'', streams''⟩ :=
    cutDone rooted' fresh' distinct' ended' (streams'.trans split)
  rw [whole] at streams''
  refine ⟨g, w', w'', r, w.home.nodes.size, added, one, free, Array.getElem?_size, streams', removed,
    streams'', ?_⟩
  rw [fresh''.references rooted'', streams'', ← fresh.references ran.rooted]

def aloneCalls : List Call :=
  [.openPage 1 .default .latin1, .addIndirect (.dict [("Contents", .ref ⟨1, 0⟩)]),
    .addIndirect (.ofData (ascii ['n']))]

theorem aloneRan : Ran aloneCalls (afterAll aloneCalls) := by
  have keyed : (Object.dict [("Contents", .ref ⟨1, 0⟩)]).Keyed := ⟨by simp, trivial, trivial⟩
  exact ((Ran.start.call (.addIndirect (.ofData (ascii ['n']))) (keyedData _)).call
    (.addIndirect (.dict [("Contents", .ref ⟨1, 0⟩)])) keyed).call
    (.openPage 1 .default .latin1) trivial

theorem addedAndRemovedOfOne : Ran aloneCalls (afterAll aloneCalls) ∧
    let w := (afterAll (.load 0 :: aloneCalls)).workspace
    UpToDate 0 w ∧ w.references 0 = [⟨1, 0⟩] ∧
    ∃ g w' w'', (add 0 .back [ascii ['q'], ascii ['Q']]).on w = (.ok g, w') ∧
      (w'.page 0).streams = (w.page 0).streams ++ [g] ∧
      (removeStream 0 g).on w' = (.ok (), w'') ∧ (w''.page 0).streams = (w.page 0).streams ∧
      w''.references 0 = w.references 0 := by
  have ran : Ran (.load 0 :: aloneCalls) (afterAll (.load 0 :: aloneCalls)) :=
    aloneRan.call (.load 0) trivial
  have fresh : UpToDate 0 (afterAll (.load 0 :: aloneCalls)).workspace :=
    aloneRan.upToDate (by decide +kernel)
  have parsed : (OperatorTree.parse
      (composed ((afterAll (.load 0 :: aloneCalls)).workspace.page 0).params
        [ascii ['q'], ascii ['Q']]) ⟨0, ⟨0, 0⟩⟩
      ((afterAll (.load 0 :: aloneCalls)).workspace.page 0).params).map
        (fun t => decide t.Ended) = .ok true := by decide +kernel
  obtain ⟨t, read, closed⟩ := mapOk.mp parsed
  obtain ⟨g, w', w'', _, _, added, -, -, -, streams, removed, back, references⟩ :=
    addedAndRemoved ran fresh (by decide +kernel) (by decide +kernel) (by decide +kernel) .back read
      (of_decide_eq_true closed)
  exact ⟨aloneRan, fresh, by decide +kernel, g, w', w'', added, streams, removed, back, references⟩

end Session

end PageContent
