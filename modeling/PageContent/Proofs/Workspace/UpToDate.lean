import PageContent.Proofs.Workspace.Removed
import PageContent.Proofs.Workspace.Requests

/-! Pages that hold what is read now. An edit of such a page that leaves its content streams separate
is read again from the start, and gives back each of them as it was. -/
namespace PageContent

namespace ContentStream
variable {d : Document} {params : Params} {old gs streams : List ContentStream} {s g : ContentStream}

theorem nodesAlike (same : gs.map unnumbered = streams.map unnumbered) : nodes gs = nodes streams := by
  have backings := renumberedMap ContentStream.backing (fun _ => rfl) same
  rw [nodes, nodes, List.flatMap_def, List.flatMap_def, backings]

theorem backingsApart (some : ∀ s ∈ streams, s.backing ≠ []) (distinct : (refs streams).Nodup) :
    (streams.map ContentStream.backing).Nodup := by
  have once : (streams.flatMap ContentStream.backing).Nodup := List.Nodup.of_map _ distinct
  refine List.pairwise_map.mpr ((List.nodup_flatMap.mp once).2.imp_of_mem ?_)
  intro s t there _ apart same
  have alone : s.backing.Disjoint t.backing := apart
  rw [← same] at alone
  obtain ⟨b, inside⟩ := List.exists_mem_of_ne_nil _ (some s there)
  exact alone inside inside

theorem keptOne (apart : (old.map ContentStream.backing).Nodup) (there : s ∈ old)
    (same : g.backing = s.backing) : kept old g = s := by
  have found : (old.find? (·.backing = g.backing)).isSome :=
    List.find?_isSome.mpr ⟨s, there, by simp [same]⟩
  obtain ⟨t, found⟩ := Option.isSome_iff_exists.mp found
  have backing : t.backing = g.backing := by simpa using List.find?_some found
  rw [kept, found]
  exact List.inj_on_of_nodup_map apart (List.mem_of_find?_eq_some found) there
    (backing.trans same)

theorem keptAll (apart : (old.map ContentStream.backing).Nodup) (part : streams ⊆ old)
    (same : gs.map unnumbered = streams.map unnumbered) : gs.map (kept old) = streams := by
  have backings := renumberedMap ContentStream.backing (fun _ => rfl) same
  clear same
  induction streams generalizing gs with
  | nil => rw [List.map_nil, List.map_eq_nil_iff] at backings; rw [backings]; rfl
  | cons s rest ih =>
    cases gs with
    | nil => cases backings
    | cons g others =>
      obtain ⟨first, later⟩ := List.cons.inj backings
      rw [List.map_cons, keptOne apart (part List.mem_cons_self) first,
        ih (fun t there => part (List.mem_cons_of_mem _ there)) later]

end ContentStream

namespace Workspace
open Page PageContent.Action ContentStream

variable {w w' w₁ : Workspace} {i : Nat} {p : Page} {streams : List ContentStream}

structure UpToDate (i : Nat) (w : Workspace) : Prop where
  live : (w.page i).live = true
  read : ∃ next gs, (w.page i).readGroups w.home next = .ok gs ∧
    gs.map unnumbered = (w.page i).streams.map unnumbered

theorem loadedUpToDate (rooted : Rooted w) (done : (Action.load i).on w = (.ok (), w')) :
    UpToDate i w' := by
  have given : Workspace.load w i = .ok w' ∧ (w.page i).live = true := by
    obtain ⟨-, live, ok⟩ | ⟨_, failed, -⟩ := boundLoad done
    · exact ⟨ok, live⟩
    · cases failed
  obtain ⟨-, next, read⟩ := loadDone rooted done
  obtain ⟨ok, live⟩ := given
  have only := (loadDoes rooted.homed live ok).only rooted.housed
  obtain ⟨-, -, -, alive, -⟩ := only.placed
  exact ⟨alive.trans live, next, _, read, rfl⟩

structure Named (d : Document) (p : Page) (streams : List ContentStream) : Prop where
  names : contentNodes d p.node = .ok (nodes streams)
  holds : ∀ s ∈ streams, ∀ b ∈ s.backing, b.Holds d
  whole : Whole d p.params streams
  some : ∀ s ∈ streams, s.backing ≠ []

theorem UpToDate.named (rooted : Rooted w) (h : UpToDate i w) :
    Named w.home (w.page i) (w.page i).streams := by
  obtain ⟨next, gs, read, same⟩ := h.read
  obtain ⟨names, holds, ⟨id, gs', again, same'⟩, -, each⟩ := readGroupsKept rooted.sound read
  rw [nodesAlike same] at names again
  refine ⟨names, fun s there => ?_, ⟨id, gs', again, same'.trans same⟩, fun s there none => ?_⟩
  · obtain ⟨g, member, backing, -⟩ := likeMember same there
    exact backing ▸ holds g member
  · obtain ⟨g, member, backing, -⟩ := likeMember same there
    obtain ⟨first, rest, -, -, begins, -⟩ := readOk.mp (each g member)
    rw [backing, none] at begins
    cases begins

theorem UpToDate.references (rooted : Rooted w) (h : UpToDate i w) :
    w.references i = refs (w.page i).streams :=
  referencesRead rooted.sound (h.named rooted).holds (h.named rooted).names

theorem renewedUpToDate {steps : Action Unit} (rooted : Rooted w) (live : (w.page i).live = true)
    (leads : Leads steps) (run : steps.on (w.hush i) = (.ok (), w₁))
    (names : contentNodes w₁.home (w.page i).node = .ok (nodes streams))
    (whole : Whole w₁.home (w.page i).params streams) : ∃ w₂ w₃ gs,
    (quietly i steps).on w = (.ok (), w₂) ∧ (Action.refresh i).on w₂ = (.ok (), w₃) ∧ Rooted w₃ ∧
      (∃ ws, w₃.home = { w₁.home with watches := ws }) ∧
      gs.map unnumbered = streams.map unnumbered ∧
      (∃ next, (w₃.page i).readGroups w₃.home next = .ok gs) ∧
      ∃ watched, w₃.page i = { w.page i with
        quiet := false, watched := watched, streams := gs.map (kept (w.page i).streams) } := by
  obtain ⟨w₂, quiet, rooted₂, ⟨ws, home₂⟩, watched, page₂⟩ := quietlyRun rooted live leads run
  have live₂ : (w₂.page i).live = true := by rw [page₂]; exact live
  obtain ⟨id, gs, groups, same⟩ := whole.watches ws
  obtain ⟨gs', again, same'⟩ := groupsRenumbered groups w₂.nextStream
  have read : (w₂.page i).readGroups w₂.home w₂.nextStream = .ok gs' := by
    rw [page₂, home₂]
    exact bindOk.mpr ⟨nodes streams, (contentNodesWatches ws _).trans names, again⟩
  obtain ⟨w₃, done, rooted₃, home₃, page₃⟩ := refreshOn rooted₂ live₂ read
  refine ⟨w₂, w₃, gs', quiet, done, rooted₃, ⟨ws, ?_⟩, same'.trans same, ⟨w₂.nextStream, ?_⟩, watched, ?_⟩
  · rw [home₃, home₂]
  · rw [page₃, home₃]
    exact read
  · rw [page₃, page₂]

theorem UpToDate.counted (rooted : Rooted w) (h : UpToDate i w) : ∃ w', (changed i).on w = (.ok (), w') ∧
    Rooted w' ∧ UpToDate i w' ∧ w'.home = w.home ∧
    w'.page i = { w.page i with revision := (w.page i).revision + 1 } := by
  have page := pageModified (liveInside h.live) fun p => { p with revision := p.revision + 1 }
  refine ⟨_, changedOn w i, rooted.does (countedDoes w i), ⟨?_, ?_⟩, rfl, page⟩
  · rw [page]
    exact h.live
  · rw [page]
    exact h.read

theorem UpToDate.rearranged {steps : Action Unit} (rooted : Rooted w) (h : UpToDate i w)
    (distinct : (w.references i).Nodup) (ended : ∀ s ∈ (w.page i).streams, s.tree.Ended)
    (leads : Leads steps) (run : steps.on (w.hush i) = (.ok (), w₁))
    (keeps : w.home.Keeps w₁.home) (part : streams ⊆ (w.page i).streams)
    (names : contentNodes w₁.home (w.page i).node = .ok (nodes streams)) : ∃ w₂ w₃ w₄,
    (quietly i steps).on w = (.ok (), w₂) ∧ (Action.refresh i).on w₂ = (.ok (), w₃) ∧
      (changed i).on w₃ = (.ok (), w₄) ∧ Rooted w₄ ∧ UpToDate i w₄ ∧
      (∃ ws, w₄.home = { w₁.home with watches := ws }) ∧
      (w₄.page i).node = (w.page i).node ∧ (w₄.page i).streams = streams := by
  have named := h.named rooted
  have whole : Whole w₁.home (w.page i).params streams :=
    (Whole.ofSeparate fun s there => named.whole.separate ended s (part there)).keeps keeps
      fun s there => named.holds s (part there)
  obtain ⟨w₂, w₃, gs, quiet, read, rooted₃, ⟨ws, home⟩, same, ⟨next, again⟩, watched, page⟩ :=
    renewedUpToDate rooted h.live leads run names whole
  rw [h.references rooted] at distinct
  have streams : gs.map (kept (w.page i).streams) = streams :=
    keptAll (backingsApart named.some distinct) part same
  have fresh : UpToDate i w₃ := by
    refine ⟨by rw [page]; exact h.live, next, gs, again, ?_⟩
    rw [page, streams]
    exact same
  obtain ⟨w₄, counted, rooted₄, fresh₄, home₄, page₄⟩ := fresh.counted rooted₃
  refine ⟨w₂, w₃, w₄, quiet, read, counted, rooted₄, fresh₄, ⟨ws, home₄.trans home⟩, ?_, ?_⟩
  · rw [page₄, page]
  · rw [page₄, page]
    exact streams

end Workspace

namespace Session
open Workspace

theorem Ran.upToDate {calls : List Call} {s : Session} (ran : Ran calls s) {i : Nat}
    (loaded : ((Action.load i).on s.workspace).1 = .ok ()) :
    UpToDate i (s.after (.load i)).workspace := by
  have run := Call.requested (c := .load i) rfl s.workspace
  have same : ((Action.load i).on s.workspace).2 = (s.after (.load i)).workspace :=
    congrArg Prod.snd run
  rw [← same]
  exact loadedUpToDate ran.rooted (Prod.ext loaded rfl)

end Session

end PageContent
