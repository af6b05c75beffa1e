import PageContent.Proofs.Workspace.Added
import PageContent.Proofs.Workspace.Inert

/-! A request that fails leaves what a page has read as it was, and one that renews it counts once.
While a page edits it hears nothing, so that only the end of the edit counts. -/
namespace PageContent

namespace Request

def adds : Request → Bool
  | add _ _ => true
  | _ => false

end Request

namespace Page
open Document

variable {d d' : Document} {page m : Nat} {r : Ref} {c : Change} {side : Action.Side}

theorem listsRefs {node : Nat} {ns : List Nat} {vs : List Value} (lists : Lists d node ns)
    (items : d.items node = .ok vs) (there : .ref r ∈ vs) (found : d.indirect r = .ok m) :
    m ∈ ns := by
  obtain ⟨stream, -⟩ | ⟨-, vs', items', each⟩ := lists
  · obtain ⟨n, here, data⟩ := itemsOk.mp items
    obtain ⟨n', here', kind⟩ := kindOk.mp stream
    cases here.symm.trans here'
    rw [data] at kind
    cases kind
  · cases items.symm.trans items'
    have resolved : d.resolve (.ref r) ∈ ns.map fun n => Except.ok (some n) :=
      each ▸ List.mem_map_of_mem there
    obtain ⟨n, member, same⟩ := List.mem_map.mp resolved
    have own : d.resolve (.ref r) = .ok (some m) := mapOk.mpr ⟨m, found, rfl⟩
    cases same.trans own
    exact member

theorem listedMember (sound : d.Sound) (dict : d.kind page = .ok .dict) (found : d.indirect r = .ok m)
    (stream : d.kind m = .ok .stream) (ok : listed d page r side = .ok (d', c)) {ns : List Nat}
    (names : contentNodes d' page = .ok ns) : m ∈ ns := by
  have changed := (listedChanged sound ok).1
  have found' := changed.toRevised.indirect found
  have stream' := changed.toRevised.kind stream
  have named {v : Value} {node : Nat} (entry : d'.property? page contents = .ok (some v))
      (resolved : d'.resolve v = .ok (some node)) : Lists d' node ns := by
    obtain ⟨absent, -⟩ | ⟨v', node', entry', resolved', lists⟩ := contentNodesExact.mp names
    · cases entry.symm.trans absent
    · cases entry.symm.trans entry'
      cases resolved.symm.trans resolved'
      exact lists
  obtain ⟨-, ok⟩ | ⟨-, -, -, ok⟩ | ⟨before, resolved, held, ok⟩ := listedExact.mp ok
  · obtain ⟨-, rfl⟩ | ⟨array, -⟩ := named (entrySet sound dict ok) (mapOk.mpr ⟨m, found', rfl⟩)
    · exact List.mem_singleton_self m
    · cases array.symm.trans stream'
  · obtain ⟨d₁, c₁, k, written, entry', -, items, -⟩ := arrayWritten dict (side.put r [_])
    cases ok.symm.trans written
    exact listsRefs (named entry' rfl) items
      (List.mem_map_of_mem (side.memberPut.mpr (.inl rfl))) found'
  · obtain ⟨d₁, c₁, again, items'⟩ := insertedItems held r side
    cases ok.symm.trans again
    have entry' := (insertedEntry dict sound held ok contents).trans before
    exact listsRefs (named entry' (changed.resolve resolved)) items'
      (side.memberPut.mpr (.inl rfl)) found'

def Alike (p p' : Page) : Prop := p'.streams = p.streams ∧ p'.revision = p.revision

end Page

namespace Workspace
open Page PageContent.Action ContentStream

variable {w w' : Workspace} {i : Nat}

theorem listedNamed {p : Page} (rooted : Rooted w) (here : p.document = 0)
    (dict : w.home.kind p.node = .ok .dict) {ref : Ref} {side : Side} {m : Nat}
    (found : w.home.indirect ref = .ok m) (stream : w.home.kind m = .ok .stream)
    (done : (listRef p ref side).on w = (.ok (), w')) {ws : List Watch} {ns : List Nat}
    (names : contentNodes { w'.home with watches := ws } p.node = .ok ns) : m ∈ ns := by
  rw [listRefOn here] at done
  obtain ⟨d, c, ws', ok, home⟩ := changedHome rooted (fun ok => (listedChanged rooted.sound ok).1) done
  rw [home] at names
  have names' : contentNodes { d with watches := ws } p.node = .ok ns := names
  rw [contentNodesWatches] at names'
  exact listedMember rooted.sound dict found stream ok names'

theorem readFound {p : Page} {d : Document} {next m : Nat} {gs : List ContentStream}
    (read : p.readGroups d next = .ok gs)
    (named : ∀ {ns}, contentNodes d p.node = .ok ns → m ∈ ns) (old : List ContentStream) :
    ∃ s ∈ gs.map (kept old), s.backing.any (·.node = m) = true := by
  obtain ⟨ns, names, groups⟩ := bindOk.mp read
  obtain ⟨same, -⟩ := groupsOf groups
  have member : m ∈ nodes gs := same ▸ named names
  obtain ⟨b, inside, rfl⟩ := List.mem_map.mp member
  obtain ⟨g, there, behind⟩ := List.mem_flatMap.mp inside
  refine ⟨kept old g, List.mem_map_of_mem there, ?_⟩
  rw [keptBacking]
  exact List.any_eq_true.mpr ⟨b, behind, by simp⟩

end Workspace

namespace Request
open Page Workspace ContentStream PageContent.Action

variable {q : Request} {w w' : Workspace} {i : Nat} {res r : Except Fault Unit}
  {finds : List ContentStream → Prop}

def Signals (p p' : Page) (r : Except Fault Unit) : Prop :=
  (∀ fault, r = .error fault → Alike p p') ∧ (r = .ok () → p'.revision = p.revision + 1)

theorem Ends.signals (h : Homed w) (live : (w.page i).live = true)
    (ends : Ends i w finds res r w') (sure : ∀ gs, res = .ok () → (w.wake i).reading i = .ok gs →
      finds (((w.wake i).regrouped i gs).page i).streams) :
    Signals (w.page i) (w'.page i) r := by
  obtain ⟨watched, awake⟩ := wakePage h live
  have live' : ((w.wake i).page i).live = true := by rw [awake]; exact live
  cases ends with
  | failed fault =>
    rw [awake]
    exact ⟨fun _ _ => ⟨rfl, rfl⟩, fun same => by cases same⟩
  | unread fault =>
    rw [markInvalid, pageModified (liveInside live'), awake]
    exact ⟨fun _ _ => ⟨rfl, rfl⟩, fun same => by cases same⟩
  | lost fault read lost => exact absurd (sure _ rfl read) lost
  | @renewed gs read _ =>
    refine ⟨fun _ same => (by cases same), fun _ => ?_⟩
    have page := regroupedPage live' gs
    rw [pageModified (liveInside (by rw [page]; exact live')), page, awake]

theorem addedFound (rooted : Rooted w) (live : (w.page i).live = true)
    (room : w.home.objects.size + 1 < UInt32.size) {data : Bytes} {d : Document} {ref : Ref}
    {node : Nat} (new : w.home.addIndirect (.ofData data) = (d, ref))
    (found : d.indirect ref = .ok node) {side : Side} {w₁ : Workspace}
    (run : (listRef (w.page i) ref side).on ((w.setDocument d).hush i) = (.ok (), w₁))
    {gs : List ContentStream} (read : (w₁.wake i).reading i = .ok gs) :
    ∃ s ∈ (((w₁.wake i).regrouped i gs).page i).streams, s.backing.any (·.node = node) = true := by
  have here := rooted.here i live
  obtain ⟨-, stored, home⟩ := rooted.dataAdded new
  obtain ⟨stands, -, numbered⟩ := Document.addDataThere new
  cases found.symm.trans (numbered room)
  obtain ⟨-, homed, live₁, page⟩ := (Leads.listRef here ref side).done stored.homed live run
  obtain ⟨ws, watched, home₂, again, page₂⟩ := wakeRead homed live₁ read
  rw [page₂]
  rw [page, home₂] at again
  have home₁ : ((w.setDocument d).hush i).home = d := home
  refine readFound again (fun names => listedNamed (stored.hush i) here ?_ ?_ ?_ run names) _
  · rw [home₁]
    exact (Document.addIndirectRevised rooted.sound (keyedData data) new).kind (rooted.dict i live)
  · rw [home₁]
    exact numbered room
  · rw [home₁]
    exact (resolveOk.mp stands).1

theorem Asked.signals (asked : Asked i w q r w') (rooted : Rooted w) (renews : q.renews = true)
    (room : q.adds = true → w.home.objects.size + 1 < UInt32.size) :
    Signals (w.page i) (w'.page i) r := by
  have ended {finds : List ContentStream → Prop} {res : Except Fault Unit} {steps : Action Unit}
      {w₀ w₁ : Workspace} (h : Homed w₀) (live : (w₀.page i).live = true) (leads : Leads steps)
      (run : steps.on (w₀.hush i) = (res, w₁)) (ends : Ends i w₁ finds res r w')
      (before : w₀.page i = w.page i) (sure : ∀ gs, res = .ok () → (w₁.wake i).reading i = .ok gs →
        finds (((w₁.wake i).regrouped i gs).page i).streams) : Signals (w.page i) (w'.page i) r := by
    obtain ⟨-, homed, live₁, same⟩ := leads.done h live run
    have signals := ends.signals homed live₁ sure
    rwa [same, before] at signals
  cases asked with
  | refused fault => exact ⟨fun _ _ => ⟨rfl, rfl⟩, fun same => by cases same⟩
  | answered idle => cases idle.symm.trans renews
  | loaded live ok =>
    refine ⟨fun _ same => (by cases same), fun _ => ?_⟩
    rw [loadExact live (rooted.here i live)] at ok
    obtain ⟨gs, -, rfl⟩ := mapOk.mp ok
    rw [pageModified (w := { w with nextStream := w.nextStream + gs.length }) (liveInside live)]
    rfl
  | @reread streams live _ =>
    refine ⟨fun _ same => (by cases same), fun _ => ?_⟩
    have page := pageModified (liveInside live) fun p => { p with streams }
    rw [pageModified (liveInside (by rw [page]; exact live)), page]
  | stored fault _ _ _ => exact ⟨fun _ _ => ⟨rfl, rfl⟩, fun same => by cases same⟩
  | @added side pieces d ref _ _ _ _ _ live new found run ends =>
    obtain ⟨-, stored, -⟩ := rooted.dataAdded new
    exact ended stored.homed live (.listRef (rooted.here i live) ref side) run ends rfl
      fun gs ok read => addedFound rooted live (room rfl) new found (ok ▸ run) read
  | removed _ live _ _ run ends =>
    exact ended rooted.homed live (.unlistAll (rooted.here i live) _) run ends rfl
      fun _ _ _ => trivial
  | exchanged _ _ live run ends =>
    exact ended rooted.homed live (.writeList (rooted.here i live) _) run ends rfl
      fun _ _ _ => trivial
  | listed _ _ => cases renews
  | closed _ => cases renews

theorem Asked.alike (asked : Asked i w q r w') (rooted : Rooted w) (keeps : q.renews = false) :
    (∀ fault, r = .error fault → Alike (w.page i) (w'.page i)) ∧
      (w'.page i).revision = (w.page i).revision ∧ (q ≠ .reset → Alike (w.page i) (w'.page i)) := by
  cases asked with
  | refused _ | answered _ => exact ⟨fun _ _ => ⟨rfl, rfl⟩, rfl, fun _ => ⟨rfl, rfl⟩⟩
  | loaded _ _ | reread _ _ | stored _ _ _ _ | added _ _ _ _ _ => cases keeps
  | removed which _ _ _ _ _ =>
    obtain rfl | ⟨_, rfl, -⟩ := which
    · cases keeps
    · cases keeps
  | exchanged moves _ _ _ _ => cases keeps.symm.trans (moved moves).2
  | listed live run =>
    obtain ⟨-, homed, live₁, same⟩ :=
      (Leads.writeList (rooted.here i live) _).done rooted.homed live run
    obtain ⟨watched, awake⟩ := wakePage homed live₁
    rw [awake, same]
    exact ⟨fun _ _ => ⟨rfl, rfl⟩, rfl, fun _ => ⟨rfl, rfl⟩⟩
  | closed live =>
    obtain ⟨watched, page⟩ := closedPage (rooted.here i live) live
    refine ⟨fun _ same => (by cases same), by rw [page], fun other => absurd rfl other⟩

end Request

namespace Session
open Workspace Page PageContent.Action

variable {s : Session} {w w' : Workspace} {i : Nat} {calls : List Call} {q : Request}

/-- Whatever happened before, a request that fails leaves what the page has read and the count of
its changes as they were. One that reads the page's content anew counts one change if it succeeds,
any other counts none, and only a reset then takes away what was read. What is added needs a free
object number. -/
theorem countedOnce (ran : Ran calls s) {r : Except Fault Unit}
    (room : q.adds = true → s.workspace.home.objects.size + 1 < UInt32.size)
    (done : (q.run i).on s.workspace = (r, w)) :
    (∀ fault, r = .error fault → Alike (s.workspace.page i) (w.page i)) ∧
    (r = .ok () → (w.page i).revision =
      (s.workspace.page i).revision + if q.renews then 1 else 0) ∧
    (q.renews = false → q ≠ .reset → Alike (s.workspace.page i) (w.page i)) := by
  have rooted := ran.rooted
  have asked := Request.asked rooted.homed done
  cases renews : q.renews with
  | true =>
    obtain ⟨failed, counted⟩ := asked.signals rooted renews room
    exact ⟨failed, counted, fun keeps => by cases keeps⟩
  | false =>
    obtain ⟨failed, revision, alike⟩ := asked.alike rooted renews
    exact ⟨failed, fun _ => revision, fun _ => alike⟩

theorem insertedRan : Ran insertedCalls (afterAll insertedCalls) :=
  (listedReached.ran.call (.addIndirect (.ofData (ascii ['w']))) (keyedData _)).call
    (.insertElement 2 1 (.ref ⟨4, 0⟩)) trivial

theorem countedOnceAroundMalformed : Ran insertedCalls (afterAll insertedCalls) ∧
    let before := (afterAll insertedCalls).workspace
    let added := ((Request.add .back [ascii ['h']]).run 0).on before
    let moved := ((Request.raiseAt 0).run 0).on before
    before.home.objects.size + 1 < UInt32.size ∧ added.1.isOk = false ∧
    added.2.references 0 = before.references 0 ++ [⟨5, 0⟩] ∧
    Alike (before.page 0) (added.2.page 0) ∧
    moved.1 = .ok () ∧ (moved.2.page 0).revision = (before.page 0).revision + 1 := by
  have room : (afterAll insertedCalls).workspace.home.objects.size + 1 < UInt32.size := by
    decide +kernel
  have alike : Alike ((afterAll insertedCalls).workspace.page 0)
      ((((Request.add .back [ascii ['h']]).run 0).on (afterAll insertedCalls).workspace).2.page 0) := by
    have failed : (((Request.add .back [ascii ['h']]).run 0).on
        (afterAll insertedCalls).workspace).1.isOk = false := by decide +kernel
    cases done : ((Request.add .back [ascii ['h']]).run 0).on (afterAll insertedCalls).workspace with
    | mk r w =>
      rw [done] at failed
      cases r with
      | ok _ => cases failed
      | error fault => exact (countedOnce insertedRan (fun _ => room) done).1 fault rfl
  have ok : (((Request.raiseAt 0).run 0).on (afterAll insertedCalls).workspace).1 = .ok () := by
    decide +kernel
  exact ⟨insertedRan, room, by decide +kernel, by decide +kernel, alike, ok,
    (countedOnce insertedRan (q := .raiseAt 0) (fun adds => by cases adds) rfl).2.1 ok⟩

end Session

end PageContent
