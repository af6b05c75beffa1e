import PageContent.Proofs.Workspace.Refreshed

/-! Which references `/Contents` lists after a content stream was moved. The list is written anew
from what the page had read, whatever `/Contents` listed before. -/
namespace PageContent

def Value.ref? : Value → Option Ref
  | .ref r => some r
  | _ => none

namespace ContentStream

theorem refsPerm {streams streams' : List ContentStream} (same : streams.Perm streams') :
    (refs streams).Perm (refs streams') :=
  (same.flatMap_right ContentStream.backing).map Backing.ref

end ContentStream

namespace Action

theorem exchangedPerm {α : Type} (l : List α) (a b : Nat) : (exchanged l a b).Perm l := by
  unfold exchanged
  split
  · rename_i x y first second
    obtain ⟨insideA, rfl⟩ := List.getElem?_eq_some_iff.mp first
    obtain ⟨insideB, rfl⟩ := List.getElem?_eq_some_iff.mp second
    exact List.set_set_perm insideA insideB
  · exact .refl l

end Action

namespace Page
open Document ContentStream

variable {d : Document} {page : Nat} {entry : Value} {items : List Value}
  {streams : List ContentStream}

def itemsOf? (d : Document) (entry : Value) : Option (List Value) :=
  match d.resolve entry with
  | .ok (some node) => (d.items node).toOption
  | _ => none

def references (d : Document) (page : Nat) : List Ref :=
  match d.property? page contents with
  | .ok (some entry) => ((itemsOf? d entry).getD [entry]).filterMap Value.ref?
  | _ => []

theorem referencesOf (found : d.property? page contents = .ok (some entry)) :
    references d page = ((itemsOf? d entry).getD [entry]).filterMap Value.ref? := by
  rw [references, found]

theorem itemsOfArray {node : Nat} (resolved : d.resolve entry = .ok (some node))
    (array : d.items node = .ok items) : itemsOf? d entry = some items := by
  rw [itemsOf?, resolved]
  exact congrArg Except.toOption array

theorem itemsOfStream {node : Nat} (resolved : d.resolve entry = .ok (some node))
    (stream : d.kind node = .ok .stream) : itemsOf? d entry = none := by
  rw [itemsOf?, resolved]
  change (d.items node).toOption = none
  cases array : d.items node with
  | error fault => rfl
  | ok items =>
    obtain ⟨n, there, kind⟩ := kindOk.mp stream
    obtain ⟨n', there', data⟩ := itemsOk.mp array
    rw [there] at there'
    cases there'
    rw [data] at kind
    cases kind

theorem arrayOfItems (found : itemsOf? d entry = some items) :
    ∃ node, d.resolve entry = .ok (some node) ∧ d.items node = .ok items := by
  unfold itemsOf? at found
  split at found
  · rename_i node resolved
    cases array : d.items node with
    | error fault =>
      rw [array] at found
      cases found
    | ok vs =>
      rw [array] at found
      cases found
      exact ⟨node, resolved, array⟩
  · cases found

theorem onlyRefs (rs : List Ref) : (rs.map Value.ref).filterMap Value.ref? = rs := by
  rw [List.filterMap_map]
  exact List.filterMap_some

theorem arrayReferences {d' : Document} {c : Change} (dict : d.kind page = .ok .dict) {rs : List Ref}
    (ok : d.setProperty page contents (.array (rs.map .ref)) = .ok (d', c)) :
    references d' page = rs := by
  obtain ⟨_, _, m, written, entry, -, array, -⟩ := arrayWritten dict rs
  cases ok.symm.trans written
  rw [referencesOf entry, itemsOfArray rfl array, Option.getD_some, onlyRefs]

theorem itemsBacked (sound : d.Sound) {node : Nat} {n : Node} (there : d.nodes[node]? = some n)
    (inside : ∀ v ∈ items, v ∈ n.data.values) {bs : List Backing} (holds : ∀ b ∈ bs, b.Holds d)
    (each : items.map d.resolve = (bs.map Backing.node).map fun n => .ok (some n)) :
    items = (bs.map Backing.ref).map .ref := by
  induction items generalizing bs with
  | nil =>
    cases bs with
    | nil => rfl
    | cons b rest => cases each
  | cons v others ih =>
    cases bs with
    | nil => cases each
    | cons b rest =>
      obtain ⟨first, later⟩ := List.cons.inj each
      have same := (sound.backed there (inside v List.mem_cons_self) first
        (holds b List.mem_cons_self).1).1
      rw [same, ih (fun v member => inside v (List.mem_cons_of_mem _ member))
        (fun b member => holds b (List.mem_cons_of_mem _ member)) later]
      rfl

theorem referencesRead (sound : d.Sound) (holds : ∀ s ∈ streams, ∀ b ∈ s.backing, b.Holds d)
    (read : contentNodes d page = .ok (ContentStream.nodes streams)) :
    references d page = refs streams := by
  have backed : ∀ b ∈ streams.flatMap ContentStream.backing, b.Holds d := fun b member => by
    obtain ⟨s, there, inside⟩ := List.mem_flatMap.mp member
    exact holds s there b inside
  unfold ContentStream.nodes at read
  unfold refs
  generalize streams.flatMap ContentStream.backing = bs at read backed
  obtain ⟨absent, none⟩ | ⟨entry, node, found, resolved, lists⟩ := contentNodesExact.mp read
  · rw [references, absent, List.map_eq_nil_iff.mp none]
    rfl
  · rw [referencesOf found]
    obtain ⟨stream, one⟩ | ⟨-, items, array, each⟩ := lists
    · obtain ⟨n, there, held⟩ := propertyHeld found
      have only : [entry] = (bs.map Backing.ref).map .ref :=
        itemsBacked sound there (fun v member => (List.mem_singleton.mp member) ▸ held) backed
          (by rw [one, List.map_singleton, List.map_singleton, resolved])
      rw [itemsOfStream resolved stream, Option.getD_none, only, onlyRefs]
    · obtain ⟨n, there, data⟩ := itemsOk.mp array
      have all : items = (bs.map Backing.ref).map .ref :=
        itemsBacked sound there (fun v member => by rw [data]; exact member) backed each
      rw [itemsOfArray resolved array, Option.getD_some, all, onlyRefs]

end Page

namespace Workspace
open Page PageContent.Action ContentStream

variable {w w' : Workspace} {i : Nat} {p : Page} {streams : List ContentStream}

theorem changedHome (rooted : Rooted w) {f : Document → Except Fault (Document × Change)}
    (told : ∀ {d' c}, f w.home = .ok (d', c) → w.home.Changed d' c)
    (done : (change 0 f).on w = (.ok (), w')) :
    ∃ d' c ws, f w.home = .ok (d', c) ∧ w'.home = { d' with watches := ws } := by
  cases result : f w.home with
  | error e =>
    rw [changeOn, result] at done
    cases done
  | ok both =>
    obtain ⟨d', c⟩ := both
    obtain ⟨heard, home, -⟩ := changeHeard rooted.homed done result (told result).id
    obtain ⟨ws, same⟩ := heard.home
    exact ⟨d', c, ws, rfl, by rw [same, home]⟩

theorem changeDone (rooted : Rooted w) {f : Document → Except Fault (Document × Change)}
    (told : ∀ {d d' c}, d.Sound → f d = .ok (d', c) → d.Changed d' c ∧ c.kind ≠ .payload)
    {d : Document} {c : Change} (ok : f w.home = .ok (d, c)) : ∃ w' ws,
    (change 0 f).on w = (.ok (), w') ∧ Rooted w' ∧ w'.home = { d with watches := ws } ∧
      w.home.Keeps w'.home := by
  have done : (change 0 f).on w = (.ok (), (w.setDocument d).notify 0 c) := by rw [changeOn, ok]
  obtain ⟨d', c', ws, again, home⟩ := changedHome rooted (fun ok => (told rooted.sound ok).1) done
  cases ok.symm.trans again
  obtain ⟨changed, quiet⟩ := told rooted.sound ok
  have steps : Steps True w ((w.setDocument d).notify 0 c) :=
    changedSteps rooted changed fun _ => quiet
  exact ⟨_, ws, done, steps.rooted rooted, home, home ▸ (changed.keeps quiet).watches ws⟩

theorem setReferences (rooted : Rooted w) (dict : w.home.kind p.node = .ok .dict) {rs : List Ref}
    (done : (setProperty 0 p.node contents (.array (rs.map .ref))).on w = (.ok (), w')) :
    references w'.home p.node = rs := by
  obtain ⟨d', c, ws, ok, home⟩ := changedHome rooted
    (fun ok => (Document.setPropertyChanged rooted.sound (keyedRefs rs) ok).1) done
  rw [home]
  change references d' p.node = rs
  exact arrayReferences dict ok

theorem writtenReferences (rooted : Rooted w) (here : p.document = 0)
    (dict : w.home.kind p.node = .ok .dict) (done : (writeList p streams).on w = (.ok (), w')) :
    references w'.home p.node = refs streams := by
  unfold writeList at done
  rw [documentBound here, refsObjects] at done
  obtain ⟨entry, -, done⟩ := boundLiftOk done
  split at done
  · obtain ⟨_, w₁, first, later⟩ := boundOk done
    rw [here] at first later
    have rooted₁ := rooted.deed (deedsDelete trivial contents first)
    have told {d' c} (ok : w.home.delProperty p.node contents = .ok (d', c)) :=
      (Document.delPropertyChanged rooted.sound ok).1
    obtain ⟨d', c, ws, ok, home⟩ := changedHome rooted told first
    have dict₁ : w₁.home.kind p.node = .ok .dict := by
      rw [home]
      exact (told ok).kind dict
    exact setReferences rooted₁ dict₁ later
  · rw [here] at done
    exact setReferences rooted dict done

def references (w : Workspace) (i : Nat) : List Ref := Page.references w.home (w.page i).node

theorem exchangeReferences (rooted : Rooted w) {q : Request} (moves : q.moves = true)
    (asked : Request.Asked i w q (.ok ()) w') : (w.page i).live = true ∧ ∃ a,
    a + 1 < (w.page i).streams.length ∧
      w'.references i = refs (exchanged (w.page i).streams a (a + 1)) := by
  cases asked with
  | answered idle => cases idle.symm.trans (Request.moved moves).2
  | removed which _ _ _ _ _ =>
    obtain rfl | ⟨_, rfl, -⟩ := which
    · cases moves
    · cases moves
  | @exchanged _ a _ _ w₁ _ _ inside live run ends =>
    have here := rooted.here i live
    obtain ⟨-, homed, live₁, page⟩ := (Leads.writeList here _).done rooted.homed live run
    obtain ⟨rfl, ws, -, -, home, remains, -⟩ := ends.reads homed live₁
    have node := remains.node
    rw [page] at node
    have written : Page.references w₁.home (w.page i).node = _ :=
      writtenReferences (rooted.hush i) here (rooted.dict i live) run
    refine ⟨live, a, inside, ?_⟩
    rw [references, node, home]
    exact written
  | _ => cases moves

theorem InOrder.references {still : Prop} {held : List ContentStream} (h : InOrder still held w)
    (live : (w.page i).live = true) (valid : (w.page i).valid = true) {entry : Value}
    (found : w.home.property? (w.page i).node contents = .ok (some entry)) :
    w.references i = refs (w.page i).streams :=
  referencesRead h.good.sound (h.good.attached i live).backed
    (h.good.inStep i live (fun same => by cases same) valid entry found)

end Workspace

namespace Session
open Workspace Page ContentStream PageContent.Action

/-- A content stream that is moved changes places with the next one that the page has read, and
`/Contents` then lists the streams behind what was read. None is lost and none is added exactly
if `/Contents` listed these before, and so it did if it was there and the page is valid. -/
theorem movedReferences {calls : List Call} {s : Session} (ran : Ran calls s) {c : Call} {i : Nat}
    (moves : c.moves? = some i) {given : List ContentStream} {w : Workspace}
    (done : c.run.on s.workspace = (.ok given, w)) :
    (∃ a, a + 1 < (s.workspace.page i).streams.length ∧
      w.references i = refs (exchanged (s.workspace.page i).streams a (a + 1))) ∧
    ((w.references i).Perm (s.workspace.references i) ↔
      (refs (s.workspace.page i).streams).Perm (s.workspace.references i)) ∧
    (Reached calls s → (s.workspace.page i).valid = true →
      (∃ entry, s.workspace.home.property? (s.workspace.page i).node contents = .ok (some entry)) →
      (w.references i).Perm (s.workspace.references i)) := by
  obtain ⟨q, asks, moves⟩ := Call.moving moves
  obtain ⟨live, a, inside, written⟩ :=
    exchangeReferences ran.rooted moves (c.asked asks ran.rooted.homed done)
  have behind : (w.references i).Perm (refs (s.workspace.page i).streams) :=
    written ▸ refsPerm (exchangedPerm _ a (a + 1))
  refine ⟨⟨a, inside, written⟩, ⟨behind.symm.trans, behind.trans⟩, fun reached valid present => ?_⟩
  obtain ⟨entry, found⟩ := present
  rw [(reachedInOrder reached).references live valid found]
  exact behind

theorem movedReferencesOfTwo : Reached listedCalls (afterAll listedCalls) ∧ ∃ given w,
    (Call.raiseAt 0 0).run.on (afterAll listedCalls).workspace = (.ok given, w) ∧
    (w.references 0).Perm ((afterAll listedCalls).workspace.references 0) := by
  have moved : ((Call.raiseAt 0 0).run.on (afterAll listedCalls).workspace).1.isOk = true := by
    decide +kernel
  cases done : (Call.raiseAt 0 0).run.on (afterAll listedCalls).workspace with
  | mk res w =>
    rw [done] at moved
    cases res with
    | error e => cases moved
    | ok given =>
      exact ⟨listedReached, given, w, rfl, (movedReferences listedReached.ran
        (c := .raiseAt 0 0) rfl done).2.2 listedReached (by decide +kernel)
        ⟨.node 2, by decide +kernel⟩⟩

-- The stream that is put between the two lacks an operand.
def insertedCalls : List Call :=
  .insertElement 2 1 (.ref ⟨4, 0⟩) :: .addIndirect (.ofData (ascii ['w'])) :: listedCalls

theorem lostByMove : Ran insertedCalls (afterAll insertedCalls) ∧
    let moved := (Call.raiseAt 0 0).run.on (afterAll insertedCalls).workspace
    moved.1.isOk = true ∧
    (afterAll insertedCalls).workspace.references 0 = [⟨1, 0⟩, ⟨4, 0⟩, ⟨2, 0⟩] ∧
    moved.2.references 0 = [⟨2, 0⟩, ⟨1, 0⟩] :=
  ⟨(listedReached.ran.call (.addIndirect (.ofData (ascii ['w']))) (keyedData _)).call
    (.insertElement 2 1 (.ref ⟨4, 0⟩)) trivial, by decide +kernel, by decide +kernel,
    by decide +kernel⟩

end Session

end PageContent
