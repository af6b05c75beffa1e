import PageContent.Proofs.Page.Listed
import PageContent.Proofs.Workspace.Hushed

/-! Edits of a page. Whether they succeed or not, all pages are in order afterwards. -/
namespace PageContent

namespace Action
open Page
variable {α β : Type} {w : Workspace} {p : Page} {r : Ref} {side : Side}

theorem changeAfter {α : Type} {x : Except Fault α} {act : α → Action Unit}
    {f : α → Except Fault (Document × Change)}
    (each : ∀ a, x = .ok a → (act a).on w = (change 0 fun _ => f a).on w) :
    ((liftM x : Action α) >>= act).on w = (change 0 fun _ => x >>= f).on w := by
  rw [liftBound]
  cases x with
  | error fault => rfl
  | ok a => exact each a rfl

theorem listRefOn (here : p.document = 0) :
    (listRef p r side).on w = (change 0 fun d => listed d p.node r side).on w := by
  have now : (change 0 fun d => listed d p.node r side).on w =
      (change 0 fun _ => listed w.home p.node r side).on w := by
    rw [Workspace.changeOn, Workspace.changeOn]
  rw [now]
  unfold listRef listed
  rw [documentBound here]
  refine changeAfter fun entry found => ?_
  cases entry with
  | none => simp only [here, setProperty, Workspace.changeOn]
  | some entry =>
    refine changeAfter fun node resolved => changeAfter fun kind _ => ?_
    cases kind with
    | stream =>
      cases entry with
      | ref old => cases side <;> simp only [here, setProperty, Workspace.changeOn]
      | node id => rfl
      | scalar s => rfl
    | array =>
      refine changeAfter fun items _ => ?_
      cases side <;> simp only [here, insertElement, Workspace.changeOn]
    | _ => rfl

theorem unlistRefOn (here : p.document = 0) :
    (unlistRef p r).on w = (change 0 fun d => unlisted d p.node r).on w := by
  have now : (change 0 fun d => unlisted d p.node r).on w =
      (change 0 fun _ => unlisted w.home p.node r).on w := by
    rw [Workspace.changeOn, Workspace.changeOn]
  rw [now]
  unfold unlistRef unlisted
  rw [documentBound here]
  refine changeAfter fun entry found => ?_
  cases entry with
  | none => rfl
  | some entry =>
    refine changeAfter fun node resolved => changeAfter fun kind _ => ?_
    cases kind with
    | stream =>
      simp only [here, setProperty]
      split <;> rfl
    | array =>
      refine changeAfter fun items _ => ?_
      cases items.findIdx? (· = .ref r) with
      | none => rfl
      | some index => simp only [here, removeElement, Workspace.changeOn]
    | _ => rfl

end Action

namespace ContentStream

def refs (streams : List ContentStream) : List Ref :=
  (streams.flatMap ContentStream.backing).map Backing.ref

theorem refsObjects (streams : List ContentStream) :
    (streams.flatMap fun s => s.backing.map fun b => Object.ref b.ref) = (refs streams).map .ref := by
  simp only [refs, List.map_map, List.map_flatMap]
  rfl

end ContentStream

namespace Workspace
open Page PageContent.Action ContentStream

variable {w w' w'' : Workspace} {i : Nat} {p : Page} {still : Prop}
  {held held' : List ContentStream}

theorem Editing.changed (h : Editing still held i w) {f : Document → Except Fault (Document × Change)}
    (harmless : ∀ d' c, f w.home = .ok (d', c) → Harmless w.home d' c) {r : Except Fault Unit}
    (done : (change 0 f).on w = (r, w')) : (∃ e, f w.home = .error e ∧ r = .error e ∧ w' = w) ∨
    ∃ d' c ws, f w.home = .ok (d', c) ∧ r = .ok () ∧ w'.home = { d' with watches := ws } ∧
      Editing still held i w' ∧ w'.page i = w.page i := by
  obtain same | ⟨d', c, ws, result, ok, home, good, hushed, heard⟩ := changedGood h.good h.hushed
    (fun d' c result => ⟨(harmless d' c result).changed, fun _ => (harmless d' c result).quiet⟩) done
    (fun d' c result j live =>
      (harmless d' c result).grounded (h.good.attached j live).dict (h.good.attached j live).grounded)
  · exact .inl same
  · have page : w'.page i = w.page i := heard.kept i rfl
    exact .inr ⟨d', c, ws, result, ok, home, ⟨good, hushed, by rw [page]; exact h.live⟩, page⟩

theorem Editing.listHeard (h : Editing still held i w) (here : p.document = 0) {r : Ref} {side : Side}
    {res : Except Fault Unit} (done : (listRef p r side).on w = (res, w')) :
    Homed w' ∧ Remains (w.page i) (w'.page i) := by
  rw [listRefOn here] at done
  cases result : listed w.home p.node r side with
  | error e =>
    rw [changeOn, result] at done
    cases done
    exact ⟨h.good.homed, .refl _⟩
  | ok both =>
    obtain ⟨d', c⟩ := both
    obtain ⟨heard, -, homed⟩ :=
      changeHeard h.good.homed done result (listedChanged h.good.sound result).1.id
    exact ⟨homed, (heard.placed i).remains⟩

theorem Editing.list (h : Editing still held i w) (same : w.page i = p) {r : Ref} {side : Side}
    {res : Except Fault Unit} (done : (listRef p r side).on w = (res, w'))
    (referable : res = .ok () → w'.Referable) : (∃ e, res = .error e ∧ w' = w) ∨
    (res = .ok () ∧ Editing still held i w' ∧ w'.page i = p) := by
  have here : p.document = 0 := same ▸ h.good.here i h.live
  rw [listRefOn here] at done
  have told (d' : Document) (c : Change) (result : listed w.home p.node r side = .ok (d', c)) :=
    listedChanged h.good.sound result
  have grounded (d' : Document) (c : Change) (result : listed w.home p.node r side = .ok (d', c))
      (j : Nat) (live : (w.page j).live = true) : Grounded d' (w.page j).node := by
    obtain ⟨changed, -, absent | harmless⟩ := told d' c result
    · have ok : res = .ok () := by
        rw [changeOn, result] at done
        cases done
        rfl
      exact changedReferable h.good done (referable ok) result changed.id j live
    · exact harmless.grounded (h.good.attached j live).dict (h.good.attached j live).grounded
  obtain ⟨e, -, failed, rfl⟩ | ⟨_, _, _, _, rfl, _, good, hushed, heard⟩ :=
    changedGood h.good h.hushed (fun d' c result => ⟨(told d' c result).1, fun _ =>
      (told d' c result).2.1⟩) done grounded
  · exact .inl ⟨e, failed, rfl⟩
  · have page : w'.page i = w.page i := heard.kept i rfl
    exact .inr ⟨rfl, ⟨good, hushed, by rw [page]; exact h.live⟩, page.trans same⟩

theorem Editing.unlist (h : Editing still held i w) (same : w.page i = p) {r : Ref}
    {res : Except Fault Unit} (done : (unlistRef p r).on w = (res, w')) :
    Editing still held i w' ∧ w'.page i = p := by
  have here : p.document = 0 := same ▸ h.good.here i h.live
  rw [unlistRefOn here] at done
  obtain ⟨-, -, -, rfl⟩ | ⟨-, -, -, -, -, -, editing, page⟩ :=
    h.changed (fun d' c => unlistedHarmless h.good.sound) done
  · exact ⟨h, same⟩
  · exact ⟨editing, page.trans same⟩

theorem Editing.unlistAll (h : Editing still held i w) (same : w.page i = p) {bs : List Backing}
    {res : Except Fault Unit} (done : (bs.forM fun b => unlistRef p b.ref : Action Unit).on w =
      (res, w')) : Editing still held i w' ∧ w'.page i = p := by
  induction bs generalizing w with
  | nil =>
    cases done
    exact ⟨h, same⟩
  | cons b rest ih =>
    change (unlistRef p b.ref >>= fun _ => rest.forM fun b => unlistRef p b.ref : Action Unit).on w =
      _ at done
    obtain ⟨_, w₁, first, later⟩ | ⟨_, first, _⟩ := bound done
    · obtain ⟨editing, page⟩ := h.unlist same first
      exact ih editing page later
    · exact h.unlist same first

theorem Editing.unlistAllDone (h : Editing still held i w) (same : w.page i = p)
    {bs : List Backing} {ns rest : List Nat} (listed : contentNodes w.home p.node = .ok ns)
    (some : ns.Perm (bs.map Backing.node ++ rest))
    (resolves : ∀ b ∈ bs, Backing.resolve w.home b.node = .ok b) :
    ∃ w', (bs.forM fun b => unlistRef p b.ref : Action Unit).on w = (.ok (), w') := by
  induction bs generalizing w ns with
  | nil => exact ⟨w, rfl⟩
  | cons b others ih =>
    have here : p.document = 0 := same ▸ h.good.here i h.live
    have dict : w.home.kind p.node = .ok .dict := same ▸ (h.good.attached i h.live).dict
    have member : b.node ∈ ns := some.mem_iff.mpr (by simp)
    obtain ⟨d', c, taken, left⟩ :=
      unlistedNodes h.good.sound dict listed member (resolves b List.mem_cons_self)
    cases first : (unlistRef p b.ref).on w with
    | mk res w₁ =>
      rw [unlistRefOn here] at first
      obtain ⟨e, failed, -⟩ | ⟨d'', c', ws, result, rfl, home, editing, page⟩ :=
        h.changed (fun d' c => unlistedHarmless h.good.sound) first
      · rw [taken] at failed
        cases failed
      · rw [taken] at result
        cases result
        have changed := (unlistedHarmless h.good.sound taken).changed
        have listed' : contentNodes w₁.home p.node = .ok (ns.erase b.node) := by
          rw [home, contentNodesWatches]
          exact left
        have others' : (ns.erase b.node).Perm (others.map Backing.node ++ rest) := by
          have less := some.erase b.node
          rwa [List.map_cons, List.cons_append, List.erase_cons_head] at less
        obtain ⟨w', later⟩ := ih editing (page.trans same) listed' others' fun b member => by
          rw [home]
          exact changed.backing (resolves b (List.mem_cons_of_mem _ member))
        refine ⟨w', ?_⟩
        rw [← unlistRefOn here] at first
        change (unlistRef p b.ref >>= fun _ => others.forM fun b => unlistRef p b.ref :
          Action Unit).on w = _
        rw [thenBound first]
        exact later

theorem delPropertyThere {d : Document} {page : Nat} {v : Value}
    (found : d.property? page contents = .ok (some v)) :
    ∃ d' c, d.delProperty page contents = .ok (d', c) := by
  obtain ⟨es, entries, get⟩ := Document.propertyOk.mp found
  obtain ⟨n, there, -⟩ := Document.entriesOk.mp entries
  refine ⟨d.setData page (n.data.withEntries (es.erase contents)),
    ⟨page, none, .entry contents (some v)⟩, ?_⟩
  simp only [Document.delProperty, Document.nodeOk.mpr there, entries, get, bind, Except.bind]
  rfl

theorem Editing.cleared (h : Editing still held i w) (same : w.page i = p) : ∃ w₁ found,
    w.home.property? p.node contents = .ok found ∧
    (if found.isSome then delProperty p.document p.node contents else pure () : Action Unit).on w =
      (.ok (), w₁) ∧ Editing still held i w₁ ∧ w₁.page i = p ∧
    ∀ b : Backing, b.Holds w.home → b.Holds w₁.home := by
  have here : p.document = 0 := same ▸ h.good.here i h.live
  have dict : w.home.kind p.node = .ok .dict := same ▸ (h.good.attached i h.live).dict
  obtain ⟨n, es, there, data⟩ := Document.dictOk.mp dict
  have entries := Document.entriesOk.mpr ⟨n, there, show n.data.entries? = some es by rw [data]; rfl⟩
  obtain ⟨found, entry⟩ : ∃ found, w.home.property? p.node contents = .ok found :=
    ⟨_, Document.propertyOk.mpr ⟨es, entries, rfl⟩⟩
  cases found with
  | none => exact ⟨w, none, entry, rfl, h, same, fun b holds => holds⟩
  | some v =>
    obtain ⟨d', c, gone⟩ := delPropertyThere entry
    cases done : (change 0 (·.delProperty p.node contents)).on w with
    | mk res w₁ =>
      obtain ⟨e, failed, -⟩ | ⟨d'', c', ws, result, rfl, home, editing, page⟩ :=
        h.changed (fun d' c => delHarmless h.good.sound) done
      · rw [gone] at failed
        cases failed
      · rw [gone] at result
        cases result
        refine ⟨w₁, some v, entry, ?_, editing, page.trans same, fun b holds => ?_⟩
        · rw [if_pos (show (some v).isSome = true from rfl), here]
          exact done
        · have kept : b.Holds d' := holds.revised (delHarmless h.good.sound gone).changed.toRevised
          rw [home]
          exact kept

theorem Editing.write (h : Editing still held i w) (same : w.page i = p)
    (streams : List ContentStream) : ∃ w', (writeList p streams).on w = (.ok (), w') ∧
    Editing still held i w' ∧ w'.page i = p ∧
    ((∀ s ∈ streams, ∀ b ∈ s.backing, b.Holds w.home) →
      contentNodes w'.home p.node = .ok (nodes streams)) := by
  have here : p.document = 0 := same ▸ h.good.here i h.live
  obtain ⟨w₁, found, entry, cleared, h₁, page₁, holds⟩ := h.cleared same
  let bs := streams.flatMap ContentStream.backing
  have refs : (streams.flatMap fun s => s.backing.map fun b => Object.ref b.ref) =
      (bs.map Backing.ref).map .ref := refsObjects streams
  have shape : (writeList p streams).on w = (change 0 (·.setProperty p.node contents
      (.array ((bs.map Backing.ref).map .ref)))).on w₁ := by
    unfold writeList
    rw [documentBound here, liftBound, entry, refs]
    dsimp only
    split
    · rename_i there
      rw [if_pos there] at cleared
      rw [thenBound cleared, here]
      rfl
    · rename_i absent
      rw [if_neg absent] at cleared
      cases cleared
      rw [here]
      rfl
  have dict : w₁.home.kind p.node = .ok .dict := page₁ ▸ (h₁.good.attached i h₁.live).dict
  cases done : (writeList p streams).on w with
  | mk res w' =>
    rw [shape] at done
    obtain ⟨d', c, m, written, -⟩ := arrayWritten dict (bs.map Backing.ref)
    obtain ⟨e, failed, -⟩ | ⟨d'', c', ws, result, rfl, home, editing, page⟩ :=
      h₁.changed (fun d' c => arrayHarmless h₁.good.sound _) done
    · rw [written] at failed
      cases failed
    · refine ⟨w', rfl, editing, page.trans page₁, fun backed => ?_⟩
      obtain ⟨d₂, c₂, again, listed⟩ := arrayNodes dict bs fun b member => by
        obtain ⟨s, there, inside⟩ := List.mem_flatMap.mp member
        exact (holds b (backed s there b inside)).2
      rw [again] at result
      cases result
      rw [home, contentNodesWatches]
      exact listed

end Workspace

end PageContent
