import PageContent.Proofs.Workspace.Edited
import PageContent.Proofs.Workspace.Requests

/-! After a request, whether it succeeds or not, all pages are in order. -/
namespace PageContent.Workspace
open Page PageContent.Action ContentStream

variable {w w' w₁ : Workspace} {i : Nat} {p : Page} {still : Prop} {held : List ContentStream}
  {s : ContentStream} {streams : List ContentStream} {finds : List ContentStream → Prop}
  {res r : Except Fault Unit} {q : Request}

theorem Editing.restored (h : Editing still held i w) (inStep : InStep w.home (w.page i)) :
    InOrder still held (w.wake i) := by
  have awake := h.wake
  refine awake.inOrder fun valid v found => ?_
  obtain ⟨streams, same⟩ := awake.read
  rw [awake.remains.node] at found ⊢
  obtain ⟨-, listed, entry⟩ := awake.contents (w.page i).node
  rw [listed, streams]
  exact inStep (same.symm.trans valid) v ((entry _).symm.trans found)

theorem Editing.ended (h : Editing still held i w) (ends : Request.Ends i w finds res r w')
    (restored : ∀ fault, res = .error fault → InStep w.home (w.page i)) :
    InOrder still held w' := by
  have awake := h.wake
  have live := awake.remains.live.trans h.live
  have read {gs : List ContentStream} (ok : (w.wake i).reading i = .ok gs) :
      InOrder still held ((w.wake i).regrouped i gs) :=
    regroupedInOrder awake.good awake.loud live awake.following ok
  cases ends with
  | failed fault => exact h.restored (restored fault rfl)
  | unread fault => exact invalidInOrder awake.good awake.loud live awake.following
  | lost fault ok _ => exact read ok
  | @renewed gs ok _ =>
    refine (read ok).changed ?_
    rw [regroupedPage live]
    exact live

theorem listedInOrder (h : InOrder still held w) (live : (w.page i).live = true)
    (run : (writeList (w.page i) (w.page i).streams).on (w.hush i) = (res, w₁)) :
    InOrder still held (w₁.wake i) := by
  obtain ⟨_, written, editing, page, listed⟩ :=
    (hushEditing h live).write (hushPage live) (w.page i).streams
  change (writeList (w.page i) _).on _ = _ at written
  cases written.symm.trans run
  refine editing.restored fun _ _ _ => ?_
  rw [page]
  exact listed fun s there b inside => (h.good.attached i live).backed s there b inside

theorem exchangedInOrder (h : InOrder still held w) (live : (w.page i).live = true)
    (run : (writeList (w.page i) streams).on (w.hush i) = (res, w₁))
    (ends : Request.Ends i w₁ finds res r w') : InOrder still held w' := by
  obtain ⟨_, written, editing, -⟩ := (hushEditing h live).write (hushPage live) streams
  change (writeList (w.page i) _).on _ = _ at written
  cases written.symm.trans run
  exact editing.ended ends fun _ failed => by cases failed

theorem behind {streams : List ContentStream} (member : s ∈ streams) :
    ∃ rest, (nodes streams).Perm (s.backing.map Backing.node ++ rest) := by
  obtain ⟨before, after, rfl⟩ := List.append_of_mem member
  refine ⟨nodes before ++ nodes after, ?_⟩
  simp only [nodes, List.flatMap_append, List.flatMap_cons, List.map_append]
  rw [← List.append_assoc, ← List.append_assoc]
  exact (List.perm_append_comm).append_right _

theorem placeOk {stream index : Nat} (ok : p.place stream = .ok index) :
    ∃ t ∈ p.streams, t.id = stream := by
  unfold Page.place at ok
  split at ok
  · rename_i found
    obtain ⟨inside, same, -⟩ := List.findIdx?_eq_some_iff_getElem.mp found
    exact ⟨_, List.getElem_mem inside, by simpa using same⟩
  · cases ok

theorem removedInOrder (h : InOrder still held w) (live : (w.page i).live = true)
    (known : Known held w s) {index : Nat} (place : (w.page i).place s.id = .ok index) {v : Value}
    (entry : w.home.property? (w.page i).node contents = .ok (some v))
    (run : (s.backing.forM fun b => unlistRef (w.page i) b.ref : Action Unit).on (w.hush i) =
      (res, w₁))
    (ends : Request.Ends i w₁ finds res r w') : InOrder still held w' := by
  have editing := hushEditing h live
  have page := hushPage live
  have attached := h.good.attached i live
  change (s.backing.forM fun b => unlistRef { w.page i with quiet := true } b.ref :
    Action Unit).on _ = _ at run
  obtain ⟨editing₁, page₁⟩ := editing.unlistAll page run
  refine editing₁.ended ends fun fault failed valid => ?_
  rw [page₁] at valid
  -- a valid page lists what is behind the stream, so nothing could fail
  obtain ⟨t, there, same⟩ := placeOk place
  have backing := h.good.numbered.same t s (.inr ⟨i, there⟩) known same
  obtain ⟨rest, some⟩ := behind there
  have listed := h.good.inStep i live (by simp) valid v entry
  rw [backing] at some
  obtain ⟨w₂, finished⟩ := editing.unlistAllDone page listed some fun b inside =>
    (attached.backed t there b (backing ▸ inside)).1
  rw [run, failed] at finished
  cases finished

theorem InOrder.grown (h : InOrder still held w) {d' : Document}
    (revised : w.home.Revised none d') : InOrder still held (w.setDocument d') :=
  ⟨grownGood h.good revised, h.hushed⟩

theorem addedInOrder (h : InOrder still held w) (live : (w.page i).live = true) {ref : Ref}
    {side : Side} (run : (listRef (w.page i) ref side).on (w.hush i) = (res, w₁))
    (ends : Request.Ends i w₁ finds res r w') (referable : w'.Referable) : InOrder still held w' := by
  have editing := hushEditing h live
  have page := hushPage live
  have same : w₁.Referable := by
    obtain ⟨homed, -⟩ := editing.listHeard (h.good.here i live) run
    exact (ends.onward homed).referable referable
  change (listRef { w.page i with quiet := true } ref side).on _ = _ at run
  obtain ⟨fault, rfl, rfl⟩ | ⟨rfl, editing₁, -⟩ := editing.list page run fun _ => same
  · refine editing.ended ends fun _ _ => ?_
    rw [page]
    have apart : Apart i w (w.hush i) := .ofPage _
    exact apart.inStep (h.good.inStep i live (by simp))
  · exact editing₁.ended ends fun _ failed => by cases failed

theorem requestInOrder (h : InOrder still held w) (asked : Request.Asked i w q r w')
    (fits : ∀ s, q = .removeStream s → s ∈ held) (referable : w'.Referable) :
    InOrder still held w' := by
  cases asked with
  | refused _ | answered _ => exact h
  | loaded live ok => exact h.load live ok
  | reread live ok => exact h.reread live ok
  | @stored side pieces d ref fault live new unfound =>
    exact h.grown (Document.addIndirectRevised h.good.sound (keyedData _) new)
  | @added side pieces d ref node res r w₁ w' live new found run ends =>
    exact addedInOrder (h.grown (Document.addIndirectRevised h.good.sound (keyedData _) new)) live run
      ends referable
  | @removed q s place v res r w₁ w' which live place entry run ends =>
    have known : Known held w s :=
      which.imp (fits s) fun ⟨_, _, there⟩ => ⟨i, List.mem_of_getElem? there⟩
    exact removedInOrder h live known place entry run ends
  | exchanged _ _ live run ends => exact exchangedInOrder h live run ends
  | listed live run => exact listedInOrder h live run
  | closed live => exact h.closed live

end PageContent.Workspace
