import PageContent.Proofs.Workspace.Called
import PageContent.Proofs.Workspace.Restored

/-! Any calls, one after the other, on one document and on the pages that are open on it. Between
them, what a valid page has read comes from the streams that `/Contents` names. -/
namespace PageContent
open Page ContentStream

namespace Workspace
open PageContent.Action

variable {w w' : Workspace} {i : Nat} {still : Prop} {held : List ContentStream}

theorem startInOrder (still : Prop) : InOrder still [] Session.start.workspace := by
  have gone (i : Nat) : Session.start.workspace.page i = .absent := rfl
  have dead (i : Nat) (live : (Session.start.workspace.page i).live = true) : False := by
    rw [gone] at live
    cases live
  have none (s : ContentStream) (known : Known [] Session.start.workspace s) : False := by
    obtain there | ⟨j, there⟩ := known
    · cases there
    · rw [gone] at there
      cases there
  refine ⟨⟨⟨by decide, rfl⟩, Document.soundEmpty 0, ⟨fun s known => (none s known).elim,
    fun s t known => (none s known).elim⟩, ?_, ?_, ?_, ?_⟩, ?_⟩
  all_goals exact fun i live => (dead i live).elim

theorem InOrder.hold (h : InOrder still held w) {gs : List ContentStream}
    (known : ∀ s ∈ gs, ∃ t, Known held w t ∧ t.id = s.id ∧ t.backing = s.backing) :
    InOrder still (gs ++ held) w := by
  have numbered : Numbered (gs ++ held) w := by
    refine h.good.numbered.renewed [] rfl (Nat.le_refl _) fun s seen => .inr ?_
    obtain there | page := seen
    · obtain new | old := List.mem_append.mp there
      · exact known s new
      · exact ⟨s, .inl old, rfl, rfl⟩
    · exact ⟨s, .inr page, rfl, rfl⟩
  exact ⟨{ h.good with numbered }, h.hushed⟩

theorem registerOk {d d' : Document} {node : Nat} {x : Watcher} (ok : d.register node x = .ok d') :
    d' = { d with watches := d.watches ++ [⟨node, x⟩] } := by
  obtain ⟨_, _, last⟩ := bindOk.mp ok
  exact (pureOk.mp last).symm

theorem InOrder.recorded (h : InOrder still held w) {d' : Document} {node recorder : Nat}
    (ok : w.home.register node (.recorder recorder) = .ok d') : InOrder still held (w.setDocument d') := by
  obtain rfl := registerOk ok
  exact h.aside (homeSet h.good.housed h.good.housed.2) (fun n j => by simp) (by simp [setDocument])
    (fun _ => rfl) (Nat.le_refl _)

theorem InOrder.handed (h : InOrder still held w) {gs : List ContentStream}
    (numbers : gs.map ContentStream.id = List.range' w.nextStream gs.length) :
    InOrder still (gs ++ held) { w with nextStream := w.nextStream + gs.length } := by
  have further : InOrder still held { w with nextStream := w.nextStream + gs.length } :=
    h.aside rfl (fun _ _ => Iff.rfl) rfl (fun _ => rfl) (Nat.le_add_right _ _)
  have numbered : Numbered (gs ++ held) { w with nextStream := w.nextStream + gs.length } := by
    refine h.good.numbered.renewed gs numbers (Nat.le_refl _) fun s seen => ?_
    obtain there | ⟨j, there⟩ := seen
    · obtain new | old := List.mem_append.mp there
      · exact .inl new
      · exact .inr ⟨s, .inl old, rfl, rfl⟩
    · exact .inr ⟨s, .inr ⟨j, there⟩, rfl, rfl⟩
  exact ⟨{ further.good with numbered }, further.hushed⟩

theorem InOrder.weaken {still' : Prop} (h : InOrder still held w) (less : still' → still) :
    InOrder still' held w := by
  have attached (i : Nat) (live : (w.page i).live = true) :
      Attached still' w.home i (w.page i) :=
    { h.good.attached i live with whole := fun quiet => (h.good.attached i live).whole (less quiet) }
  exact ⟨{ h.good with attached }, h.hushed⟩

theorem outsideInOrder {c : Call} (none : c.request? = none) (h : InOrder still held w)
    (fits : c.Fits held) (quiet : still → ∀ node data, c ≠ .setStreamData node data)
    {res : Except Fault (List ContentStream)} (done : c.run.on w = (res, w'))
    (referable : w'.Referable) : InOrder still (Session.received held res) w' := by
  have sound := h.good.sound
  have holds : InOrder still held { w with recorders := w.recorders.push true } :=
    h.aside rfl (fun _ _ => Iff.rfl) rfl (fun _ => rfl) (Nat.le_refl _)
  cases c.outside none done with
  | failed _ => exact h
  | indirect o => exact h.grown (Document.addIndirectRevised sound fits rfl)
  | direct o => exact h.grown (Document.addDirectRevised sound fits rfl)
  | @changed _ node f d c alters ok =>
    have run : (change 0 f).on w = (.ok (), (w.setDocument d).notify 0 c) := by rw [changeOn, ok]
    refine changedInOrder h (fun d' c ok => ?_) run referable
    obtain ⟨changed, payload⟩ := alters.changed sound fits ok
    exact ⟨changed, fun still => payload (quiet still)⟩
  | held _ _ => exact holds
  | observed ok => exact holds.recorded ok
  | observedAgain ok => exact h.recorded ok
  | unobserved recorder node =>
    exact h.aside (homeSet h.good.housed h.good.housed.2) (fun n j => by simp)
      (by simp [setDocument]) (fun _ => rfl) (Nat.le_refl _)
  | dropped _ => exact h.aside rfl (fun _ _ => Iff.rfl) rfl (fun _ => rfl) (Nat.le_refl _)
  | @madeStream _ _ s number =>
    have numbers : [s].map ContentStream.id = List.range' w.nextStream [s].length :=
      congrArg (fun id => [id]) number
    exact h.handed numbers
  | madeGroups _ _ numbers => exact h.handed numbers
  | reread s _ number backing =>
    refine h.hold fun t new => ?_
    obtain rfl := List.mem_singleton.mp new
    exact ⟨s, .inl fits, number.symm, backing.symm⟩
  | @opens node params encoding r _ run =>
    have after := openInOrder h run referable
    cases r with
    | error _ => exact after
    | ok _ => exact after
  | streams i => exact h.hold fun s member => ⟨s, .inr ⟨i, member⟩, rfl, rfl⟩

theorem callInOrder {c : Call} (h : InOrder still held w) (fits : c.Fits held)
    (quiet : still → ∀ node data, c ≠ .setStreamData node data)
    {res : Except Fault (List ContentStream)} (done : c.run.on w = (res, w'))
    (referable : w'.Referable) : InOrder still (Session.received held res) w' := by
  cases asks : c.request? with
  | none => exact outsideInOrder asks h fits quiet done referable
  | some both =>
    obtain ⟨i, q⟩ := both
    have held (s : ContentStream) (same : q = .removeStream s) : s ∈ held := by
      subst same
      rw [Call.asksRemove asks] at fits
      exact fits
    have after := requestInOrder h (c.asked asks h.good.homed done) held referable
    cases res with
    | error _ => exact after
    | ok given =>
      exact after.hold fun s there => ⟨s, .inr ⟨i, Call.givenThere asks done s there⟩, rfl, rfl⟩

end Workspace

namespace Session
open Workspace

theorem reachedInOrder {calls : List Call} {s : Session} (reached : Reached calls s) :
    InOrder (Still calls) s.held s.workspace := by
  induction reached with
  | start => exact startInOrder _
  | @call calls s before c fits referable ih =>
    -- as long as no payload is replaced, none was replaced before
    have earlier : InOrder (Still (c :: calls)) s.held s.workspace :=
      ih.weaken fun still node data member => still node data (List.mem_cons_of_mem _ member)
    cases done : c.run.on s.workspace with
    | mk res w' =>
      have after : s.after c = ⟨w', received s.held res⟩ := by simp [Session.after, done]
      rw [after] at referable ⊢
      refine callInOrder earlier fits (fun still node data same => ?_) done referable
      exact still node data (same ▸ List.mem_cons_self)

/-- Between calls, a page that is open, valid and has `/Contents` has read the streams that
`/Contents` names, in order; and unless a payload was replaced, reading them now gives the same
content streams but for their numbers. -/
theorem pagesInStep {calls : List Call} {s : Session} (reached : Reached calls s) (i : Nat)
    (live : (s.workspace.page i).live = true) (valid : (s.workspace.page i).valid = true) (v : Value)
    (entry : s.workspace.home.property? (s.workspace.page i).node contents = .ok (some v)) :
    let d := s.workspace.home
    let p := s.workspace.page i
    contentNodes d p.node = .ok (nodes p.streams) ∧
    (∀ n ∈ nodes p.streams, d.kind n = .ok .stream) ∧
    (Still calls → ∃ fresh, p.readGroups d s.workspace.nextStream = .ok fresh ∧
      fresh.map unnumbered = p.streams.map unnumbered) := by
  have good := (reachedInOrder reached).good
  have attached := good.attached i live
  have listed := good.inStep i live (by simp) valid v entry
  refine ⟨listed, fun n member => ?_, fun still => ?_⟩
  · obtain ⟨b, inside, rfl⟩ := List.mem_map.mp member
    obtain ⟨t, there, behind⟩ := List.mem_flatMap.mp inside
    exact (resolveOk.mp (attached.backed t there b behind).1).1
  · obtain ⟨id, gs, ok, same⟩ := attached.whole still valid
    obtain ⟨fresh, again, like⟩ := groupsRenumbered ok s.workspace.nextStream
    exact ⟨fresh, bindOk.mpr ⟨_, listed, again⟩, like.trans same⟩

def sharedCalls : List Call :=
  [.removeAt 1 2, .insertElement 3 0 (.ref ⟨1, 0⟩), .add 0 .back [ascii ['f']],
    .openPage 1 .default .latin1, .openPage 1 .default .latin1,
    .addIndirect (.dict [("Contents", .ref ⟨1, 0⟩)]), .addIndirect (.ofData (ascii ['n']))]

theorem pagesInStepOfShared : ∃ s, Reached sharedCalls s ∧
    nodes (s.workspace.page 0).streams = [0, 0] ∧
    contentNodes s.workspace.home (s.workspace.page 0).node =
      .ok (nodes (s.workspace.page 0).streams) := by
  have keyed : (Object.dict [("Contents", .ref ⟨1, 0⟩)]).Keyed := ⟨by simp, trivial, trivial⟩
  have stream := Reached.start.call (.addIndirect (.ofData (ascii ['n']))) (keyedData _)
    (by decide +kernel)
  have page := stream.call (.addIndirect (.dict [("Contents", .ref ⟨1, 0⟩)])) keyed
    (by decide +kernel)
  have first := page.call (.openPage 1 .default .latin1) trivial (by decide +kernel)
  have second := first.call (.openPage 1 .default .latin1) trivial (by decide +kernel)
  have added := second.call (.add 0 .back [ascii ['f']]) trivial (by decide +kernel)
  have twice := added.call (.insertElement 3 0 (.ref ⟨1, 0⟩)) trivial (by decide +kernel)
  have removed := twice.call (.removeAt 1 2) trivial (by decide +kernel)
  exact ⟨_, removed, by decide +kernel,
    (pagesInStep removed 0 (by decide +kernel) (by decide +kernel) (.node 3) (by decide +kernel)).1⟩

end Session

end PageContent
