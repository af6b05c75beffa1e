import PageContent.Page.Edit
import PageContent.Proofs.Workspace.Told

/-! Calls that change the document from outside, and those that open, read and reset a page,
leave every page in order, whether they succeed or not. -/
namespace PageContent

namespace Action
variable {α β : Type} {w w' : Workspace}

def on (act : Action α) (w : Workspace) : Except Fault α × Workspace := act.run.run w

theorem bound {x : Action α} {f : α → Action β} {r : Except Fault β}
    (done : (x >>= f).on w = (r, w')) :
    (∃ a w₁, x.on w = (.ok a, w₁) ∧ (f a).on w₁ = (r, w')) ∨
      ∃ e, x.on w = (.error e, w') ∧ r = .error e := by
  simp only [on, ExceptT.run_bind, StateT.run_bind] at done
  rcases first : x.run.run w with ⟨_ | a, w₁⟩
  · rw [first] at done
    cases done
    exact .inr ⟨_, first, rfl⟩
  · rw [first] at done
    exact .inl ⟨a, w₁, first, done⟩

theorem boundOk {x : Action α} {f : α → Action β} {b : β} (done : (x >>= f).on w = (.ok b, w')) :
    ∃ a w₁, x.on w = (.ok a, w₁) ∧ (f a).on w₁ = (.ok b, w') := by
  obtain ⟨a, w₁, first, later⟩ | ⟨_, -, failed⟩ := bound done
  · exact ⟨a, w₁, first, later⟩
  · cases failed

theorem onLift (x : Except Fault α) (w : Workspace) : (liftM x : Action α).on w = (x, w) := by
  cases x <;> rfl

theorem boundLift {x : Except Fault α} {f : α → Action β} {r : Except Fault β}
    (done : ((liftM x : Action α) >>= f).on w = (r, w')) :
    (∃ a, x = .ok a ∧ (f a).on w = (r, w')) ∨ ∃ e, x = .error e ∧ r = .error e ∧ w' = w := by
  obtain ⟨a, w₁, first, done⟩ | ⟨e, first, same⟩ := bound done
  · rw [onLift] at first
    cases first
    exact .inl ⟨a, rfl, done⟩
  · rw [onLift] at first
    cases first
    exact .inr ⟨e, rfl, same, rfl⟩

theorem boundLiftOk {x : Except Fault α} {f : α → Action β} {b : β}
    (done : ((liftM x : Action α) >>= f).on w = (.ok b, w')) :
    ∃ a, x = .ok a ∧ (f a).on w = (.ok b, w') := by
  obtain this | ⟨_, -, failed, -⟩ := boundLift done
  · exact this
  · cases failed

theorem getBound (f : Workspace → Action β) (w : Workspace) : (get >>= f).on w = (f w).on w := rfl

theorem setBound (w₁ : Workspace) (f : PUnit → Action β) (w : Workspace) :
    (set w₁ >>= f).on w = (f ⟨⟩).on w₁ := rfl

theorem modifyBound (g : Workspace → Workspace) (f : PUnit → Action β) (w : Workspace) :
    (modify g >>= f).on w = (f ⟨⟩).on (g w) := rfl

theorem okBound (a : α) (f : α → Action β) (w : Workspace) :
    ((liftM (.ok a : Except Fault α) : Action α) >>= f).on w = (f a).on w := rfl

theorem livePageOn {i : Nat} : (livePage i).on w =
    (if (w.page i).live then .ok (w.page i) else .error (.object .pageReset), w) := by
  unfold livePage
  change (if (w.page i).live then pure (w.page i) else throw _ : Action Page).on w = _
  split <;> rfl

theorem boundLive {i : Nat} {f : Page → Action β} {r : Except Fault β}
    (done : (livePage i >>= f).on w = (r, w')) :
    ((w.page i).live = true ∧ (f (w.page i)).on w = (r, w')) ∨ ∃ e, r = .error e ∧ w' = w := by
  obtain ⟨p, w₁, first, done⟩ | ⟨e, first, same⟩ := bound done
  · rw [livePageOn] at first
    obtain ⟨result, rfl⟩ := Prod.mk.inj first
    split at result
    · rename_i live
      cases result
      exact .inl ⟨live, done⟩
    · cases result
  · rw [livePageOn] at first
    exact .inr ⟨e, same, (Prod.mk.inj first).2.symm⟩

theorem boundLiveOk {i : Nat} {f : Page → Action β} {b : β}
    (done : (livePage i >>= f).on w = (.ok b, w')) :
    (w.page i).live = true ∧ (f (w.page i)).on w = (.ok b, w') := by
  obtain this | ⟨_, failed, -⟩ := boundLive done
  · exact this
  · cases failed

theorem liftBound (x : Except Fault α) (f : α → Action β) (w : Workspace) :
    ((liftM x : Action α) >>= f).on w = match x with
      | .ok a => (f a).on w
      | .error e => (.error e, w) := by
  cases x <;> rfl

theorem thenBound {x : Action α} {a : α} {w₁ : Workspace} (done : x.on w = (.ok a, w₁))
    (f : α → Action β) : (x >>= f).on w = (f a).on w₁ := by
  unfold on at done ⊢
  simp only [ExceptT.run_bind, StateT.run_bind, done]
  rfl

theorem mapOn (x : Action α) (f : α → β) (w : Workspace) :
    (x >>= fun a => pure (f a)).on w = ((x.on w).1.map f, (x.on w).2) := by
  unfold on
  simp only [ExceptT.run_bind, StateT.run_bind]
  rcases x.run.run w with ⟨_ | a, w'⟩ <;> rfl

theorem mapBound {x : Action α} {f : α → β} {r : Except Fault β}
    (done : (x >>= fun a => pure (f a)).on w = (r, w')) :
    ∃ r', x.on w = (r', w') ∧ r = r'.map f := by
  rw [mapOn] at done
  cases done
  exact ⟨_, rfl, rfl⟩

theorem documentBound {p : Page} (here : p.document = 0) (f : Document → Action β) (w : Workspace) :
    (pageDocument p >>= f).on w = (f w.home).on w := by
  unfold Workspace.home
  rw [← here]
  rfl

theorem liveBound {i : Nat} (live : (w.page i).live = true) (f : Page → Action β) :
    (livePage i >>= f).on w = (f (w.page i)).on w :=
  thenBound (by rw [livePageOn, if_pos live]) f

theorem boundLoad {i : Nat} {r : Except Fault Unit} (done : (load i).on w = (r, w')) :
    (r = .ok () ∧ (w.page i).live = true ∧ w.load i = .ok w') ∨ ∃ e, r = .error e ∧ w' = w := by
  change (liftM (w.load i) >>= fun w' => set w' : Action Unit).on w = _ at done
  obtain ⟨w₁, ok, last⟩ | ⟨e, -, failed, same⟩ := boundLift done
  · cases last
    cases live : (w.page i).live with
    | false =>
      simp only [Workspace.load, live, Bool.not_false, if_true] at ok
      cases ok
    | true => exact .inl ⟨rfl, rfl, ok⟩
  · exact .inr ⟨e, failed, same⟩

theorem boundReread {i : Nat} {r : Except Fault Unit} (done : (rereadAll i).on w = (r, w')) :
    (∃ streams, r = .ok () ∧ (w.page i).live = true ∧
      (w.page i).streams.mapM (·.reread (w.document (w.page i).document) (w.page i).params) =
        .ok streams ∧
      w' = (w.modifyPage i fun p => { p with streams }).modifyPage i
        fun p => { p with revision := p.revision + 1 }) ∨ ∃ e, r = .error e ∧ w' = w := by
  obtain ⟨live, done⟩ | failed := boundLive done
  · change (liftM ((w.page i).streams.mapM (·.reread (w.document (w.page i).document)
      (w.page i).params)) >>= _ : Action Unit).on w = _ at done
    obtain ⟨streams, ok, last⟩ | ⟨e, -, failed, same⟩ := boundLift done
    · cases last
      exact .inl ⟨streams, rfl, live, ok, rfl⟩
    · exact .inr ⟨e, failed, same⟩
  · exact .inr failed

end Action

namespace Workspace
open Page PageContent.Action

variable {w w' : Workspace} {i : Nat} {still : Prop} {held held' : List ContentStream}
  {loose : Option Nat}

structure InOrder (still : Prop) (held : List ContentStream) (w : Workspace) : Prop where
  good : Good still held none w
  hushed : Hushed none w

theorem Good.apart (good : Good still held loose w) (apart : Apart i w w')
    (numbered : Numbered held' w') (other : ∀ j, loose = some j → j = i)
    (page : (w'.page i).live = true → (w'.page i).document = 0 ∧
      Attached still w'.home i (w'.page i)) : Good still held' (some i) w' := by
  refine ⟨apart.housed good.housed, apart.sound good.sound, numbered, fun j live => ?_,
    fun j live => ?_, fun j live editing => ?_, fun j live editing => ?_⟩
  · by_cases own : j = i
    · subst own
      exact (page live).1
    · rw [apart.others j own] at live ⊢
      exact good.here j live
  · by_cases own : j = i
    · subst own
      exact (page live).2
    · rw [apart.others j own] at live
      exact apart.attached own (good.attached j live)
  · have own : j ≠ i := fun same => editing (congrArg some same.symm)
    rw [apart.others j own] at live ⊢
    exact apart.following (good.following j live fun same => own (other j same))
  · have own : j ≠ i := fun same => editing (congrArg some same.symm)
    rw [apart.others j own] at live ⊢
    exact apart.inStep (good.inStep j live fun same => own (other j same))

theorem Good.settle (good : Good still held loose w)
    (awake : ∀ j, j ≠ i → (w.page j).live = true → (w.page j).quiet = false)
    (other : ∀ j, loose = some j → j = i) (apart : Apart i w w') (numbered : Numbered held' w')
    (page : (w'.page i).live = true → (w'.page i).document = 0 ∧ (w'.page i).quiet = false ∧
      Attached still w'.home i (w'.page i) ∧ Following w'.home (w'.page i) ∧
      InStep w'.home (w'.page i)) : InOrder still held' w' := by
  have rest := good.apart apart numbered other fun live => ⟨(page live).1, (page live).2.2.1⟩
  refine ⟨{ rest with following := fun j live _ => ?_, inStep := fun j live _ => ?_ },
    fun j live => ?_⟩
  · by_cases own : j = i
    · subst own
      exact (page live).2.2.2.1
    · exact rest.following j live fun same => own (Option.some.inj same).symm
  · by_cases own : j = i
    · subst own
      exact (page live).2.2.2.2
    · exact rest.inStep j live fun same => own (Option.some.inj same).symm
  · have quiet : (w'.page j).quiet = false := by
      by_cases own : j = i
      · subst own
        exact (page live).2.1
      · rw [apart.others j own] at live ⊢
        exact awake j own live
    rw [quiet]
    exact ⟨fun same => (by cases same), fun same => by cases same⟩

theorem InOrder.awake (h : InOrder still held w) (live : (w.page i).live = true) :
    (w.page i).quiet = false := by
  cases quiet : (w.page i).quiet with
  | false => rfl
  | true =>
    have editing := (h.hushed i live).mp quiet
    cases editing

theorem InOrder.settle (h : InOrder still held w) (apart : Apart i w w')
    (numbered : Numbered held' w')
    (page : (w'.page i).live = true → (w'.page i).document = 0 ∧ (w'.page i).quiet = false ∧
      Attached still w'.home i (w'.page i) ∧ Following w'.home (w'.page i) ∧
      InStep w'.home (w'.page i)) : InOrder still held' w' :=
  h.good.settle (fun _ _ live => h.awake live) (fun j same => by cases same) apart numbered page

theorem InOrder.settled (h : InOrder still held w) (live : (w.page i).live = true)
    (settled : Settled still held i w w') : InOrder still held w' := by
  obtain ⟨document, -, -, -, quiet⟩ := settled.only.placed
  exact h.settle settled.only.toApart settled.numbered fun _ =>
    ⟨document.trans (h.good.here i live), quiet.trans (h.awake live), settled.attached,
      settled.following, settled.inStep⟩

theorem InOrder.aside (h : InOrder still held w) {ws : List Watch}
    (home : w'.home = { w.home with watches := ws })
    (same : ∀ n j, ⟨n, .page j⟩ ∈ ws ↔ ⟨n, .page j⟩ ∈ w.home.watches)
    (size : w'.documents.size = w.documents.size) (pages : ∀ j, w'.page j = w.page j)
    (next : w.nextStream ≤ w'.nextStream) : InOrder still held w' := by
  have apart : Apart w.pages.size w w' := ⟨⟨ws, home, fun n j _ => same n j⟩, size, fun j _ => pages j⟩
  refine h.settle apart (h.good.numbered.kept next fun s j member => ?_) fun live => ?_
  · rwa [pages] at member
  · rw [pages] at live
    exact absurd (liveInside live) (Nat.lt_irrefl _)

theorem changeOn (f : Document → Except Fault (Document × Change)) : (change 0 f).on w =
    match f w.home with
    | .ok (d, c) => (.ok (), (w.setDocument d).notify 0 c)
    | .error e => (.error e, w) := by
  unfold change
  rw [getBound, show w.document 0 = w.home from rfl]
  cases f w.home <;> rfl

theorem changedOn (w : Workspace) (i : Nat) : (changed i).on w =
    (.ok (), w.modifyPage i fun p => { p with revision := p.revision + 1 }) := rfl

theorem addIndirectOn (o : Object) : (addIndirect 0 o).on w =
    (.ok (w.home.addIndirect o).2, w.setDocument (w.home.addIndirect o).1) := rfl

theorem changedGood (good : Good still held loose w) (hushed : Hushed loose w)
    {f : Document → Except Fault (Document × Change)}
    (told : ∀ d' c, f w.home = .ok (d', c) → w.home.Changed d' c ∧ (still → c.kind ≠ .payload))
    {r : Except Fault Unit} (done : (change 0 f).on w = (r, w'))
    (referable : ∀ d' c, f w.home = .ok (d', c) → ∀ j, (w.page j).live = true →
      Grounded d' (w.page j).node) :
    (∃ e, f w.home = .error e ∧ r = .error e ∧ w' = w) ∨ ∃ d' c ws, f w.home = .ok (d', c) ∧
      r = .ok () ∧ w'.home = { d' with watches := ws } ∧ Good still held loose w' ∧
      Hushed loose w' ∧ Heard loose (w.setDocument d') w' := by
  rw [changeOn] at done
  cases result : f w.home with
  | error e =>
    rw [result] at done
    cases done
    exact .inl ⟨e, rfl, rfl, rfl⟩
  | ok both =>
    obtain ⟨d', c⟩ := both
    rw [result] at done
    cases done
    obtain ⟨changed, payload⟩ := told d' c result
    obtain ⟨good', hushed', heard⟩ := changeGood good hushed changed payload (referable d' c result)
    obtain ⟨ws, home⟩ := heard.home
    rw [homeRevised good.housed changed.toRevised] at home
    exact .inr ⟨d', c, ws, rfl, rfl, home, good', hushed', heard⟩

theorem Good.homed (good : Good still held loose w) : Homed w := ⟨good.housed, good.here⟩

theorem changeHeard (h : Homed w) {f : Document → Except Fault (Document × Change)} {r : Except Fault Unit}
    (done : (change 0 f).on w = (r, w')) {d' : Document} {c : Change}
    (result : f w.home = .ok (d', c)) (id : d'.id = w.home.id) :
    Heard none (w.setDocument d') w' ∧ (w.setDocument d').home = d' ∧ Homed w' := by
  rw [changeOn, result] at done
  cases done
  obtain ⟨home, homed⟩ := h.put id
  have heard := notifyHeard homed c
  exact ⟨heard, home, heard.homed homed⟩

theorem changedReferable (good : Good still held loose w)
    {f : Document → Except Fault (Document × Change)} {r : Except Fault Unit}
    (done : (change 0 f).on w = (r, w')) (referable : w'.Referable) {d' : Document} {c : Change}
    (result : f w.home = .ok (d', c)) (id : d'.id = w.home.id) (j : Nat)
    (live : (w.page j).live = true) : Grounded d' (w.page j).node := by
  obtain ⟨heard, home, -⟩ := changeHeard good.homed done result id
  have grounded := heard.referable referable j live
  rwa [home] at grounded

theorem changedInOrder (h : InOrder still held w) {f : Document → Except Fault (Document × Change)}
    (told : ∀ d' c, f w.home = .ok (d', c) → w.home.Changed d' c ∧ (still → c.kind ≠ .payload))
    {r : Except Fault Unit} (done : (change 0 f).on w = (r, w')) (referable : w'.Referable) :
    InOrder still held w' := by
  have before (d' : Document) (c : Change) (result : f w.home = .ok (d', c)) :=
    changedReferable h.good done referable result (told d' c result).1.id
  obtain ⟨-, -, -, rfl⟩ | ⟨-, -, -, -, -, -, good, hushed, -⟩ :=
    changedGood h.good h.hushed told done before
  · exact h
  · exact ⟨good, hushed⟩

theorem grownGood (good : Good still held loose w) {d' : Document}
    (revised : w.home.Revised none d') : Good still held loose (w.setDocument d') := by
  have id : d'.id = 0 := revised.id.trans good.housed.2
  have home : (w.setDocument d').home = d' := homeSet good.housed id
  have entry (i : Nat) (live : (w.page i).live = true) :
      d'.property? (w.page i).node contents = w.home.property? (w.page i).node contents :=
    revisedProperty revised (good.attached i live).dict (by simp) contents
  refine ⟨⟨by simpa [setDocument] using good.housed.1, by rw [home, id]⟩, by rw [home]; exact
    revised.sound, ⟨good.numbered.below, good.numbered.same⟩, good.here, fun i live => ?_,
    fun i live other => ?_, fun i live other => ?_⟩
  · rw [home]
    exact (good.attached i live).revised revised
      ((good.attached i live).grounded.revised revised (entry i live))
      fun _ => revised.keeps.payloads
  · rw [home]
    exact (good.following i live other).revised revised (good.attached i live).grounded (entry i live)
  · rw [home]
    exact (good.inStep i live other).revised (good.following i live other) revised (entry i live)
      fun n _ => by simp

end Workspace

end PageContent
