import Mathlib.Logic.Relation
import PageContent.Proofs.Workspace.Only

/-! What a page does by itself, and that all which becomes of a workspace while a change is told
comes from pages that hear of it and from notes. -/
namespace PageContent.Workspace
open Page Relation

variable {w w' w'' : Workspace} {i j : Nat} {loose : Option Nat}

structure Homed (w : Workspace) : Prop where
  housed : w.Housed
  here : ∀ i, (w.page i).live = true → (w.page i).document = 0

structure Stays (p p' : Page) : Prop where
  document : p'.document = p.document
  node : p'.node = p.node
  params : p'.params = p.params
  live : p'.live = p.live
  watched : p'.watched = p.watched

/-- A page moves its watch, reads what `/Contents` names, reads again what it has read, or does
neither but for what it counts and whether it is valid. -/
inductive Doing (i : Nat) : Workspace → Workspace → Prop where
  | turned {w : Workspace} (live : (w.page i).live = true) (c : Option Nat) : Doing i w (w.turn i c)
  | read {w : Workspace} {gs : List ContentStream} {f : Page → Page}
      (ok : (w.page i).readGroups w.home w.nextStream = .ok gs) (stays : ∀ p, Stays p (f p))
      (hears : ∀ p, (f p).quiet = p.quiet)
      (streams : ∀ s ∈ (f (w.page i)).streams, s ∈ gs ∨ s ∈ (w.page i).streams) :
      Doing i w ({ w with nextStream := w.nextStream + gs.length }.modifyPage i f)
  | reread {w : Workspace} {streams : List ContentStream}
      (ok : (w.page i).streams.mapM (·.reread w.home (w.page i).params) = .ok streams) :
      Doing i w (w.modifyPage i fun p => { p with streams })
  | marked {w : Workspace} {f : Page → Page} (stays : ∀ p, Stays p (f p))
      (hears : ∀ p, (f p).quiet = p.quiet) (same : ∀ p, (f p).streams = p.streams) :
      Doing i w (w.modifyPage i f)

abbrev Doings (i : Nat) : Workspace → Workspace → Prop := ReflTransGen (Doing i)

theorem Stays.placed {p p' : Page} (stays : Stays p p') (hears : p'.quiet = p.quiet) : Placed p p' :=
  ⟨stays.document, stays.node, stays.params, stays.live, hears⟩

theorem Doing.only (does : Doing i w w') (housed : w.Housed) : Only i w w' := by
  cases does with
  | turned live c => exact turnOnly housed live c
  | read _ stays hears _ =>
    exact (Only.read _).trans (.ofPage fun p => (stays p).placed (hears p))
  | reread _ => exact .ofPage fun _ => ⟨rfl, rfl, rfl, rfl, rfl⟩
  | marked stays hears _ => exact .ofPage fun p => (stays p).placed (hears p)

theorem Homed.apart (h : Homed w) (apart : Apart i w w')
    (own : (w'.page i).live = true → (w'.page i).document = 0) : Homed w' := by
  refine ⟨apart.housed h.housed, fun j live => ?_⟩
  by_cases same : j = i
  · subst same
    exact own live
  · rw [apart.others j same] at live ⊢
    exact h.here j live

theorem Homed.only (h : Homed w) (only : Only i w w') : Homed w' := by
  obtain ⟨document, -, -, alive, -⟩ := only.placed
  exact h.apart only.toApart fun live => document.trans (h.here i (alive.symm.trans live))

theorem Homed.put (h : Homed w) {d : Document} (id : d.id = w.home.id) :
    (w.setDocument d).home = d ∧ Homed (w.setDocument d) := by
  have id' : d.id = 0 := id.trans h.housed.2
  have home := homeSet h.housed id'
  exact ⟨home, ⟨by simpa [setDocument] using h.housed.1, by rw [home, id']⟩, h.here⟩

theorem Doings.only (does : Doings i w w') (h : Homed w) : Only i w w' := by
  induction does with
  | refl => exact .refl i w
  | tail _ last ih => exact ih.trans (last.only (h.only ih).housed)

theorem followDoes (h : Homed w) (ok : w.follow i = .ok w') : Doings i w w' := by
  cases live : (w.page i).live with
  | false =>
    simp only [follow, live, Bool.not_false, if_true, pureOk] at ok
    exact ok ▸ .refl
  | true =>
    obtain rfl | ⟨c, rfl⟩ := followShape live (h.here i live) ok
    · exact .refl
    · exact .single (.turned live c)

theorem letGoDoes (h : Homed w) (live : (w.page i).live = true) : Doings i w (w.letGo i) := by
  obtain same | same := letGoShape (h.here i live)
  · rw [same]
  · rw [same]
    exact .single (.turned live none)

theorem loadDoes (h : Homed w) (live : (w.page i).live = true) (ok : w.load i = .ok w') :
    Doing i w w' := by
  rw [loadExact live (h.here i live)] at ok
  obtain ⟨gs, read, rfl⟩ := mapOk.mp ok
  exact .read read (fun _ => ⟨rfl, rfl, rfl, rfl, rfl⟩) (fun _ => rfl) fun _ => .inl

theorem invalidDoes (w : Workspace) (i : Nat) : Doing i w (w.markInvalid i) :=
  .marked (fun _ => ⟨rfl, rfl, rfl, rfl, rfl⟩) (fun _ => rfl) fun _ => rfl

theorem loadOrMarkDoes (h : Homed w) (live : (w.page i).live = true) :
    Doing i w (w.loadOrMark i) := by
  unfold loadOrMark
  cases ok : w.load i with
  | ok w' => exact loadDoes h live ok
  | error fault => exact invalidDoes w i

theorem followLoadDoes (h : Homed w) (live : (w.page i).live = true) (ok : w.follow i = .ok w') :
    Doings i w (w'.loadOrMark i) := by
  have moved := followDoes h ok
  have only := moved.only h
  obtain ⟨-, -, -, alive, -⟩ := only.placed
  exact moved.tail (loadOrMarkDoes (h.only only) (alive.trans live))

theorem reactDoes (h : Homed w) (i : Nat) (c : Change) :
    w.react i c = w ∨ (w.page i).quiet = false ∧ Doings i w (w.react i c) := by
  unfold react
  dsimp only
  split
  · exact .inl rfl
  · rename_i hears
    obtain ⟨loud, live⟩ : (w.page i).quiet = false ∧ (w.page i).live = true := by
      simpa only [Bool.or_eq_true, Bool.not_eq_true', not_or, Bool.not_eq_true, Bool.not_eq_false]
        using hears
    split
    · split
      · split
        · exact .inl rfl
        · refine .inr ⟨loud, ?_⟩
          split
          · exact letGoDoes h live
          · split
            · rename_i ok
              exact followLoadDoes h live ok
            · exact .single (invalidDoes w i)
      · exact .inl rfl
    · split
      · exact .inr ⟨loud, .single (loadOrMarkDoes h live)⟩
      · exact .inl rfl

inductive Hearing (told : Nat → Prop) : Workspace → Workspace → Prop where
  | noted {w : Workspace} (note : Note) : Hearing told w { w with notes := w.notes.push note }
  | page {i : Nat} {w w' : Workspace} (here : told i) (loud : (w.page i).quiet = false)
      (does : Doing i w w') : Hearing told w w'

abbrev Hearings (told : Nat → Prop) : Workspace → Workspace → Prop := ReflTransGen (Hearing told)

variable {told : Nat → Prop}

theorem Hearing.homed (hearing : Hearing told w w') (h : Homed w) : Homed w' := by
  cases hearing with
  | noted => exact ⟨h.housed, h.here⟩
  | page _ _ does => exact h.only (does.only h.housed)

theorem Hearings.keeps {P : Workspace → Prop} (hearings : Hearings told w w') (h : Homed w)
    (before : P w) (each : ∀ {w w'}, Homed w → Hearing told w w' → P w → P w') :
    Homed w' ∧ P w' := by
  induction hearings with
  | refl => exact ⟨h, before⟩
  | tail _ last ih => exact ⟨last.homed ih.1, each ih.1 last ih.2⟩

theorem Doings.hearings (does : Doings i w w') (h : Homed w) (here : told i)
    (loud : (w.page i).quiet = false) : Hearings told w w' := by
  induction does with
  | refl => exact .refl
  | tail before last ih =>
    obtain ⟨-, -, -, -, quiet⟩ := (Doings.only before h).placed
    exact ih.tail (.page here (quiet.trans loud) last)

theorem tellHears (h : Homed w) {watchers : List Watcher} (c : Change)
    (all : ∀ i, .page i ∈ watchers → told i) :
    Hearings told w (watchers.foldl (fun w watcher => w.tell watcher c) w) := by
  induction watchers generalizing w with
  | nil => exact .refl
  | cons watcher rest ih =>
    have first : Hearings told w (w.tell watcher c) := by
      cases watcher with
      | recorder id => exact .single (.noted ⟨id, c⟩)
      | page i =>
        obtain same | ⟨loud, does⟩ := reactDoes h i c
        · rw [tell, same]
        · exact does.hearings h (all i List.mem_cons_self) loud
    have homed := (first.keeps (P := fun _ => True) h trivial fun _ _ _ => trivial).1
    exact first.trans (ih homed fun i member => all i (List.mem_cons_of_mem _ member))

theorem notifyHears (h : Homed w) (c : Change) :
    Hearings (fun i => (w.page i).live = true ∧ ⟨c.node, .page i⟩ ∈ w.home.watches) w
      (w.notify 0 c) := by
  refine tellHears h c fun i member => ?_
  obtain ⟨watches, live⟩ := List.mem_filter.mp member
  obtain ⟨⟨n, x⟩, there, rfl⟩ := List.mem_map.mp watches
  obtain ⟨registered, here⟩ := List.mem_filter.mp there
  obtain rfl : n = c.node := by simpa using here
  exact ⟨live, registered⟩

structure Heard (loose : Option Nat) (w w' : Workspace) : Prop where
  home : ∃ ws, w'.home = { w.home with watches := ws }
  size : w'.documents.size = w.documents.size
  placed : ∀ j, Placed (w.page j) (w'.page j)
  kept : ∀ j, loose = some j → w'.page j = w.page j

namespace Heard

theorem refl (loose : Option Nat) (w : Workspace) : Heard loose w w :=
  ⟨⟨_, rfl⟩, rfl, fun _ => .refl _, fun _ _ => rfl⟩

theorem housed (heard : Heard loose w w') (h : w.Housed) : w'.Housed := by
  obtain ⟨ws, same⟩ := heard.home
  refine ⟨heard.size ▸ h.1, ?_⟩
  rw [same]
  exact h.2

theorem only (h : Heard loose w w') {w'' : Workspace} (only : Only i w' w'')
    (other : loose ≠ some i) : Heard loose w w'' := by
  obtain ⟨ws, same⟩ := h.home
  obtain ⟨ws', same', -⟩ := only.home
  refine ⟨⟨ws', by rw [same', same]⟩, only.size.trans h.size, fun j => ?_, fun j same => ?_⟩
  · by_cases own : j = i
    · subst own
      exact (h.placed j).trans only.placed
    · rw [only.others j own]
      exact h.placed j
  · have apart : j ≠ i := fun own => other (own ▸ same)
    rw [only.others j apart]
    exact h.kept j same

theorem referable (heard : Heard loose w w') (referable : w'.Referable) : w.Referable :=
  referable.before heard.home fun j => (heard.placed j).remains

theorem homed (heard : Heard loose w w') (h : Homed w) : Homed w' := by
  refine ⟨heard.housed h.housed, fun j live => ?_⟩
  obtain ⟨document, -, -, alive, -⟩ := heard.placed j
  exact document.trans (h.here j (alive.symm.trans live))

end Heard

theorem notifyHeard (h : Homed w) (c : Change) : Heard none w (w.notify 0 c) := by
  refine ((notifyHears h c).keeps (P := Heard none w) h (.refl none w)
    fun homed hearing heard => ?_).2
  cases hearing with
  | noted => exact ⟨heard.home, heard.size, heard.placed, heard.kept⟩
  | page _ _ does => exact heard.only (does.only homed.housed) fun same => by cases same

theorem notifySpared (h : Homed w) (c : Change) (quiet : (w.page j).quiet = true) :
    (w.notify 0 c).page j = w.page j := by
  refine ((notifyHears h c).keeps (P := fun w' => w'.page j = w.page j) h rfl
    fun homed hearing same => ?_).2
  cases hearing with
  | noted => exact same
  | @page i w₁ w₂ _ loud does =>
    have other : j ≠ i := by
      rintro rfl
      rw [same, quiet] at loud
      cases loud
    exact ((does.only homed.housed).others j other).trans same

end PageContent.Workspace
