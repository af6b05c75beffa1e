import PageContent.Workspace
import PageContent.Proofs.Page.Kept

/-! What a page does on its own account: it moves its registrations and reads, and leaves
the containers and the other pages as they are. -/
namespace PageContent.Workspace
open Page

abbrev home (w : Workspace) : Document := w.document 0

def Housed (w : Workspace) : Prop := 0 < w.documents.size ∧ w.home.id = 0

variable {w w' w'' : Workspace} {i j : Nat} {still : Prop} {loose : Option Nat}

theorem homeSet (housed : w.Housed) {d : Document} (id : d.id = 0) : (w.setDocument d).home = d := by
  unfold home document setDocument
  rw [id, Array.getD_eq_getD_getElem?, Array.getElem?_setIfInBounds_self_of_lt housed.1,
    Option.getD_some]

theorem homeRevised (housed : w.Housed) {touched : Option Nat} {d : Document}
    (revised : w.home.Revised touched d) : (w.setDocument d).home = d :=
  homeSet housed (revised.id.trans housed.2)

theorem pageOther (apart : j ≠ i) (f : Page → Page) : (w.modifyPage i f).page j = w.page j := by
  unfold page modifyPage
  rw [Array.getD_eq_getD_getElem?, Array.getD_eq_getD_getElem?, Array.getElem?_modify,
    if_neg (Ne.symm apart)]

theorem liveInside (live : (w.page i).live = true) : i < w.pages.size := by
  refine Nat.not_le.mp fun outside => ?_
  unfold page at live
  rw [Array.getD_eq_getD_getElem?, Array.getElem?_eq_none outside] at live
  cases live

theorem pageModified (inside : i < w.pages.size) (f : Page → Page) :
    (w.modifyPage i f).page i = f (w.page i) := by
  unfold page modifyPage
  rw [Array.getD_eq_getD_getElem?, Array.getD_eq_getD_getElem?, Array.getElem?_modify, if_pos rfl,
    Array.getElem?_eq_getElem inside, Option.map_some, Option.getD_some, Option.getD_some]

theorem modifiedCases (w : Workspace) (i j : Nat) (f : Page → Page) :
    (w.modifyPage i f).page j = w.page j ∨ j = i ∧ (w.modifyPage i f).page j = f (w.page j) := by
  by_cases own : j = i
  · subst own
    by_cases inside : j < w.pages.size
    · exact .inr ⟨rfl, pageModified inside f⟩
    · refine .inl ?_
      unfold page modifyPage
      rw [Array.getD_eq_getD_getElem?, Array.getD_eq_getD_getElem?, Array.getElem?_modify, if_pos rfl,
        Array.getElem?_eq_none (Nat.not_lt.mp inside)]
      rfl
  · exact .inl (pageOther own f)

def Placed (p p' : Page) : Prop :=
  p'.document = p.document ∧ p'.node = p.node ∧ p'.params = p.params ∧ p'.live = p.live ∧
    p'.quiet = p.quiet

theorem Placed.refl (p : Page) : Placed p p := ⟨rfl, rfl, rfl, rfl, rfl⟩

theorem Placed.trans {p p' p'' : Page} (first : Placed p p') (later : Placed p' p'') :
    Placed p p'' := by
  obtain ⟨document, node, params, live, quiet⟩ := first
  obtain ⟨document', node', params', live', quiet'⟩ := later
  exact ⟨document'.trans document, node'.trans node, params'.trans params, live'.trans live,
    quiet'.trans quiet⟩

structure Apart (i : Nat) (w w' : Workspace) : Prop where
  home : ∃ ws, w'.home = { w.home with watches := ws } ∧
    ∀ n j, j ≠ i → (⟨n, .page j⟩ ∈ ws ↔ ⟨n, .page j⟩ ∈ w.home.watches)
  size : w'.documents.size = w.documents.size
  others : ∀ j, j ≠ i → w'.page j = w.page j

namespace Apart

theorem refl (i : Nat) (w : Workspace) : Apart i w w :=
  ⟨⟨_, rfl, fun _ _ _ => Iff.rfl⟩, rfl, fun _ _ => rfl⟩

theorem trans (first : Apart i w w') (later : Apart i w' w'') : Apart i w w'' := by
  obtain ⟨ws, same, watched⟩ := first.home
  obtain ⟨ws', same', watched'⟩ := later.home
  refine ⟨⟨ws', by rw [same', same], fun n j other => (watched' n j other).trans ?_⟩,
    later.size.trans first.size, fun j apart => (later.others j apart).trans (first.others j apart)⟩
  rw [same]
  exact watched n j other

theorem ofWatches (housed : w.Housed) {ws : List Watch}
    (same : ∀ n j, j ≠ i → (⟨n, .page j⟩ ∈ ws ↔ ⟨n, .page j⟩ ∈ w.home.watches)) :
    Apart i w (w.setDocument { w.home with watches := ws }) :=
  ⟨⟨ws, homeSet housed housed.2, same⟩, by simp [setDocument], fun _ _ => rfl⟩

theorem ofPage (f : Page → Page) : Apart i w (w.modifyPage i f) :=
  ⟨⟨_, rfl, fun _ _ _ => Iff.rfl⟩, rfl, fun _ apart => pageOther apart f⟩

theorem housed (apart : Apart i w w') (h : w.Housed) : w'.Housed := by
  obtain ⟨ws, same, -⟩ := apart.home
  refine ⟨apart.size ▸ h.1, ?_⟩
  rw [same]
  exact h.2

theorem sound (apart : Apart i w w') (h : w.home.Sound) : w'.home.Sound := by
  obtain ⟨ws, same, -⟩ := apart.home
  rw [same]
  exact ⟨h.objects, h.values, h.keyed⟩

theorem contents (apart : Apart i w w') (page : Nat) :
    contentsNode? w'.home page = contentsNode? w.home page ∧
    contentNodes w'.home page = contentNodes w.home page ∧
    ∀ key, w'.home.property? page key = w.home.property? page key := by
  obtain ⟨ws, same, -⟩ := apart.home
  rw [same]
  exact ⟨rfl, contentNodesWatches ws page, fun _ => rfl⟩

theorem attached (apart : Apart i w w') (other : j ≠ i) (h : Attached still w.home j (w.page j)) :
    Attached still w'.home j (w'.page j) := by
  obtain ⟨ws, same, watched⟩ := apart.home
  rw [apart.others j other, same]
  exact h.watches fun n registered => (watched n j other).mpr registered

theorem following (apart : Apart i w w') {p : Page} (h : Following w.home p) :
    Following w'.home p := by
  intro c ok
  rw [(apart.contents p.node).1] at ok
  exact h c ok

theorem inStep (apart : Apart i w w') {p : Page} (h : InStep w.home p) : InStep w'.home p := by
  intro valid v found
  obtain ⟨-, same, entry⟩ := apart.contents p.node
  rw [same]
  exact h valid v ((entry _).symm.trans found)

end Apart

structure Only (i : Nat) (w w' : Workspace) : Prop extends Apart i w w' where
  placed : Placed (w.page i) (w'.page i)

namespace Only

theorem refl (i : Nat) (w : Workspace) : Only i w w :=
  ⟨.refl i w, .refl _⟩

theorem trans (first : Only i w w') (later : Only i w' w'') : Only i w w'' :=
  ⟨first.toApart.trans later.toApart, first.placed.trans later.placed⟩

theorem ofPage {f : Page → Page} (placed : ∀ p, Placed p (f p)) : Only i w (w.modifyPage i f) := by
  refine ⟨.ofPage f, ?_⟩
  obtain same | ⟨-, same⟩ := modifiedCases w i i f
  · rw [same]
    exact .refl _
  · rw [same]
    exact placed _

theorem read (n : Nat) : Only i w { w with nextStream := n } :=
  ⟨⟨⟨_, rfl, fun _ _ _ => Iff.rfl⟩, rfl, fun _ _ => rfl⟩, .refl _⟩

end Only

structure Remains (p p' : Page) : Prop where
  document : p'.document = p.document
  node : p'.node = p.node
  live : p'.live = p.live

theorem Remains.refl (p : Page) : Remains p p :=
  ⟨rfl, rfl, rfl⟩

theorem Placed.remains {p p' : Page} (placed : Placed p p') : Remains p p' := by
  obtain ⟨document, node, -, live, -⟩ := placed
  exact ⟨document, node, live⟩

def Referable (w : Workspace) : Prop :=
  ∀ i, (w.page i).live = true → Grounded w.home (w.page i).node

instance (w : Workspace) : Decidable w.Referable :=
  decidable_of_iff (∀ i, i < w.pages.size → (w.page i).live = true → Grounded w.home (w.page i).node)
    ⟨fun h i live => h i (liveInside live) live, fun h i _ => h i⟩

theorem Referable.before (referable : w'.Referable)
    (home : ∃ ws, w'.home = { w.home with watches := ws })
    (remains : ∀ j, Remains (w.page j) (w'.page j)) : w.Referable := by
  obtain ⟨ws, same⟩ := home
  intro j live
  have grounded := referable j ((remains j).live.trans live)
  rw [(remains j).node, same] at grounded
  exact grounded

structure Onward (i : Nat) (w w' : Workspace) : Prop extends Apart i w w' where
  remains : Remains (w.page i) (w'.page i)

namespace Onward

theorem trans (first : Onward i w w') (later : Onward i w' w'') : Onward i w w'' := by
  obtain ⟨document, node, live⟩ := first.remains
  obtain ⟨document', node', live'⟩ := later.remains
  exact ⟨first.toApart.trans later.toApart, document'.trans document, node'.trans node,
    live'.trans live⟩

theorem ofPage {f : Page → Page} (remains : ∀ p, Remains p (f p)) :
    Onward i w (w.modifyPage i f) := by
  refine ⟨.ofPage f, ?_⟩
  obtain same | ⟨-, same⟩ := modifiedCases w i i f
  · rw [same]
    exact .refl _
  · rw [same]
    exact remains _

theorem referable (onward : Onward i w w') (referable : w'.Referable) : w.Referable := by
  obtain ⟨ws, same, -⟩ := onward.home
  refine referable.before ⟨ws, same⟩ fun j => ?_
  by_cases own : j = i
  · exact own ▸ onward.remains
  · rw [onward.others j own]
    exact .refl _

end Onward

theorem Only.onward (only : Only i w w') : Onward i w w' :=
  ⟨only.toApart, only.placed.remains⟩

theorem registered {d : Document} {n : Nat} {k : Kind} (there : d.kind n = .ok k) (x : Watcher) :
    d.register n x = .ok { d with watches := d.watches ++ [⟨n, x⟩] } := by
  obtain ⟨node, found, -⟩ := Document.kindOk.mp there
  simp [Document.register, Document.nodeOk.mpr found, bind, Except.bind, pure, Except.pure]

def turned (watches : List Watch) (i : Nat) (old new : Option Nat) : List Watch :=
  watches.filter (fun x => old.all fun n => x ≠ ⟨n, .page i⟩) ++
    new.toList.map fun n => ⟨n, .page i⟩

theorem turnedOther {watches : List Watch} {old new : Option Nat} {n : Nat} (other : j ≠ i) :
    ⟨n, .page j⟩ ∈ turned watches i old new ↔ ⟨n, .page j⟩ ∈ watches := by
  cases old <;> cases new <;> simp [turned, other]

theorem turnedKept {watches : List Watch} {old new : Option Nat} {n : Nat}
    (h : ⟨n, .page i⟩ ∈ watches) (other : old ≠ some n) : ⟨n, .page i⟩ ∈ turned watches i old new := by
  refine List.mem_append_left _ (List.mem_filter.mpr ⟨h, ?_⟩)
  cases old with
  | none => rfl
  | some m =>
    have apart : n ≠ m := fun same => other (congrArg some same.symm)
    simp [apart]

theorem turnedNew {watches : List Watch} {old : Option Nat} {n : Nat} :
    ⟨n, .page i⟩ ∈ turned watches i old (some n) := by
  simp [turned]

def turn (w : Workspace) (i : Nat) (c : Option Nat) : Workspace :=
  (w.setDocument { w.home with
    watches := turned w.home.watches i (w.page i).watched c }).modifyPage i
      fun p => { p with watched := c }

theorem turnPage (live : (w.page i).live = true) (c : Option Nat) :
    (w.turn i c).page i = { w.page i with watched := c } :=
  pageModified (liveInside live) _

theorem turnApart (housed : w.Housed) (c : Option Nat) : Apart i w (w.turn i c) :=
  (Apart.ofWatches housed fun _ _ other => turnedOther other).trans (.ofPage _)

theorem turnOnly (housed : w.Housed) (live : (w.page i).live = true) (c : Option Nat) :
    Only i w (w.turn i c) := by
  refine ⟨turnApart housed c, ?_⟩
  rw [turnPage live]
  exact ⟨rfl, rfl, rfl, rfl, rfl⟩

theorem turnAttached (housed : w.Housed) (live : (w.page i).live = true)
    (h : Attached still w.home i (w.page i)) {c : Option Nat}
    (apart : ∀ n, c = some n → n ≠ (w.page i).node) :
    Attached still (w.turn i c).home i ((w.turn i c).page i) := by
  let ws := turned w.home.watches i (w.page i).watched c
  have home : (w.turn i c).home = { w.home with watches := ws } := homeSet housed housed.2
  have own : ⟨(w.page i).node, .page i⟩ ∈ ws :=
    turnedKept h.own fun watched => (h.entry _ watched).1 rfl
  rw [home, turnPage live]
  refine ⟨h.dict, own, fun n watched => ⟨apart n watched, ?_⟩, h.backed,
    fun quiet valid => (h.whole quiet valid).watches ws, h.grounded⟩
  obtain rfl : c = some n := watched
  exact turnedNew

theorem followTurn (live : (w.page i).live = true) (here : (w.page i).document = 0) {c : Option Nat}
    (found : contentsNode? w.home (w.page i).node = .ok c)
    (there : ∀ n, c = some n → ∃ k, w.home.kind n = .ok k) (other : c ≠ (w.page i).watched) :
    w.follow i = .ok (w.turn i c) := by
  have register : ∀ n x ws, c = some n → ({ w.home with watches := ws } : Document).register n x =
      .ok { w.home with watches := ws ++ [⟨n, x⟩] } := by
    intro n x ws same
    obtain ⟨k, kind⟩ := there n same
    exact registered (d := { w.home with watches := ws }) kind x
  unfold follow turn
  simp only [live, here, Bool.not_true, Bool.false_eq_true, if_false]
  rw [found]
  simp only [bind, Except.bind, if_neg other]
  cases watched : (w.page i).watched with
  | none =>
    cases c with
    | none => exact absurd watched.symm other
    | some n =>
      have kept : w.home.register n (.page i) = _ := register n (.page i) w.home.watches rfl
      simp only [kept, pure, Except.pure]
      simp [turned, List.filter_eq_self.mpr]
  | some old =>
    cases c with
    | none => simp [turned, Document.unregister, pure, Except.pure]
    | some n =>
      have kept := register n (.page i) (w.home.unregister old (.page i)).watches rfl
      simp only [Document.unregister] at kept ⊢
      simp only [kept, pure, Except.pure]
      simp [turned]

theorem followShape (live : (w.page i).live = true) (here : (w.page i).document = 0)
    (ok : w.follow i = .ok w') : w' = w ∨ ∃ c, w' = w.turn i c := by
  unfold follow at ok
  simp only [live, here, Bool.not_true, Bool.false_eq_true, if_false] at ok
  obtain ⟨c, found, ok⟩ := bindOk.mp ok
  split at ok
  · exact .inl (pureOk.mp ok).symm
  · refine .inr ⟨c, ?_⟩
    cases c with
    | none =>
      obtain ⟨d, moved, last⟩ := bindOk.mp ok
      obtain rfl := pureOk.mp last
      cases watched : (w.page i).watched with
      | none =>
        simp only [watched] at moved
        cases moved
        simp [turn, turned, watched, List.filter_eq_self.mpr]
      | some old =>
        simp only [watched] at moved
        cases moved
        simp [turn, turned, watched, Document.unregister]
    | some n =>
      obtain ⟨d, moved, last⟩ := bindOk.mp ok
      obtain rfl := pureOk.mp last
      cases watched : (w.page i).watched with
      | none =>
        simp only [watched, Document.register, bindOk, pureOk] at moved
        obtain ⟨-, -, rfl⟩ := moved
        simp [turn, turned, watched, List.filter_eq_self.mpr]
      | some old =>
        simp only [watched, Document.register, bindOk, pureOk] at moved
        obtain ⟨-, -, rfl⟩ := moved
        simp [turn, turned, watched, Document.unregister]

theorem letGoShape (here : (w.page i).document = 0) :
    w.letGo i = w ∨ w.letGo i = w.turn i none := by
  cases watched : (w.page i).watched with
  | none => exact .inl (by simp [letGo, watched])
  | some old => exact .inr (by simp [letGo, watched, here, Document.unregister, turn, turned])

theorem loadExact (live : (w.page i).live = true) (here : (w.page i).document = 0) : w.load i =
    ((w.page i).readGroups w.home w.nextStream).map fun gs =>
      ({ w with nextStream := w.nextStream + gs.length }.modifyPage i
        fun p => { p with streams := gs, valid := true, revision := p.revision + 1 }) := by
  unfold load
  simp only [live, here, Bool.not_true, Bool.false_eq_true, if_false]
  cases (w.page i).readGroups w.home w.nextStream <;> rfl

theorem followKept (housed : w.Housed) (sound : w.home.Sound) (live : (w.page i).live = true)
    (here : (w.page i).document = 0) (h : Attached still w.home i (w.page i)) :
    (∃ w' c, w.follow i = .ok w' ∧ Only i w w' ∧ w'.page i = { w.page i with watched := c } ∧
      w'.nextStream = w.nextStream ∧ Attached still w'.home i (w'.page i) ∧
      Following w'.home (w'.page i)) ∨
    ∃ fault, w.follow i = .error fault ∧ Following w.home (w.page i) := by
  cases found : contentsNode? w.home (w.page i).node with
  | error fault =>
    refine .inr ⟨fault, ?_, fun c ok => ?_⟩
    · unfold follow
      simp [live, here, found, bind, Except.bind]
    · rw [found] at ok
      cases ok
  | ok c =>
    by_cases same : c = (w.page i).watched
    · refine .inl ⟨w, c, ?_, .refl i w, by rw [same], rfl, h, fun c' ok => ?_⟩
      · unfold follow
        simp [live, here, found, same, bind, Except.bind, pure, Except.pure]
      · rw [found] at ok
        cases ok
        exact same.symm
    · have apart : ∀ n, c = some n → n ≠ (w.page i).node ∧ ∃ k, w.home.kind n = .ok k := by
        rintro n rfl
        exact h.grounded.apart sound found
      have only := turnOnly housed live c
      refine .inl ⟨_, c, followTurn live here found (fun n same => (apart n same).2) same, only,
        turnPage live c, rfl, turnAttached housed live h fun n same => (apart n same).1,
        fun c' ok => ?_⟩
      rw [(only.contents _).1, turnPage live] at ok
      rw [turnPage live]
      exact Except.ok.inj (found.symm.trans ok)

theorem letGoKept (housed : w.Housed) (live : (w.page i).live = true)
    (here : (w.page i).document = 0) (h : Attached still w.home i (w.page i)) :
    Only i w (w.letGo i) ∧ (w.letGo i).page i = { w.page i with watched := none } ∧
    (w.letGo i).nextStream = w.nextStream ∧
    Attached still (w.letGo i).home i ((w.letGo i).page i) := by
  cases watched : (w.page i).watched with
  | none =>
    have same : w.letGo i = w := by simp [letGo, watched]
    rw [same, ← watched]
    exact ⟨.refl i w, rfl, rfl, h⟩
  | some old =>
    have same : w.letGo i = w.turn i none := by
      simp [letGo, watched, here, Document.unregister, turn, turned]
    rw [same]
    exact ⟨turnOnly housed live none, turnPage live none, rfl,
      turnAttached housed live h fun n same => by cases same⟩

def Known (held : List ContentStream) (w : Workspace) (s : ContentStream) : Prop :=
  s ∈ held ∨ ∃ i, s ∈ (w.page i).streams

structure Numbered (held : List ContentStream) (w : Workspace) : Prop where
  below : ∀ s, Known held w s → s.id < w.nextStream
  same : ∀ s t, Known held w s → Known held w t → s.id = t.id → s.backing = t.backing

theorem Numbered.renewed {held held' : List ContentStream} (h : Numbered held w)
    (gs : List ContentStream) (numbers : gs.map ContentStream.id = List.range' w.nextStream gs.length)
    (next : w.nextStream + gs.length ≤ w'.nextStream)
    (known : ∀ s, Known held' w' s →
      s ∈ gs ∨ ∃ t, Known held w t ∧ t.id = s.id ∧ t.backing = s.backing) :
    Numbered held' w' := by
  obtain ⟨fresh, distinct⟩ := ContentStream.numberedApart numbers
  refine ⟨fun s seen => ?_, fun s t seen seen' same => ?_⟩
  · obtain new | ⟨t, old, number, -⟩ := known s seen
    · have := fresh s new
      omega
    · have := h.below t old
      omega
  · obtain new | ⟨a, old, number, backing⟩ := known s seen
    · obtain new' | ⟨b, old', number', backing'⟩ := known t seen'
      · rw [distinct s new t new' same]
      · have := fresh s new
        have := h.below b old'
        omega
    · obtain new' | ⟨b, old', number', backing'⟩ := known t seen'
      · have := fresh t new'
        have := h.below a old
        omega
      · rw [← backing, ← backing']
        exact h.same a b old old' (number.trans (same.trans number'.symm))

theorem Numbered.kept {held : List ContentStream} (h : Numbered held w)
    (next : w.nextStream ≤ w'.nextStream)
    (known : ∀ s j, s ∈ (w'.page j).streams → s ∈ (w.page j).streams) : Numbered held w' := by
  refine h.renewed [] rfl next fun s seen => .inr ⟨s, ?_, rfl, rfl⟩
  obtain there | ⟨j, there⟩ := seen
  · exact .inl there
  · exact .inr ⟨j, known s j there⟩

theorem Numbered.only {held : List ContentStream} (h : Numbered held w) (apart : Apart i w w')
    (streams : (w'.page i).streams = (w.page i).streams) (next : w'.nextStream = w.nextStream) :
    Numbered held w' := by
  refine h.kept (Nat.le_of_eq next.symm) fun s j member => ?_
  by_cases same : j = i
  · subst same
    rwa [streams] at member
  · rwa [apart.others j same] at member

end PageContent.Workspace
