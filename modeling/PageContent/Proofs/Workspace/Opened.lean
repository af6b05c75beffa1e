import PageContent.Proofs.Workspace.Calls

/-! Pages are opened, read again and reset, and leave each other in order. -/
namespace PageContent

namespace ContentStream
variable {d : Document} {params : Params} {streams streams' : List ContentStream}

theorem readRenumbered {id : Nat} {backing : List Backing} {s : ContentStream}
    (ok : read d id backing params = .ok s) (id' : Nat) :
    read d id' backing params = .ok { s with id := id' } := by
  obtain ⟨first, rest, b, t, same, run, closed, rfl⟩ := readOk.mp ok
  exact readOk.mpr ⟨first, rest, b, t, same, run, closed, rfl⟩

theorem Whole.reread (h : Whole d params streams) : ∀ s ∈ streams, s.reread d params = .ok s := by
  obtain ⟨id, gs, ok, same⟩ := h
  obtain ⟨-, -, -, each⟩ := groupsOf ok
  intro s member
  have there : s.unnumbered ∈ gs.map unnumbered := same ▸ List.mem_map_of_mem member
  obtain ⟨g, group, like⟩ := List.mem_map.mp there
  have renumbered : { g with id := s.id } = s := by
    cases g
    cases s
    simpa [unnumbered] using like
  have backing : g.unnumbered.backing = s.unnumbered.backing := congrArg ContentStream.backing like
  change g.backing = s.backing at backing
  have again := readRenumbered (each g group) s.id
  rw [renumbered, backing] at again
  exact again

theorem rereadKept {s s' : ContentStream} (ok : s.reread d params = .ok s') :
    s'.id = s.id ∧ s'.backing = s.backing := by
  obtain ⟨-, -, -, -, -, -, -, rfl⟩ := readOk.mp ok
  exact ⟨rfl, rfl⟩

theorem rereadAllKept (ok : streams.mapM (·.reread d params) = .ok streams') :
    nodes streams' = nodes streams ∧
    (∀ s' ∈ streams', ∃ s ∈ streams, s.id = s'.id ∧ s.backing = s'.backing) ∧
    ((∀ s ∈ streams, s.reread d params = .ok s) → streams' = streams) := by
  induction streams generalizing streams' with
  | nil =>
    rw [List.mapM_nil] at ok
    cases ok
    exact ⟨rfl, fun _ member => (by cases member), fun _ => rfl⟩
  | cons s rest ih =>
    rw [List.mapM_cons] at ok
    obtain ⟨s', first, ok⟩ := bindOk.mp ok
    obtain ⟨rest', later, last⟩ := bindOk.mp ok
    cases last
    obtain ⟨same, each, fresh⟩ := ih later
    obtain ⟨id, backing⟩ := rereadKept first
    refine ⟨?_, fun t member => ?_, fun again => ?_⟩
    · rw [nodes] at same ⊢
      rw [nodes, List.flatMap_cons, List.flatMap_cons, List.map_append, List.map_append, same, backing,
        nodes]
    · obtain rfl | after := List.mem_cons.mp member
      · exact ⟨s, List.mem_cons_self, id.symm, backing.symm⟩
      · obtain ⟨t', there, like⟩ := each t after
        exact ⟨t', List.mem_cons_of_mem _ there, like⟩
    · have here := again s List.mem_cons_self
      rw [here] at first
      cases first
      rw [fresh fun t there => again t (List.mem_cons_of_mem _ there)]

end ContentStream

namespace Workspace
open Page PageContent.Action ContentStream

variable {w w' : Workspace} {i : Nat} {still : Prop} {held : List ContentStream}

theorem InOrder.inPlace (h : InOrder still held w) (live : (w.page i).live = true) {f : Page → Page}
    (placed : Placed (w.page i) (f (w.page i))) (watched : (f (w.page i)).watched = (w.page i).watched)
    (valid : (f (w.page i)).valid = (w.page i).valid)
    (same : nodes (f (w.page i)).streams = nodes (w.page i).streams)
    (each : ∀ s' ∈ (f (w.page i)).streams, ∃ s ∈ (w.page i).streams,
      s.id = s'.id ∧ s.backing = s'.backing)
    (fresh : still → (w.page i).valid = true → (f (w.page i)).streams = (w.page i).streams) :
    InOrder still held (w.modifyPage i f) := by
  have inside := liveInside live
  have attached := h.good.attached i live
  obtain ⟨document, node, params, -, quiet⟩ := placed
  have numbered : Numbered held (w.modifyPage i f) := by
    refine h.good.numbered.renewed [] rfl (Nat.le_refl _) fun s seen => .inr ?_
    obtain there | ⟨j, there⟩ := seen
    · exact ⟨s, .inl there, rfl, rfl⟩
    · obtain ⟨rfl, new⟩ | old := knownModified inside rfl there
      · obtain ⟨t, member, like⟩ := each s new
        exact ⟨t, .inr ⟨j, member⟩, like⟩
      · exact ⟨s, .inr ⟨j, old⟩, rfl, rfl⟩
  refine h.settle (.ofPage f) numbered fun _ => ?_
  rw [pageModified inside]
  refine ⟨document.trans (h.good.here i live), quiet.trans (h.awake live), ?_, ?_, ?_⟩
  · refine ⟨node ▸ attached.dict, node ▸ attached.own, ?_, ?_, ?_, node ▸ attached.grounded⟩
    · rw [watched, node]
      exact attached.entry
    · intro s' member b inside
      obtain ⟨s, there, -, backing⟩ := each s' member
      exact attached.backed s there b (backing ▸ inside)
    · intro quiet valid'
      rw [valid] at valid'
      rw [params, fresh quiet valid']
      exact attached.whole quiet valid'
  · intro c ok
    rw [node] at ok
    exact watched.trans (h.good.following i live (by simp) c ok)
  · intro valid' v found
    rw [valid] at valid'
    rw [node] at found ⊢
    rw [same]
    exact h.good.inStep i live (by simp) valid' v found

theorem InOrder.changed (h : InOrder still held w) (live : (w.page i).live = true) :
    InOrder still held (w.modifyPage i fun p => { p with revision := p.revision + 1 }) :=
  h.inPlace live ⟨rfl, rfl, rfl, rfl, rfl⟩ rfl rfl rfl (fun s member => ⟨s, member, rfl, rfl⟩)
    fun _ _ => rfl

theorem InOrder.load (h : InOrder still held w) (live : (w.page i).live = true)
    (ok : w.load i = .ok w') : InOrder still held w' :=
  h.settled live (loadSettled h.good.sound live (h.good.here i live) (h.good.attached i live)
    (h.good.following i live (by simp)) h.good.numbered ok)

theorem InOrder.reread (h : InOrder still held w) (live : (w.page i).live = true)
    {streams : List ContentStream}
    (ok : (w.page i).streams.mapM (·.reread w.home (w.page i).params) = .ok streams) :
    InOrder still held ((w.modifyPage i fun p => { p with streams }).modifyPage i
      fun p => { p with revision := p.revision + 1 }) := by
  obtain ⟨same, each, fresh⟩ := rereadAllKept ok
  have replaced : InOrder still held (w.modifyPage i fun p => { p with streams }) :=
    h.inPlace live ⟨rfl, rfl, rfl, rfl, rfl⟩ rfl rfl same each
      fun quiet valid => fresh ((h.good.attached i live).whole quiet valid).reread
  refine replaced.changed ?_
  rw [pageModified (liveInside live)]
  exact live

def closed (w : Workspace) (i : Nat) : Workspace :=
  ((w.setDocument (w.home.unregister (w.page i).node (.page i))).letGo i).modifyPage i
    fun p => { p with live := false, streams := [] }

theorem resetOn (here : (w.page i).document = 0) (live : (w.page i).live = true) :
    (reset i).on w = (.ok (), w.closed i) := by
  unfold reset
  change (if (w.page i).live then _ else _ : Action Unit).on w = _
  rw [if_pos live]
  simp only [closed, home, ← here]
  rfl

theorem resetIdle (gone : (w.page i).live = false) : (reset i).on w = (.ok (), w) := by
  unfold reset
  change (if (w.page i).live then _ else _ : Action Unit).on w = _
  rw [if_neg (by simp [gone])]
  rfl

abbrev leaving (w : Workspace) (i : Nat) : Workspace :=
  w.setDocument (w.home.unregister (w.page i).node (.page i))

theorem Homed.leaving (h : Homed w) (i : Nat) : Homed (w.leaving i) :=
  (h.put (d := w.home.unregister (w.page i).node (.page i)) rfl).2

theorem closedKeeps {P : Workspace → Prop} (here : (w.page i).document = 0) (left : P (w.leaving i))
    (turned : P ((w.leaving i).turn i none))
    (shut : ∀ {w}, P w → P (w.modifyPage i fun p => { p with live := false, streams := [] })) :
    P (w.closed i) := by
  refine shut ?_
  obtain same | same := letGoShape (w := w.leaving i) here
  · rwa [same]
  · rwa [same]

theorem closedPage (here : (w.page i).document = 0) (live : (w.page i).live = true) : ∃ c,
    (w.closed i).page i = { w.page i with watched := c, live := false, streams := [] } := by
  have alive : ((w.leaving i).page i).live = true := live
  obtain ⟨c, page⟩ : ∃ c, ((w.leaving i).letGo i).page i = { w.page i with watched := c } := by
    obtain same | same := letGoShape (w := w.leaving i) here
    · exact ⟨(w.page i).watched, by rw [same]; rfl⟩
    · exact ⟨none, by rw [same, turnPage alive]; rfl⟩
  refine ⟨c, ?_⟩
  have inside : i < ((w.leaving i).letGo i).pages.size := liveInside (by rw [page]; exact live)
  have last := pageModified inside fun p => { p with live := false, streams := [] }
  rw [page] at last
  exact last

theorem closedApart (housed : w.Housed) (here : (w.page i).document = 0)
    (live : (w.page i).live = true) : Apart i w (w.closed i) ∧
    ((w.closed i).page i).live = false ∧ ((w.closed i).page i).streams = [] ∧
    (w.closed i).nextStream = w.nextStream ∧ (w.closed i).pages.size = w.pages.size := by
  have first : Apart i w (w.leaving i) := .ofWatches housed fun n j other => by simp [other]
  have turned := first.trans (turnApart (first.housed housed) none)
  obtain ⟨c, page⟩ := closedPage here live
  obtain ⟨apart, next, size⟩ := closedKeeps (P := fun w' => Apart i w w' ∧
    w'.nextStream = w.nextStream ∧ w'.pages.size = w.pages.size) here ⟨first, rfl, rfl⟩
    ⟨turned, rfl, by simp [turn, setDocument, modifyPage]⟩
    fun ⟨apart, next, size⟩ => ⟨apart.trans (.ofPage _), next, by simpa [modifyPage] using size⟩
  rw [page]
  exact ⟨apart, rfl, rfl, next, size⟩

theorem InOrder.closed (h : InOrder still held w) (live : (w.page i).live = true) :
    InOrder still held (w.closed i) := by
  obtain ⟨apart, gone, empty, next, -⟩ := closedApart h.good.housed (h.good.here i live) live
  refine h.settle apart (h.good.numbered.kept (Nat.le_of_eq next.symm) fun s j member => ?_)
    fun live' => ?_
  · by_cases own : j = i
    · subst own
      rw [empty] at member
      cases member
    · rwa [apart.others j own] at member
  · rw [gone] at live'
    cases live'

theorem pagePop (w : Workspace) {j : Nat} (inside : j + 1 ≠ w.pages.size) :
    ({ w with pages := w.pages.pop } : Workspace).page j = w.page j := by
  unfold page
  rw [Array.getD_eq_getD_getElem?, Array.getD_eq_getD_getElem?, Array.getElem?_pop]
  split
  · rfl
  · rename_i outside
    rw [Array.getElem?_eq_none (by omega)]

def opened (w : Workspace) (node : Nat) (params : Params) (encoding : Encoding) : Workspace :=
  { w.setDocument { w.home with watches := w.home.watches ++ [⟨node, .page w.pages.size⟩] } with
    pages := w.pages.push (.new 0 node params encoding) }

variable {node : Nat} {params : Params} {encoding : Encoding}

theorem openedPage (w : Workspace) (node : Nat) (params : Params) (encoding : Encoding) :
    (w.opened node params encoding).page w.pages.size = .new 0 node params encoding := by
  simp [opened, page]

theorem openedApart (housed : w.Housed) (node : Nat) (params : Params) (encoding : Encoding) :
    Apart w.pages.size w (w.opened node params encoding) := by
  refine ⟨⟨_, homeSet housed housed.2, fun n j other => by simp [other]⟩, ?_, fun j other => ?_⟩
  · simp [opened, setDocument]
  · simp [opened, page, Array.getElem?_push, other]

theorem openedHomed (h : Homed w) (node : Nat) (params : Params) (encoding : Encoding) :
    Homed (w.opened node params encoding) :=
  h.apart (openedApart h.housed node params encoding) fun _ => by rw [openedPage]; rfl

theorem openedAttached (housed : w.Housed) (dict : w.home.kind node = .ok .dict)
    (grounded : Grounded (w.opened node params encoding).home node) :
    Attached still (w.opened node params encoding).home w.pages.size
      ((w.opened node params encoding).page w.pages.size) := by
  have home : (w.opened node params encoding).home =
      { w.home with watches := w.home.watches ++ [⟨node, .page w.pages.size⟩] } :=
    homeSet housed housed.2
  rw [openedPage]
  rw [home] at grounded ⊢
  exact ⟨dict, List.mem_append_right _ List.mem_cons_self, (fun n same => by cases same),
    (fun s member => by cases member), fun _ _ => ⟨0, [], rfl, rfl⟩, grounded⟩

theorem openedNumbered (numbered : Numbered held w) (housed : w.Housed) :
    Numbered held (w.opened node params encoding) := by
  refine numbered.kept (Nat.le_refl _) fun s j member => ?_
  by_cases own : j = w.pages.size
  · subst own
    rw [openedPage] at member
    cases member
  · rwa [(openedApart housed node params encoding).others j own] at member

def forget (w : Workspace) : Workspace := { w with pages := w.pages.pop }

theorem openCases {r : Except Fault Nat} (done : (openPage 0 node params encoding).on w = (r, w')) :
    w' = w ∨ w.home.kind node = .ok .dict ∧
      ((∃ w₂, (w.opened node params encoding).follow w.pages.size = .ok w₂ ∧
        w' = w₂.loadOrMark w.pages.size) ∨
      w' = ((w.opened node params encoding).closed w.pages.size).forget) := by
  unfold openPage at done
  rw [getBound] at done
  obtain ⟨kind, found, done⟩ | ⟨-, -, -, same⟩ := boundLift done
  · split at done
    · cases done
      exact .inl rfl
    · rename_i dict
      obtain rfl := not_not.mp dict
      refine .inr ⟨found, ?_⟩
      rw [getBound, getBound] at done
      have new : (w.document 0).register node (.page w.pages.size) = _ := registered found _
      rw [new, okBound, modifyBound, getBound] at done
      split at done
      · rename_i w₂ follows
        cases done
        exact .inl ⟨w₂, follows, rfl⟩
      · have page := openedPage w node params encoding
        have live : ((w.opened node params encoding).page w.pages.size).live = true := by rw [page]; rfl
        have here : ((w.opened node params encoding).page w.pages.size).document = 0 := by rw [page]; rfl
        obtain ⟨_, w₁, first, done⟩ | ⟨_, first, _⟩ := bound done
        · cases (resetOn here live).symm.trans first
          rw [modifyBound] at done
          cases done
          exact .inr rfl
        · cases (resetOn here live).symm.trans first
  · exact .inl same

theorem openedInOrder (h : InOrder still held w) (dict : w.home.kind node = .ok .dict)
    (ok : (w.opened node params encoding).follow w.pages.size = .ok w')
    (referable : (w'.loadOrMark w.pages.size).Referable) :
    InOrder still held (w'.loadOrMark w.pages.size) := by
  have housed := h.good.housed
  have fresh := openedApart housed node params encoding
  have page := openedPage w node params encoding
  have live : ((w.opened node params encoding).page w.pages.size).live = true := by rw [page]; rfl
  have here : ((w.opened node params encoding).page w.pages.size).document = 0 := by rw [page]; rfl
  have loud : ((w.opened node params encoding).page w.pages.size).quiet = false := by rw [page]; rfl
  have homed := openedHomed h.good.homed node params encoding
  have grounded := ((followLoadDoes homed live ok).only homed).onward.referable referable _ live
  rw [page] at grounded
  have attached : Attached still _ _ _ := openedAttached housed dict grounded
  have settled := followSettled (fresh.housed housed) (fresh.sound h.good.sound) live here attached
    (openedNumbered h.good.numbered housed)
  rw [ok] at settled
  obtain ⟨document', -, -, -, quiet'⟩ := settled.only.placed
  exact h.settle (fresh.trans settled.only.toApart) settled.numbered fun _ =>
    ⟨document'.trans here, quiet'.trans loud, settled.attached, settled.following, settled.inStep⟩

theorem openedSize (w : Workspace) (node : Nat) (params : Params) (encoding : Encoding) :
    (w.opened node params encoding).pages.size = w.pages.size + 1 := by
  simp [opened]

theorem forgottenInOrder (h : InOrder still held w) (node : Nat) (params : Params)
    (encoding : Encoding) :
    InOrder still held ((w.opened node params encoding).closed w.pages.size).forget := by
  have housed := h.good.housed
  have fresh := openedApart housed node params encoding
  have page := openedPage w node params encoding
  let left := w.opened node params encoding
  have live : (left.page w.pages.size).live = true := by rw [page]; rfl
  have here : (left.page w.pages.size).document = 0 := by rw [page]; rfl
  obtain ⟨apart, -, -, next, grown⟩ := closedApart (fresh.housed housed) here live
  have size : (left.closed w.pages.size).pages.size = w.pages.size + 1 :=
    grown.trans (openedSize w node params encoding)
  -- its number is given to the next page
  have gone : (left.closed w.pages.size).forget.page w.pages.size = .absent := by
    simp [forget, size, Workspace.page]
  have less : Apart w.pages.size (left.closed w.pages.size) (left.closed w.pages.size).forget :=
    ⟨⟨_, rfl, fun _ _ _ => Iff.rfl⟩, rfl, fun j other => pagePop _ (by omega)⟩
  have all := (fresh.trans apart).trans less
  refine h.settle all (h.good.numbered.kept (Nat.le_of_eq next.symm) fun s j member => ?_) ?_
  · by_cases own : j = w.pages.size
    · subst own
      rw [gone] at member
      cases member
    · rwa [all.others j own] at member
  · rw [gone]
    exact fun live => by cases live

theorem openInOrder (h : InOrder still held w) {r : Except Fault Nat}
    (done : (openPage 0 node params encoding).on w = (r, w')) (referable : w'.Referable) :
    InOrder still held w' := by
  obtain rfl | ⟨dict, ⟨w₂, follows, rfl⟩ | rfl⟩ := openCases done
  · exact h
  · exact openedInOrder h dict follows referable
  · exact forgottenInOrder h node params encoding

end Workspace

end PageContent
