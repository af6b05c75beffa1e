import PageContent.Proofs.Workspace.Steps

/-! What leaves a page alone: deeds of other pages, and changes of containers that it is not
registered on. -/
namespace PageContent

namespace Workspace
open Page PageContent.Action ContentStream

variable {w w' w'' : Workspace} {i j : Nat} {touched : Nat → Prop} {σ : Scope}

def registrations (w : Workspace) (j : Nat) : List Watch :=
  w.home.watches.filter (·.watcher = .page j)

structure Elsewhere (touched : Nat → Prop) (j : Nat) (w w' : Workspace) : Prop where
  page : w'.page j = w.page j
  inside : j < w.pages.size → j < w'.pages.size
  registrations : w'.registrations j = w.registrations j
  objects : ∀ (k : Nat) v, w.home.objects[k]? = some v → w'.home.objects[k]? = some v
  nodes : ∀ n, ¬ touched n → ∀ node : Node, w.home.nodes[n]? = some node →
    ∃ node' : Node, w'.home.nodes[n]? = some node' ∧ node'.data = node.data

structure Deaf (touched : Nat → Prop) (j : Nat) (w : Workspace) : Prop where
  inside : j < w.pages.size
  deaf : (w.page j).live = true → ∀ n, touched n → ⟨n, .page j⟩ ∉ w.registrations j

namespace Elsewhere

theorem refl (w : Workspace) : Elsewhere touched j w w :=
  ⟨rfl, id, rfl, fun _ _ there => there, fun _ _ node there => ⟨node, there, rfl⟩⟩

theorem trans (first : Elsewhere touched j w w') (later : Elsewhere touched j w' w'') :
    Elsewhere touched j w w'' := by
  refine ⟨later.page.trans first.page, fun inside => later.inside (first.inside inside),
    later.registrations.trans first.registrations,
    fun k v there => later.objects k v (first.objects k v there), fun n other node there => ?_⟩
  obtain ⟨node', there', same⟩ := first.nodes n other node there
  obtain ⟨node'', there'', same'⟩ := later.nodes n other node' there'
  exact ⟨node'', there'', same'.trans same⟩

theorem deaf (elsewhere : Elsewhere touched j w w') (h : Deaf touched j w) : Deaf touched j w' := by
  refine ⟨elsewhere.inside h.inside, fun live => ?_⟩
  rw [elsewhere.page] at live
  rw [elsewhere.registrations]
  exact h.deaf live

theorem ofWatches {ws : List Watch} (home : w'.home = { w.home with watches := ws })
    (same : ws.filter (·.watcher = .page j) = w.registrations j)
    (page : w'.page j = w.page j) (inside : j < w.pages.size → j < w'.pages.size) :
    Elsewhere touched j w w' := by
  refine ⟨page, inside, ?_, ?_, ?_⟩
  · rw [Workspace.registrations, home]
    exact same
  · rw [home]
    exact fun _ _ there => there
  · rw [home]
    exact fun _ _ node there => ⟨node, there, rfl⟩

theorem modify (other : j ≠ i) (f : Page → Page) : Elsewhere touched j w (w.modifyPage i f) :=
  ofWatches rfl rfl (pageOther other f) fun inside => by
    rwa [modifyPage, Array.size_modify]

theorem read (w : Workspace) (n : Nat) : Elsewhere touched j w { w with nextStream := n } :=
  ofWatches rfl rfl rfl id

theorem set (housed : w.Housed) {ws : List Watch}
    (same : ws.filter (·.watcher = .page j) = w.registrations j) :
    Elsewhere touched j w (w.setDocument { w.home with watches := ws }) :=
  ofWatches (homeSet housed housed.2) same rfl id

theorem registrationsTurned (other : j ≠ i) (ws : List Watch) (old new : Option Nat) :
    (turned ws i old new).filter (·.watcher = .page j) = ws.filter (·.watcher = .page j) := by
  have none : (new.toList.map fun n => (⟨n, .page i⟩ : Watch)).filter (·.watcher = .page j) = [] := by
    cases new <;> simp [Ne.symm other]
  rw [turned, List.filter_append, none, List.append_nil]
  exact registrationsKept ws fun n => by cases old <;> simp [other]

theorem turn (housed : w.Housed) (other : j ≠ i) (c : Option Nat) :
    Elsewhere touched j w (w.turn i c) :=
  (set housed (registrationsTurned other _ _ c)).trans (modify other _)

theorem doing (housed : w.Housed) (other : j ≠ i) (doing : Doing i w w') :
    Elsewhere touched j w w' := by
  cases doing with
  | turned _ c => exact turn housed other c
  | read _ _ _ _ => exact (read w _).trans (modify other _)
  | reread _ => exact modify other _
  | marked _ _ _ => exact modify other _

theorem notify (h : Homed w) (deaf : Deaf touched j w) {c : Change} (within : touched c.node) :
    Elsewhere touched j w (w.notify 0 c) := by
  refine ((notifyHears h c).keeps (P := Elsewhere touched j w) h (refl w)
    fun homed hearing before => ?_).2
  cases hearing with
  | noted _ => exact before.trans (ofWatches rfl rfl rfl fun inside => inside)
  | @page i _ _ told _ does =>
    obtain ⟨live, registered⟩ := told
    refine before.trans (.doing homed.housed ?_ does)
    rintro rfl
    exact deaf.deaf live c.node within (List.mem_filter.mpr ⟨registered, by simp⟩)

theorem revised (housed : w.Housed) {x : Option Nat} {d : Document} (revised : w.home.Revised x d)
    (within : ∀ n, x = some n → touched n) : Elsewhere touched j w (w.setDocument d) := by
  have home := homeRevised housed revised
  refine ⟨rfl, id, ?_, ?_, fun n other node there => ?_⟩
  · rw [Workspace.registrations, home, revised.watches]
    rfl
  · rw [home]
    exact revised.objects
  · obtain ⟨node', there', -, -, same⟩ := revised.nodes n node there
    rw [home]
    exact ⟨node', there', same fun here => other (within n here.symm)⟩

theorem closed (h : Homed w) (other : j ≠ i) (live : (w.page i).live = true) :
    Elsewhere touched j w (w.closed i) := by
  have left : Elsewhere touched j w (w.leaving i) :=
    set h.housed (registrationsKept _ fun n => by simp [other])
  exact closedKeeps (h.here i live) left (left.trans (turn (h.leaving i).housed other none))
    fun before => before.trans (modify other _)

theorem opened (h : Homed w) (inside : j < w.pages.size) (node : Nat) (params : Params)
    (encoding : Encoding) : Elsewhere touched j w (w.opened node params encoding) := by
  refine ofWatches (homeSet h.housed h.housed.2) ?_
    ((openedApart h.housed node params encoding).others j (Nat.ne_of_lt inside)) fun _ => ?_
  · simp [Workspace.registrations, Ne.symm (Nat.ne_of_lt inside)]
  · simpa [Workspace.opened] using Nat.lt_succ_of_lt inside

theorem deed (deed : Deed σ w w') (keyed : σ.keyed) (away : ¬ σ.pages j) (h : Rooted w)
    (deaf : Deaf σ.touched j w) : Elsewhere σ.touched j w w' := by
  have other {i : Nat} (may : σ.pages i) : j ≠ i := by
    rintro rfl
    exact away may
  cases deed with
  | doing may does => exact .doing h.housed (other may) does
  | hushed may _ => exact modify (other may) _
  | numbered _ => exact read w _
  | stored stores => exact .revised h.housed (stores.revised keyed h.sound) fun _ same => by cases same
  | changed allows =>
    have changed := (allows.changed keyed h.sound).1
    have stored : Elsewhere σ.touched j w _ :=
      .revised h.housed changed.toRevised fun n same => Option.some.inj same ▸ allows.touched
    exact stored.trans (.notify (h.homed.put changed.id).2 (stored.deaf deaf) allows.touched)
  | opened _ _ _ _ => exact .opened h.homed deaf.inside _ _ _
  | closed may live => exact .closed h.homed (other may) live
  | forgotten may last _ =>
    have := other may
    refine ofWatches rfl rfl (pagePop w (by omega)) fun inside => ?_
    rw [Workspace.forget, Array.size_pop]
    omega
  | held _ _ => exact ofWatches rfl rfl rfl fun inside => inside
  | watched _ same => exact set h.housed (same j)

theorem deeds (deeds : Deeds σ w w') (keyed : σ.keyed) (away : ¬ σ.pages j) (h : Rooted w)
    (deaf : Deaf σ.touched j w) : Elsewhere σ.touched j w w' := by
  induction deeds with
  | refl => exact refl w
  | tail before last ih =>
    exact ih.trans (.deed last keyed away (Deeds.rooted before keyed h) (ih.deaf deaf))

end Elsewhere

end Workspace

end PageContent
