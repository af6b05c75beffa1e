import PageContent.Proofs.Workspace.Leads

/-! Where a page is registered: nowhere twice, nowhere once it was reset, and exactly on its
dictionary and on what `/Contents` resolves to as long as that can be resolved. -/
namespace PageContent

namespace Workspace
open Page

variable {w w' : Workspace} {i : Nat} {still : Prop}

def due (p : Page) (n : Nat) : Nat :=
  if p.live then (if n = p.node then 1 else 0) + (if p.watched = some n then 1 else 0) else 0

def Bounded (w : Workspace) : Prop :=
  ∀ i n, w.home.watches.count ⟨n, .page i⟩ ≤ due (w.page i) n

theorem dueStays {p p' : Page} (stays : Stays p p') (n : Nat) : due p' n = due p n := by
  simp only [due, stays.live, stays.node, stays.watched]

theorem countTurned (ws : List Watch) (i : Nat) (old c : Option Nat) (n : Nat) :
    (turned ws i old c).count ⟨n, .page i⟩ =
      (if old = some n then 0 else ws.count ⟨n, .page i⟩) + if c = some n then 1 else 0 := by
  have new : (c.toList.map fun n => (⟨n, .page i⟩ : Watch)).count ⟨n, .page i⟩ =
      if c = some n then 1 else 0 := by
    cases c with
    | none => rfl
    | some m => by_cases same : m = n <;> simp [same]
  rw [turned, List.count_append, new]
  congr 1
  by_cases gone : old = some n
  · rw [if_pos gone]
    exact List.count_eq_zero.mpr fun there => by simp [gone] at there
  · rw [if_neg gone]
    refine List.count_filter ?_
    cases old with
    | none => rfl
    | some m =>
      have other : n ≠ m := fun same => gone (congrArg some same.symm)
      simp [other]

theorem countTurnedOther {ws : List Watch} {j : Nat} (other : j ≠ i) (old c : Option Nat)
    (n : Nat) : (turned ws i old c).count ⟨n, .page j⟩ = ws.count ⟨n, .page j⟩ := by
  have none : (c.toList.map fun n => (⟨n, .page i⟩ : Watch)).count ⟨n, .page j⟩ = 0 :=
    List.count_eq_zero.mpr fun there => by simp [Ne.symm other] at there
  rw [turned, List.count_append, none, Nat.add_zero]
  refine List.count_filter ?_
  cases old with
  | none => rfl
  | some m => simp [other]

theorem countUnregistered (ws : List Watch) (x y : Watch) :
    (ws.filter (· ≠ x)).count y = if y = x then 0 else ws.count y := by
  by_cases same : y = x
  · rw [if_pos same]
    exact List.count_eq_zero.mpr fun there => by simp [same] at there
  · rw [if_neg same]
    exact List.count_filter (by simpa using same)

theorem Bounded.apart (h : Bounded w) {ws : List Watch} (home : w'.home = { w.home with watches := ws })
    (others : ∀ j, j ≠ i → w'.page j = w.page j)
    (kept : ∀ n j, j ≠ i → ws.count ⟨n, .page j⟩ = w.home.watches.count ⟨n, .page j⟩)
    (own : ∀ n, ws.count ⟨n, .page i⟩ ≤ due (w'.page i) n) : Bounded w' := by
  intro j n
  rw [home]
  by_cases same : j = i
  · exact same ▸ own n
  · change ws.count _ ≤ _
    rw [others j same, kept n j same]
    exact h j n

theorem letGoHome (housed : w.Housed) (here : (w.page i).document = 0) : (w.letGo i).home =
    { w.home with watches := turned w.home.watches i (w.page i).watched none } := by
  cases watched : (w.page i).watched with
  | none =>
    have same : w.letGo i = w := by simp [letGo, watched]
    rw [same]
    simp [turned, List.filter_eq_self.mpr]
  | some old =>
    have same : w.letGo i = w.turn i none := by
      simp [letGo, watched, here, Document.unregister, turn, turned]
    rw [same, ← watched]
    exact homeSet housed housed.2

theorem Bounded.closed (h : Bounded w) (rooted : Rooted w) (live : (w.page i).live = true) :
    Bounded (w.closed i) := by
  have here := rooted.here i live
  obtain ⟨apart, gone, -⟩ := closedApart rooted.housed here live
  let left := w.home.watches.filter (· ≠ ⟨(w.page i).node, .page i⟩)
  have home : (w.closed i).home =
      { w.home with watches := turned left i (w.page i).watched none } := by
    have first : (w.leaving i).home = { w.home with watches := left } :=
      homeSet rooted.housed rooted.housed.2
    have last := letGoHome (i := i) (rooted.homed.leaving i).housed here
    rw [first] at last
    exact last
  refine h.apart home apart.others (fun n j other => ?_) fun n => ?_
  · rw [countTurnedOther other, countUnregistered, if_neg (by simp [other])]
  · rw [countTurned, countUnregistered]
    have bound := h i n
    simp only [due, live, gone, if_true, Watch.mk.injEq, and_true] at bound ⊢
    split
    · simp
    · rename_i other
      rw [if_neg other] at bound
      split
      · simp
      · rename_i away
        rw [if_neg away] at bound
        simpa using bound

theorem Step.bounded (step : Step still w w') (rooted : Rooted w) (h : Bounded w) : Bounded w' := by
  cases step with
  | @revised touched d revised payloads =>
    have home := homeRevised rooted.housed revised
    intro j n
    rw [home, revised.watches]
    exact h j n
  | @turned i live c =>
    refine h.apart (homeSet rooted.housed rooted.housed.2) (turnApart rooted.housed c).others
      (fun n j other => countTurnedOther other _ c n) fun n => ?_
    rw [countTurned, turnPage live]
    have bound := h i n
    simp only [due, live, if_true] at bound ⊢
    split
    · omega
    · rename_i other
      rw [if_neg other] at bound
      omega
  | @paged i f stays fresh =>
    refine h.apart (i := i) rfl (fun j other => pageOther other f) (fun _ _ _ => rfl) fun n => ?_
    rw [dueStays (pageStays w i stays)]
    exact h i n
  | @opened node dict params encoding =>
    refine h.apart (homeSet rooted.housed rooted.housed.2)
      (openedApart rooted.housed node params encoding).others (fun n j other => ?_) fun n => ?_
    · simp [List.count_append, other.symm]
    · have absent : (w.page w.pages.size).live = false := by simp [page, Page.absent]
      have bound := h w.pages.size n
      rw [due, absent] at bound
      rw [openedPage, List.count_append, Nat.le_zero.mp bound]
      by_cases same : node = n <;> simp [due, Page.new, same]
  | closed live => exact h.closed rooted live
  | @aside _ ws home counts size pages =>
    intro j n
    rw [home]
    change ws.count _ ≤ _
    rw [counts]
    cases live : (w.page j).live with
    | true =>
      rw [pages j (.inr live)]
      exact h j n
    | false =>
      have bound := h j n
      rw [due, live] at bound
      exact Nat.le_trans bound (Nat.zero_le _)

end Workspace

namespace Session
open Workspace Page

theorem Ran.bounded {calls : List Call} {s : Session} (ran : Ran calls s) : Bounded s.workspace := by
  refine (ran.steps.keeps startRooted (fun i n => ?_) fun rooted step h => step.bounded rooted h).2
  exact Nat.zero_le _

/-- A page is registered on no other container than its dictionary and the one it watches, and
on none once it was reset. If references under `/Contents` always name objects that exist, and
never the dictionary itself, it is registered once on its dictionary and once on what
`/Contents` resolves to, whenever that can be resolved. -/
theorem registeredOnce {calls : List Call} {s : Session} (ran : Ran calls s) (i : Nat) :
    let d := s.workspace.home
    let p := s.workspace.page i
    (∀ n, ⟨n, .page i⟩ ∈ d.watches → p.live = true ∧ (n = p.node ∨ p.watched = some n)) ∧
    (Reached calls s → p.live = true → ∀ c, contentsNode? d p.node = .ok c →
      c ≠ some p.node ∧
      ∀ n, d.watches.count ⟨n, .page i⟩ = if n = p.node ∨ c = some n then 1 else 0) := by
  have bound := ran.bounded i
  refine ⟨fun n there => ?_, fun reached live c resolved => ?_⟩
  · have once := Nat.lt_of_lt_of_le (List.count_pos_iff.mpr there) (bound n)
    unfold due at once
    split at once
    · rename_i live
      refine ⟨live, ?_⟩
      by_cases own : n = (s.workspace.page i).node
      · exact .inl own
      · by_cases watched : (s.workspace.page i).watched = some n
        · exact .inr watched
        · simp [own, watched] at once
    · cases once
  · have good := (reachedInOrder reached).good
    have attached := good.attached i live
    obtain rfl := good.following i live (by simp) c resolved
    refine ⟨fun same => (attached.entry _ same).1 rfl, fun n => ?_⟩
    have most := bound n
    simp only [due, live, if_true] at most
    by_cases own : n = (s.workspace.page i).node
    · subst own
      have once := List.count_pos_iff.mpr attached.own
      have apart : (s.workspace.page i).watched ≠ some (s.workspace.page i).node :=
        fun same => (attached.entry _ same).1 rfl
      rw [if_pos rfl, if_neg apart] at most
      rw [if_pos (.inl rfl)]
      omega
    · by_cases watched : (s.workspace.page i).watched = some n
      · have once := List.count_pos_iff.mpr (attached.entry _ watched).2
        rw [if_neg own, if_pos watched] at most
        rw [if_pos (.inr watched)]
        omega
      · rw [if_neg own, if_neg watched] at most
        rw [if_neg (not_or.mpr ⟨own, watched⟩)]
        omega

def openedCalls : List Call :=
  [.openPage 2 .default .latin1, .addIndirect (.dict [("Contents", .ref ⟨1, 0⟩)]),
    .addIndirect (.ofData (ascii ['f'])), .addIndirect (.ofData (ascii ['n']))]

theorem openedReached : Reached openedCalls (afterAll openedCalls) := by
  have keyed : (Object.dict [("Contents", .ref ⟨1, 0⟩)]).Keyed := ⟨by simp, trivial, trivial⟩
  have first := Reached.start.call (.addIndirect (.ofData (ascii ['n']))) (keyedData _)
    (by decide +kernel)
  have second := first.call (.addIndirect (.ofData (ascii ['f']))) (keyedData _) (by decide +kernel)
  have page := second.call (.addIndirect (.dict [("Contents", .ref ⟨1, 0⟩)])) keyed
    (by decide +kernel)
  exact page.call (.openPage 2 .default .latin1) trivial (by decide +kernel)

def movedCalls : List Call := .setProperty 2 "Contents" (.ref ⟨2, 0⟩) :: openedCalls

theorem registeredOnceAfterMove : Reached movedCalls (afterAll movedCalls) ∧
    ((afterAll movedCalls).workspace.page 0).live = true ∧
    contentsNode? (afterAll movedCalls).workspace.home 2 = .ok (some 1) ∧
    ∀ n, (afterAll movedCalls).workspace.home.watches.count ⟨n, .page 0⟩ =
      if n = 2 ∨ some 1 = some n then 1 else 0 := by
  have moved : Reached movedCalls (afterAll movedCalls) :=
    openedReached.call (.setProperty 2 "Contents" (.ref ⟨2, 0⟩)) trivial (by decide +kernel)
  exact ⟨moved, by decide +kernel, by decide +kernel,
    ((registeredOnce moved.ran 0).2 moved (by decide +kernel) (some 1) (by decide +kernel)).2⟩

-- The second entry names the dictionary itself, on which the page is then registered twice.
def aliasedCalls : List Call :=
  .setProperty 2 "Contents" (.ref ⟨2, 0⟩) :: .setProperty 2 "Contents" (.ref ⟨3, 0⟩) :: openedCalls

theorem unregisteredByAlias : Ran aliasedCalls (afterAll aliasedCalls) ∧
    ((afterAll aliasedCalls).workspace.page 0).live = true ∧
    ((afterAll aliasedCalls).workspace.page 0).node = 2 ∧
    (afterAll aliasedCalls).workspace.home.watches.count ⟨2, .page 0⟩ = 0 := by
  have own := openedReached.ran.call (.setProperty 2 "Contents" (.ref ⟨3, 0⟩)) trivial
  have moved := own.call (.setProperty 2 "Contents" (.ref ⟨2, 0⟩)) trivial
  exact ⟨moved, by decide +kernel, by decide +kernel, by decide +kernel⟩

end Session

end PageContent
