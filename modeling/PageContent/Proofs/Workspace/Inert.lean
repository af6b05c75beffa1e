import PageContent.Proofs.Workspace.Elsewhere
import PageContent.Proofs.Workspace.Registered

/-! A page that was reset stays as it is, whatever happens to the document and to other pages, and
answers every request without doing anything. -/
namespace PageContent

namespace Session
open Workspace PageContent.Action

variable {s t : Session} {i : Nat} {calls later : List Call}

structure Gone (i : Nat) (w : Workspace) : Prop where
  inside : i < w.pages.size
  closed : (w.page i).live = false
  empty : (w.page i).streams = []

def besides (i : Nat) : Scope := ⟨True, False, fun _ => True, fun k => k ≠ i, True⟩

theorem Gone.after (gone : Gone i s.workspace) (rooted : Rooted s.workspace) {c : Call}
    (fits : c.Fits s.held) : Gone i (s.after c).workspace ∧
      (s.after c).workspace.page i = s.workspace.page i := by
  change Gone i (c.run.on s.workspace).2 ∧ (c.run.on s.workspace).2.page i = s.workspace.page i
  by_cases own : ∃ q, c.request? = some (i, q)
  · obtain ⟨q, asks⟩ := own
    have run := Call.requested asks s.workspace
    rw [Request.answered gone.closed gone.empty q] at run
    rw [← (Prod.mk.inj run).2]
    exact ⟨gone, rfl⟩
  · have deaf : Deaf (besides i).touched i s.workspace :=
      ⟨gone.inside, fun live => by rw [gone.closed] at live; cases live⟩
    have within : c.Within (besides i) s.held s.workspace :=
      { fits := fun _ => fits
        still := fun never => never.elim
        target := fun _ _ => trivial
        pages := fun k q asks => ⟨fun same => own ⟨q, same ▸ asks⟩, fun _ _ => .inl fun _ => trivial⟩
        opens := (Nat.ne_of_lt gone.inside).symm
        records := fun _ => trivial }
    have spared : Elsewhere (besides i).touched i s.workspace (c.run.on s.workspace).2 :=
      .deeds (c.deeds rooted.homed within rfl) trivial (fun away => away rfl) rooted deaf
    exact ⟨⟨spared.inside gone.inside, by rw [spared.page]; exact gone.closed,
      by rw [spared.page]; exact gone.empty⟩, spared.page⟩

theorem Ran.exact (ran : Ran calls s) : s = afterAll calls := by
  induction ran with
  | start => rfl
  | call before c fits ih =>
    subst ih
    rfl

theorem goneByReset (ran : Ran calls s) (live : (s.workspace.page i).live = true) :
    Gone i (s.after (.reset i)).workspace ∧
    ((s.after (.reset i)).workspace.page i).revision = (s.workspace.page i).revision := by
  have done := resetOn (ran.rooted.here i live) live
  have state : (s.after (.reset i)).workspace = s.workspace.closed i := by
    have run := Call.requested (c := .reset i) rfl s.workspace
    exact (Prod.mk.inj (run.symm.trans done)).2
  obtain ⟨c, page⟩ := closedPage (ran.rooted.here i live) live
  obtain ⟨-, -, -, -, size⟩ := closedApart ran.rooted.housed (ran.rooted.here i live) live
  rw [state]
  refine ⟨⟨by rw [size]; exact liveInside live, ?_, ?_⟩, ?_⟩
  · rw [page]
  · rw [page]
  · rw [page]

theorem goneAfter (before : Ran calls s) (live : (s.workspace.page i).live = true)
    (ran : Ran (later ++ .reset i :: calls) t) :
    Gone i t.workspace ∧ (t.workspace.page i).revision = (s.workspace.page i).revision := by
  induction later generalizing t with
  | nil =>
    cases ran with
    | call earlier c fits =>
      obtain rfl : _ = s := earlier.exact.trans before.exact.symm
      exact goneByReset before live
  | cons c rest ih =>
    cases ran with
    | call earlier c fits =>
      obtain ⟨gone, revision⟩ := ih earlier
      obtain ⟨gone', same⟩ := gone.after earlier.rooted fits
      exact ⟨gone', by rw [same, revision]⟩

/-- Once an open page was reset, no later calls make it read anything or count a change, it is
registered nowhere, and whatever it is asked to do changes nothing at all. It answers that it was
reset, but for moves by index, which find no content stream at that place. -/
theorem resetForGood (before : Ran calls s) (live : (s.workspace.page i).live = true)
    (ran : Ran (later ++ .reset i :: calls) t) :
    (t.workspace.page i).live = false ∧ (t.workspace.page i).streams = [] ∧
    (t.workspace.page i).revision = (s.workspace.page i).revision ∧
    (∀ n, ⟨n, .page i⟩ ∉ t.workspace.home.watches) ∧
    ∀ q : Request, (q.run i).on t.workspace = (q.answer, t.workspace) := by
  obtain ⟨gone, revision⟩ := goneAfter before live ran
  refine ⟨gone.closed, gone.empty, revision, fun n there => ?_, Request.answered gone.closed gone.empty⟩
  have few := ran.bounded i n
  rw [due, gone.closed] at few
  exact absurd (List.count_pos_iff.mpr there) (Nat.not_lt.mpr few)

def resetCalls : List Call := .reset 0 :: openedCalls

theorem resetRan : Ran resetCalls (afterAll resetCalls) :=
  openedReached.ran.call (.reset 0) trivial

theorem resetForGoodThenMoved :
    let later := [Call.load 0, .setProperty 2 "Contents" (.ref ⟨2, 0⟩)]
    let t := afterAll (later ++ resetCalls)
    Ran openedCalls (afterAll openedCalls) ∧ ((afterAll openedCalls).workspace.page 0).live = true ∧
    Ran (later ++ .reset 0 :: openedCalls) t ∧ (t.workspace.page 0).streams = [] ∧
    ∀ q : Request, (q.run 0).on t.workspace = (q.answer, t.workspace) := by
  intro later t
  have ran : Ran (later ++ .reset 0 :: openedCalls) t :=
    (resetRan.call (.setProperty 2 "Contents" (.ref ⟨2, 0⟩)) trivial).call (.load 0) trivial
  have live : ((afterAll openedCalls).workspace.page 0).live = true := by decide +kernel
  have inert := resetForGood openedReached.ran live ran
  exact ⟨openedReached.ran, live, ran, inert.2.1, inert.2.2.2.2⟩

theorem placeMissedAfterReset : Ran resetCalls (afterAll resetCalls) ∧
    ((afterAll openedCalls).workspace.page 0).live = true ∧
    let answer := (((Request.raiseAt 0).run 0).on (afterAll resetCalls).workspace).1
    answer = .error (.outOfRange 0 0) ∧ answer ≠ .error (.object .pageReset) :=
  ⟨resetRan, by decide +kernel, by decide +kernel, by decide +kernel⟩

end Session

end PageContent
