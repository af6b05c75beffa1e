import PageContent.Proofs.Workspace.Steps

/-! Any calls, one after the other, whatever references under `/Contents` name. -/
namespace PageContent

namespace Action
open Page Workspace

def Leads (steps : Action Unit) : Prop :=
  ∀ ⦃w r w'⦄, Homed w → steps.on w = (r, w') → Deeds (Scope.everywhere True True).steps w w'

namespace Leads
variable {steps : Action Unit} {w w₁ : Workspace} {i : Nat} {res : Except Fault Unit} {p : Page}

theorem done (leads : Leads steps) (h : Homed w) (live : (w.page i).live = true)
    (run : steps.on (w.hush i) = (res, w₁)) : Deeds (.everywhere True True) w w₁ ∧ Homed w₁ ∧
      (w₁.page i).live = true ∧ w₁.page i = { w.page i with quiet := true } := by
  obtain ⟨deeds, homed, page⟩ :=
    deedsEdited trivial h live (leads (h.onward (quietOnward w i true)) run)
  exact ⟨deeds, homed, by rw [page]; exact live, page⟩

theorem listRef (here : p.document = 0) (ref : Ref) (side : Side) : Leads (listRef p ref side) :=
  fun _ _ _ _ done => deedsListRef (.inl fun _ => trivial) here done

theorem unlistAll (here : p.document = 0) (bs : List Backing) :
    Leads (bs.forM fun b => unlistRef p b.ref) :=
  fun _ _ _ h done => deedsUnlistAll (.inl fun _ => trivial) here h done

theorem writeList (here : p.document = 0) (streams : List ContentStream) :
    Leads (writeList p streams) :=
  fun _ _ _ _ done => deedsWriteList trivial here done

end Leads

end Action

open Workspace in
theorem Call.within {keyed still : Prop} {held : List ContentStream} {w : Workspace} {c : Call}
    (fits : keyed → c.Fits held) (quiet : still → ∀ node data, c ≠ .setStreamData node data) :
    c.Within (.everywhere keyed still) held w :=
  ⟨fits, quiet, fun _ _ => trivial, fun _ _ _ => ⟨trivial, fun _ _ => .inl fun _ => trivial⟩, trivial,
    fun _ => trivial⟩

open Workspace in
theorem Call.freely {w w' : Workspace} {c : Call} {res : Except Fault (List ContentStream)}
    (h : Homed w) (done : c.run.on w = (res, w')) : Deeds (.everywhere False False) w w' := by
  have within : c.Within (.everywhere False False) [] w :=
    Call.within (fun never => never.elim) fun never => never.elim
  exact c.deeds h within done

namespace Session
open Workspace

inductive Ran : List Call → Session → Prop where
  | start : Ran [] start
  | call {calls : List Call} {s : Session} (before : Ran calls s) (c : Call) (fits : c.Fits s.held) :
      Ran (c :: calls) (s.after c)

theorem Reached.ran {calls : List Call} {s : Session} (reached : Reached calls s) : Ran calls s := by
  induction reached with
  | start => exact .start
  | call before c fits referable ih => exact ih.call c fits

def afterAll (calls : List Call) : Session := calls.foldr (fun c s => s.after c) start

theorem startRooted : Rooted Session.start.workspace :=
  ⟨⟨by decide, rfl⟩, Document.soundEmpty 0, fun _ live => (by cases live), fun _ live => by cases live⟩

theorem Ran.steps {calls : List Call} {s : Session} (ran : Ran calls s) :
    Steps (Still calls) Session.start.workspace s.workspace := by
  induction ran with
  | start => exact .refl
  | @call calls s before c fits ih =>
    have earlier : Steps (Still (c :: calls)) Session.start.workspace s.workspace :=
      ih.weaken fun still node data member => still node data (List.mem_cons_of_mem _ member)
    have rooted := earlier.rooted startRooted
    have within : c.Within (.everywhere True (Still (c :: calls))) s.held s.workspace :=
      Call.within (fun _ => fits) fun still node data same => still node data (same ▸ List.mem_cons_self)
    exact earlier.trans ((c.deeds rooted.homed within rfl).steps trivial rooted)

theorem Ran.rooted {calls : List Call} {s : Session} (ran : Ran calls s) : Rooted s.workspace :=
  ran.steps.rooted startRooted

end Session

end PageContent
