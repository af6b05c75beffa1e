import PageContent.Proofs.Workspace.Refreshed

/-! What a recorder is told. Of a dictionary or an array that it is registered on it is told every
change in the order in which they are made, so that it can keep a copy. -/
namespace PageContent

namespace Document

def Rewatched (d d' : Document) : Prop :=
  ∃ ws, d' = { d with watches := ws } ∧
    ∀ n r, ws.count ⟨n, .recorder r⟩ = d.watches.count ⟨n, .recorder r⟩

namespace Rewatched
variable {d d' d'' : Document}

theorem refl (d : Document) : Rewatched d d := ⟨d.watches, rfl, fun _ _ => rfl⟩

theorem trans (first : Rewatched d d') (later : Rewatched d' d'') : Rewatched d d'' := by
  obtain ⟨ws, rfl, same⟩ := first
  obtain ⟨ws', rfl, same'⟩ := later
  exact ⟨ws', rfl, fun n r => (same' n r).trans (same n r)⟩

theorem turned (d : Document) (i : Nat) (old new : Option Nat) :
    Rewatched d { d with watches := Workspace.turned d.watches i old new } := by
  refine ⟨_, rfl, fun n r => ?_⟩
  rw [Workspace.turned, List.count_append, List.count_filter (by cases old <;> simp)]
  cases new <;> simp

end Rewatched

end Document

namespace Workspace
open Page PageContent.Action ContentStream Document

variable {w w' w'' : Workspace} {d : Document} {c : Change} {i n r : Nat} {σ : Scope}

def reports (w : Workspace) (r : Nat) : List Change :=
  (w.notes.toList.filter (·.recorder = r)).map Note.change

def reportsOn (w : Workspace) (r n : Nat) : List Change := (w.reports r).filter (·.node = n)

structure Rests (w w' : Workspace) : Prop where
  home : Rewatched w.home w'.home
  recorders : w'.recorders = w.recorders
  notes : w'.notes = w.notes

namespace Rests

theorem refl (w : Workspace) : Rests w w := ⟨.refl _, rfl, rfl⟩

theorem trans (first : Rests w w') (later : Rests w' w'') : Rests w w'' :=
  ⟨first.home.trans later.home, later.recorders.trans first.recorders, later.notes.trans first.notes⟩

theorem ofPage (f : Page → Page) : Rests w (w.modifyPage i f) := ⟨.refl _, rfl, rfl⟩

theorem rewatched (h : Homed w) (rewatched : Rewatched w.home d) : Rests w (w.setDocument d) := by
  have id : d.id = w.home.id := by
    obtain ⟨ws, rfl, -⟩ := rewatched
    rfl
  exact ⟨(h.put id).1.symm ▸ rewatched, rfl, rfl⟩

theorem turned (h : Homed w) (c : Option Nat) : Rests w (w.turn i c) :=
  (rewatched h (.turned w.home i (w.page i).watched c)).trans (ofPage _)

theorem opened (h : Homed w) (node : Nat) (params : Params) (encoding : Encoding) :
    Rests w (w.opened node params encoding) := by
  have registered : Rewatched w.home
      { w.home with watches := w.home.watches ++ [⟨node, .page w.pages.size⟩] } :=
    ⟨_, rfl, fun n r => by simp⟩
  obtain ⟨home, recorders, notes⟩ := rewatched h registered
  exact ⟨home, recorders, notes⟩

theorem closed (h : Homed w) (live : (w.page i).live = true) : Rests w (w.closed i) := by
  have unregistered : Rewatched w.home (w.home.unregister (w.page i).node (.page i)) :=
    ⟨_, rfl, fun n r => List.count_filter (by simp)⟩
  have left : Rests w (w.leaving i) := rewatched h unregistered
  exact closedKeeps (h.here i live) left (left.trans (turned (h.leaving i) none))
    fun before => before.trans (ofPage _)

end Rests

theorem Doing.rests (doing : Doing i w w') (h : Homed w) : Rests w w' := by
  cases doing with
  | turned _ c => exact .turned h c
  | read _ _ _ _ | reread _ | marked _ _ _ => exact ⟨.refl _, rfl, rfl⟩

theorem Doings.rests (does : Doings i w w') (h : Homed w) : Rests w w' := by
  induction does with
  | refl => exact .refl w
  | tail before last ih => exact ih.trans (last.rests (h.only (Doings.only before h)))

theorem notifyRests (h : Homed w) (c : Change) :
    Rewatched w.home (w.notify 0 c).home ∧ (w.notify 0 c).recorders = w.recorders := by
  refine ((notifyHears h c).keeps (P := fun w' => Rewatched w.home w'.home ∧
    w'.recorders = w.recorders) h ⟨.refl _, rfl⟩ fun homed hearing before => ?_).2
  cases hearing with
  | noted _ => exact before
  | page _ _ doing =>
    have rests := doing.rests homed
    exact ⟨before.1.trans rests.home, rests.recorders.trans before.2⟩

theorem tellReports (h : Homed w) (x : Watcher) (c : Change) (r : Nat) : Homed (w.tell x c) ∧
    (w.tell x c).reports r = w.reports r ++ List.replicate ([x].count (.recorder r)) c := by
  cases x with
  | page i =>
    obtain same | ⟨-, does⟩ := reactDoes h i c
    · rw [tell, same]
      exact ⟨h, by simp⟩
    · refine ⟨h.only (does.only h), ?_⟩
      rw [tell, reports, (does.rests h).notes]
      simp [reports]
  | recorder q =>
    refine ⟨⟨h.housed, h.here⟩, ?_⟩
    by_cases own : q = r <;> simp [tell, reports, own]

theorem tellAllReports (h : Homed w) (watchers : List Watcher) (c : Change) (r : Nat) :
    (watchers.foldl (fun w x => w.tell x c) w).reports r =
      w.reports r ++ List.replicate (watchers.count (.recorder r)) c := by
  induction watchers generalizing w with
  | nil => simp
  | cons x rest ih =>
    obtain ⟨homed, first⟩ := tellReports h x c r
    rw [List.foldl_cons, ih homed, first, List.append_assoc, List.replicate_append_replicate,
      ← List.count_append, List.singleton_append]

theorem watchersCount (d : Document) (n : Nat) (x : Watcher) :
    (d.watchers n).count x = d.watches.count ⟨n, x⟩ := by
  unfold Document.watchers
  induction d.watches with
  | nil => rfl
  | cons watch rest ih =>
    obtain ⟨m, y⟩ := watch
    by_cases own : m = n <;> simp [List.count_cons, own, ih]

theorem changedReports (h : Homed w) (hears : w.hears (.recorder r) = true)
    (patches : Patches w.home d c) : ((w.setDocument d).notify 0 c).reports r =
      w.reports r ++ List.replicate (w.home.watches.count ⟨c.node, .recorder r⟩) c := by
  obtain ⟨home, homed⟩ := h.put patches.id
  have listens : (w.setDocument d).hears (.recorder r) = true := hears
  unfold notify
  rw [tellAllReports homed, List.count_filter listens, watchersCount,
    show (w.setDocument d).document 0 = d from home, patches.watches]
  rfl

theorem apartWatches {m q : Nat} (apart : q = r → m ≠ n) :
    (⟨m, .recorder q⟩ : Watch) ≠ ⟨n, .recorder r⟩ := by
  intro same
  cases same
  exact apart rfl rfl

structure Mirrored (r n : Nat) (first : NodeData) (before : List Change) (w : Workspace) : Prop where
  hears : w.hears (.recorder r) = true
  once : w.home.watches.count ⟨n, .recorder r⟩ = 1
  copy : ∃ told last, w.reportsOn r n = before ++ told ∧ w.home.containers[n]? = some last ∧
    first.Replays told last

namespace Mirrored
variable {first : NodeData} {before : List Change}

theorem moved (h : Mirrored r n first before w) (hears : w'.hears (.recorder r) = true)
    (count : w'.home.watches.count ⟨n, .recorder r⟩ = w.home.watches.count ⟨n, .recorder r⟩)
    (kept : ∀ data, w.home.containers[n]? = some data → w'.home.containers[n]? = some data)
    (notes : w'.notes = w.notes) : Mirrored r n first before w' := by
  obtain ⟨told, last, reports, there, replays⟩ := h.copy
  refine ⟨hears, count.trans h.once, told, last, ?_, kept last there, replays⟩
  rw [← reports, reportsOn, Workspace.reports, notes]
  rfl

theorem rests (h : Mirrored r n first before w) (rests : Rests w w') :
    Mirrored r n first before w' := by
  obtain ⟨⟨ws, same, counts⟩, recorders, notes⟩ := rests
  refine h.moved ?_ ?_ ?_ notes
  · rw [Workspace.hears, recorders]
    exact h.hears
  · rw [same]
    exact counts n r
  · rw [same]
    exact fun _ there => there

theorem stored (h : Mirrored r n first before w) (homed : Homed w) (grown : Grown w.home d) :
    Mirrored r n first before (w.setDocument d) := by
  obtain ⟨home, -⟩ := homed.put grown.id
  refine h.moved h.hears ?_ ?_ rfl
  · rw [home, grown.watches]
  · rw [home]
    exact fun _ => grown.kept

theorem changed (h : Mirrored r n first before w) (homed : Homed w) (plain : first.kind ≠ .stream)
    (patches : Patches w.home d c) : Mirrored r n first before ((w.setDocument d).notify 0 c) := by
  obtain ⟨home, homed'⟩ := homed.put patches.id
  obtain ⟨⟨ws, same, counts⟩, recorders⟩ := notifyRests homed' c
  have reports := changedReports homed h.hears patches
  rw [home] at same counts
  refine ⟨?_, ?_, ?_⟩
  · rw [Workspace.hears, recorders]
    exact h.hears
  · rw [same, ← h.once, ← patches.watches]
    exact counts n r
  obtain ⟨told, last, since, there, replays⟩ := h.copy
  rw [same]
  change ∃ told last, _ ∧ d.containers[n]? = _ ∧ _
  by_cases own : c.node = n
  · subst own
    obtain ⟨admits, here⟩ := patches.own last there (replays.kind ▸ plain)
    refine ⟨told ++ [c], _, ?_, here, replays.told admits⟩
    rw [reportsOn, reports, h.once, List.filter_append, ← reportsOn, since]
    simp
  · refine ⟨told, last, ?_, patches.others n last (Ne.symm own) there, replays⟩
    rw [reportsOn, reports, List.filter_append, ← reportsOn, since]
    simp [own]

theorem deed (h : Mirrored r n first before w) (homed : Homed w) (plain : first.kind ≠ .stream)
    (same : ¬ σ.recorders) (deed : Deed σ w w') : Mirrored r n first before w' := by
  cases deed with
  | doing _ doing => exact h.rests (doing.rests homed)
  | hushed _ _ => exact h.rests (.ofPage _)
  | numbered _ | forgotten _ _ _ => exact h.rests ⟨.refl _, rfl, rfl⟩
  | stored stores => exact h.stored homed stores.grown
  | changed allows => exact h.changed homed plain allows.patches
  | opened _ _ params encoding => exact h.rests (.opened homed _ params encoding)
  | closed _ live => exact h.rests (.closed homed live)
  | held may _ | watched may _ => exact absurd may same

theorem inside (h : Mirrored r n first before w) : r < w.recorders.size := by
  by_contra outside
  have hears := h.hears
  simp [Workspace.hears, outside] at hears

theorem watching (h : Mirrored r n first before w) (homed : Homed w) {ws : List Watch}
    (count : ws.count ⟨n, .recorder r⟩ = w.home.watches.count ⟨n, .recorder r⟩) :
    Mirrored r n first before (w.setDocument { w.home with watches := ws }) := by
  obtain ⟨home, -⟩ := homed.put (d := { w.home with watches := ws }) rfl
  refine h.moved h.hears ?_ ?_ rfl
  · rw [home]
    exact count
  · rw [home]
    exact fun _ there => there

theorem registered (h : Mirrored r n first before w) (homed : Homed w) {m q : Nat}
    (apart : q = r → m ≠ n) (ok : w.home.register m (.recorder q) = .ok d) :
    Mirrored r n first before (w.setDocument d) := by
  obtain rfl := registerOk ok
  refine h.watching homed ?_
  rw [List.count_append, List.count_singleton, if_neg (by simpa using apartWatches apart),
    Nat.add_zero]

theorem holding (h : Mirrored r n first before w) {recorders : Array Bool}
    (hears : recorders.getD r false = true) :
    Mirrored r n first before { w with recorders } :=
  h.moved hears rfl (fun _ there => there) rfl

end Mirrored

end Workspace

namespace Call
open PageContent.Action Workspace

variable {r n : Nat} {first : NodeData} {before : List Change} {c : Call} {w w' : Workspace} {m : Nat}
  {res : Except Fault (List ContentStream)} {i : Nat}

def Attends (r n : Nat) : Call → Prop
  | observeAgain recorder node | unobserve recorder node => recorder = r → node ≠ n
  | dropRecorder recorder => recorder ≠ r
  | _ => True

theorem recordsOutside (records : c.records = true) : c.request? = none := by
  cases c with
  | observe _ | observeAgain _ _ | unobserve _ _ | dropRecorder _ => rfl
  | _ => cases records

theorem mirroredRecording (records : c.records = true) (attends : c.Attends r n) (homed : Homed w)
    (h : Mirrored r n first before w) (done : c.run.on w = (res, w')) :
    Mirrored r n first before w' := by
  have more : Mirrored r n first before { w with recorders := w.recorders.push true } := by
    refine h.holding ?_
    rw [Array.getD_eq_getD_getElem?, Array.getElem?_push, if_neg (by have := h.inside; omega),
      ← Array.getD_eq_getD_getElem?]
    exact h.hears
  cases c.outside (recordsOutside records) done with
  | failed _ => exact h
  | held _ _ => exact more
  | observed ok =>
    exact more.registered ⟨homed.housed, homed.here⟩ (fun own => absurd h.inside (by omega)) ok
  | observedAgain ok => exact h.registered homed attends ok
  | unobserved recorder node =>
    exact h.watching homed (List.count_filter (decide_eq_true (apartWatches attends).symm))
  | dropped recorder =>
    refine h.holding ?_
    rw [Array.getD_eq_getD_getElem?, Array.getElem?_setIfInBounds_ne attends,
      ← Array.getD_eq_getD_getElem?]
    exact h.hears
  | changed alters _ => cases alters <;> cases records
  | _ => cases records

theorem mirrored (plain : first.kind ≠ .stream) (attends : c.Attends r n) (homed : Homed w)
    (h : Mirrored r n first before w) (done : c.run.on w = (res, w')) :
    Mirrored r n first before w' := by
  cases records : c.records with
  | true => exact mirroredRecording records attends homed h done
  | false =>
    have within : c.Within ⟨False, False, fun _ => True, fun _ => True, False⟩ [] w :=
      ⟨fun never => never.elim, fun never => never.elim, fun _ _ => trivial,
        fun _ _ _ => ⟨trivial, fun _ _ => .inl fun _ => trivial⟩, trivial,
        fun own => by rw [records] at own; cases own⟩
    exact ((c.deeds homed within done).keeps homed h fun homed deed h =>
      h.deed homed plain id deed).2

def editsPage : Call → Bool
  | add _ _ _ | removeStream _ _ | removeAt _ _ | raise _ _ | lower _ _ | raiseAt _ _
  | lowerAt _ _ | listAll _ => true
  | _ => false

theorem asksToEdit {q : Request} (asks : c.request? = some (i, q)) : q.writes = c.editsPage := by
  cases c <;> cases asks <;> rfl

theorem unreported (editing : c.editsPage = false) (none : c.target? = none) (homed : Homed w)
    (done : c.run.on w = (res, w')) : w'.notes = w.notes := by
  have within : c.Within ⟨False, False, fun _ => False, fun _ => True, True⟩ [] w := by
    refine ⟨fun never => never.elim, fun never => never.elim, fun node target => ?_,
      fun i q asks => ⟨trivial, fun writes => ?_⟩, trivial, fun _ => trivial⟩
    · rw [none] at target
      cases target
    · rw [asksToEdit asks, editing] at writes
      cases writes
  refine ((c.deeds homed within done).keeps (P := fun w' => w'.notes = w.notes) homed rfl
    fun homed deed before => ?_).2
  cases deed with
  | doing _ doing => exact (doing.rests homed).notes.trans before
  | closed _ live => exact (Rests.closed homed live).notes.trans before
  | changed allows => exact allows.touched.elim
  | hushed _ _ | numbered _ | stored _ | opened _ _ _ _ | forgotten _ _ _ | held _ _ | watched _ _ =>
    exact before

theorem targetOutside (target : c.target? = some m) : c.request? = none := by
  cases c with
  | setProperty _ _ _ | delProperty _ _ | insertElement _ _ _ | removeElement _ _
  | setStreamData _ _ => rfl
  | _ => cases target

theorem changedOrNot (homed : Homed w) (hears : w.hears (.recorder r) = true)
    (target : c.target? = some m) (done : c.run.on w = (res, w')) :
    (∃ e, res = .error e ∧ w' = w) ∨ ∃ given change, res = .ok given ∧ change.node = m ∧
      w'.reports r =
        w.reports r ++ List.replicate (w.home.watches.count ⟨m, .recorder r⟩) change := by
  cases c.outside (targetOutside target) done with
  | failed fault => exact .inl ⟨fault, rfl, rfl⟩
  | changed alters ok =>
    have mutator := alters.mutator
    have node := Option.some.inj (alters.target.symm.trans target)
    refine .inr ⟨_, _, rfl, (mutator.node ok).trans node, ?_⟩
    rw [changedReports homed hears (mutator.patches ok), mutator.node ok, node]
  | _ => cases target

end Call

namespace Session
open Workspace PageContent.Action

variable {r n : Nat} {first : NodeData} {before : List Change} {calls later : List Call} {s : Session}

theorem mirroredAfter (plain : first.kind ≠ .stream) (attends : ∀ c ∈ later, c.Attends r n)
    (homed : Homed s.workspace) (h : Mirrored r n first before s.workspace) :
    Homed (later.foldl after s).workspace ∧ Mirrored r n first before (later.foldl after s).workspace := by
  induction later generalizing s with
  | nil => exact ⟨homed, h⟩
  | cons c rest ih =>
    exact ih (fun c' there => attends c' (List.mem_cons_of_mem _ there))
      ((c.freely homed rfl).homed homed)
      (c.mirrored plain (attends c List.mem_cons_self) homed h rfl)

/-- What a recorder is told is complete. It is registered once on a dictionary or an array, and
calls follow, whether they succeed or not, that neither drop it nor register it there again or let
it go. From what the container held at first, the changes told of it, made one by one, lead to what
it holds, in this order; each can be made where it is told, and what it says was there before was
there. Of the calls that do not edit a page, those that fail or change no container tell nothing,
and one that changes a container tells one change of it, as often as the recorder is registered
on it: on a container that it is not registered on never, and on this one once. -/
theorem changesReported (ran : Ran calls s)
    (there : s.workspace.home.containers[n]? = some first) (plain : first.kind ≠ .stream)
    (hears : s.workspace.hears (.recorder r) = true)
    (once : s.workspace.home.watches.count ⟨n, .recorder r⟩ = 1)
    (attends : ∀ c ∈ later, c.Attends r n) :
    let w := (later.foldl after s).workspace
    (∃ told, w.reportsOn r n = s.workspace.reportsOn r n ++ told ∧
      w.home.containers[n]? = some (told.foldl NodeData.patched first) ∧
      ∀ earlier c rest, told = earlier ++ c :: rest →
        (earlier.foldl NodeData.patched first).Admits c) ∧
    w.home.watches.count ⟨n, .recorder r⟩ = 1 ∧
    ∀ c : Call, c.editsPage = false → ∀ res w', c.run.on w = (res, w') →
      (c.target? = none ∨ res.isOk = false → w'.reports r = w.reports r) ∧
      ∀ m, c.target? = some m → res.isOk = true → ∃ change, change.node = m ∧ w'.reports r =
        w.reports r ++ List.replicate (w.home.watches.count ⟨m, .recorder r⟩) change := by
  intro w
  obtain ⟨homed, mirrored⟩ : Homed w ∧ Mirrored r n first (s.workspace.reportsOn r n) w := by
    refine mirroredAfter plain attends ran.rooted.homed ⟨hears, once, [], first, ?_, there, .untold⟩
    rw [List.append_nil]
  obtain ⟨told, last, since, here, replays⟩ := mirrored.copy
  refine ⟨⟨told, since, replays.copy ▸ here, fun _ _ _ split => replays.admitted split⟩,
    mirrored.once, fun c editing res w' done => ?_⟩
  cases target : c.target? with
  | none =>
    have same := c.unreported editing target homed done
    refine ⟨fun _ => ?_, fun m other => by cases other⟩
    rw [reports, reports, same]
  | some m =>
    obtain ⟨e, rfl, rfl⟩ | ⟨given, change, rfl, node, told⟩ :=
      c.changedOrNot homed mirrored.hears target done
    · exact ⟨fun _ => rfl, fun _ _ ok => by cases ok⟩
    · refine ⟨fun failed => ?_, fun m' same _ => ?_⟩
      · obtain never | failed := failed
        · cases never
        · cases failed
      · cases same
        exact ⟨change, node, told⟩

def watchedCalls : List Call := .observe 3 :: .observe 2 :: listedCalls

def watchedLater : List Call :=
  [.add 0 .back [ascii ['h']], .insertElement 2 9 (.scalar .null), .delProperty 2 "Contents",
    .removeElement 2 0, .setProperty 3 "Rotate" (.scalar (.int 90)), .dropRecorder 1,
    .insertElement 2 1 (.dict [("Length", .scalar (.int 0))]), .removeElement 2 3]

theorem changesReportedOfListed : Ran watchedCalls (afterAll watchedCalls) ∧
    let s := afterAll watchedCalls
    let w := (watchedLater.foldl after s).workspace
    let first : NodeData := .array [.ref ⟨1, 0⟩, .ref ⟨2, 0⟩]
    s.workspace.home.containers[2]? = some first ∧ first.kind ≠ .stream ∧
    s.workspace.hears (.recorder 0) = true ∧
    s.workspace.home.watches.count ⟨2, .recorder 0⟩ = 1 ∧
    (∀ c ∈ watchedLater, c.Attends 0 2) ∧
    (w.reportsOn 0 2).map Change.kind = [.element 2 none, .element 0 (some (.ref ⟨1, 0⟩)),
      .element 1 none] ∧
    w.home.containers[2]? = some ((w.reportsOn 0 2).foldl NodeData.patched first) ∧
    ((Call.removeElement 2 7).run.on w).2.reports 0 = w.reports 0 ∧
    ∃ change, change.node = 2 ∧
      ((Call.removeElement 2 0).run.on w).2.reports 0 = w.reports 0 ++ [change] := by
  have ran : Ran watchedCalls (afterAll watchedCalls) :=
    (listedReached.ran.call (.observe 2) trivial).call (.observe 3) trivial
  have there : (afterAll watchedCalls).workspace.home.containers[2]? =
      some (.array [.ref ⟨1, 0⟩, .ref ⟨2, 0⟩]) := by decide +kernel
  have hears : (afterAll watchedCalls).workspace.hears (.recorder 0) = true := by decide +kernel
  have once : (afterAll watchedCalls).workspace.home.watches.count ⟨2, .recorder 0⟩ = 1 := by
    decide +kernel
  have attends : ∀ c ∈ watchedLater, c.Attends 0 2 := by simp [watchedLater, Call.Attends]
  have unreported : (afterAll watchedCalls).workspace.reportsOn 0 2 = [] := by decide +kernel
  obtain ⟨⟨told, since, here, -⟩, counted, calls⟩ :=
    changesReported ran there (by decide) hears once attends
  rw [unreported, List.nil_append] at since
  obtain ⟨failed, -⟩ := calls (.removeElement 2 7) rfl _ _ (Prod.eta _).symm
  obtain ⟨-, changed⟩ := calls (.removeElement 2 0) rfl _ _ (Prod.eta _).symm
  obtain ⟨change, node, more⟩ := changed 2 rfl (by decide +kernel)
  rw [counted] at more
  exact ⟨ran, there, by decide, hears, once, attends, by decide +kernel, since ▸ here,
    failed (.inr (by decide +kernel)), change, node, more⟩

end Session

end PageContent
