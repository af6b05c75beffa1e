import PageContent.Proofs.Workspace.Leads

/-! What loading a page gives right after an edit of it. An edit keeps content streams that it
finds behind the same streams as before, whatever these hold by now. -/
namespace PageContent

namespace ContentStream
variable {d d' : Document} {params : Params}

theorem addAllStill (payloads : ∀ n data, d.streamData n = .ok data → d'.streamData n = .ok data)
    {b b' : Builder} {backing : List Backing} (ok : addAll d b backing = .ok b') :
    addAll d' b backing = .ok b' := by
  induction backing generalizing b with
  | nil => exact ok
  | cons s rest ih =>
    obtain ⟨data, b₁, payload, taken, more⟩ := addAllCons.mp ok
    exact addAllCons.mpr ⟨data, b₁, payloads _ _ payload, taken, ih more⟩

theorem rereadStill (id : d'.id = d.id)
    (payloads : ∀ n data, d.streamData n = .ok data → d'.streamData n = .ok data)
    {s s' : ContentStream} (ok : s.reread d params = .ok s') : s.reread d' params = .ok s' := by
  obtain ⟨first, rest, b, t, same, run, closed, rfl⟩ := readOk.mp ok
  rw [← id] at run ⊢
  exact readOk.mpr ⟨first, rest, b, t, same, addAllStill payloads run, closed, rfl⟩

theorem renumberedMap {β : Type} (f : ContentStream → β) (own : ∀ s, f s.unnumbered = f s)
    {gs gs' : List ContentStream} (same : gs'.map unnumbered = gs.map unnumbered) :
    gs'.map f = gs.map f := by
  have all := congrArg (List.map f) same
  rw [List.map_map, List.map_map] at all
  simpa only [Function.comp_def, own] using all

theorem keptText (old : List ContentStream) {g : ContentStream}
    (fresh : read d g.id g.backing params = .ok g) :
    ((kept old g).reread d params).map text = .ok g.text := by
  rw [reread, keptBacking, readRenumbered fresh]
  rfl

end ContentStream

namespace Workspace
open Page PageContent.Action ContentStream

variable {w w' : Workspace} {i : Nat} {still : Prop} {old : List ContentStream}

def Current (w : Workspace) : Prop := ∀ i, (w.page i).live = true → ∀ s ∈ (w.page i).streams,
  s.reread w.home (w.page i).params = .ok s

theorem Step.current (step : Step still w w') (quiet : still) (rooted : Rooted w) (h : Current w) :
    Current w' := by
  refine step.throughout (P := fun d params s => s.reread d params = .ok s) rooted h ?_ ?_ id
  · intro d params s ws ok
    refine rereadStill (d := d) ?_ ?_ ok
    · rfl
    · exact fun n data payload => payload
  · intro touched d params s revised payloads ok
    exact rereadStill revised.id (payloads quiet) ok

structure Refreshed (i : Nat) (old : List ContentStream) (w : Workspace) : Prop where
  live : (w.page i).live = true
  read : ∃ next gs, (w.page i).readGroups w.home next = .ok gs ∧
    (w.page i).streams = gs.map (kept old)

theorem refreshOn (rooted : Rooted w) (live : (w.page i).live = true) {gs : List ContentStream}
    (read : (w.page i).readGroups w.home w.nextStream = .ok gs) : ∃ w',
    (refresh i).on w = (.ok (), w') ∧ Rooted w' ∧ w'.home = w.home ∧
      w'.page i = { w.page i with streams := gs.map (kept (w.page i).streams) } := by
  have reading : w.reading i = .ok gs := by rw [readingHere (rooted.here i live), read]
  have done : (refresh i).on w = (.ok (), w.regrouped i gs) := by
    unfold refresh
    rw [getBound]
    unfold Workspace.reading at reading
    dsimp only
    rw [reading]
    rfl
  exact ⟨_, done, rooted.does (regroupedDoes rooted.homed live reading), rfl, regroupedPage live gs⟩

theorem loadCases (rooted : Rooted w) {r : Except Fault Unit}
    (done : (Action.load i).on w = (r, w')) : (∃ fault, r = .error fault ∧ w' = w) ∨
    ∃ gs, r = .ok () ∧ (w.page i).readGroups w.home w.nextStream = .ok gs ∧ w'.home = w.home ∧
      w'.page i = { w.page i with
        streams := gs, valid := true, revision := (w.page i).revision + 1 } := by
  obtain ⟨rfl, live, ok⟩ | failed := boundLoad done
  · rw [loadExact live (rooted.here i live)] at ok
    obtain ⟨gs, read, rfl⟩ := mapOk.mp ok
    exact .inr ⟨gs, rfl, read, rfl,
      pageModified (w := { w with nextStream := w.nextStream + gs.length }) (liveInside live) _⟩
  · exact .inl failed

theorem Refreshed.load (rooted : Rooted w) (h : Refreshed i old w) :
    ∃ w', (Action.load i).on w = (.ok (), w') ∧
      (w'.page i).streams.map ContentStream.backing = (w.page i).streams.map ContentStream.backing ∧
      ((w'.page i).streams.map ContentStream.text = (w.page i).streams.map ContentStream.text ↔
        ∀ t ∈ old, t ∈ (w.page i).streams →
          (t.reread w.home (w.page i).params).map ContentStream.text = .ok t.text) := by
  obtain ⟨next, gs, ok, streams⟩ := h.read
  obtain ⟨ns, found, groups⟩ := bindOk.mp ok
  obtain ⟨-, -, -, each⟩ := groupsOf groups
  obtain ⟨gs', again, same⟩ := groupsRenumbered groups w.nextStream
  have read : (w.page i).readGroups w.home w.nextStream = .ok gs' := bindOk.mpr ⟨ns, found, again⟩
  have loaded : w.load i = .ok ({ w with nextStream := w.nextStream + gs'.length }.modifyPage i
      fun p => { p with streams := gs', valid := true, revision := p.revision + 1 }) := by
    rw [loadExact h.live (rooted.here i h.live), read]
    rfl
  have done : (Action.load i).on w = (liftM (w.load i) >>= fun w' => set w' : Action Unit).on w := rfl
  rw [loaded, okBound] at done
  have backings := renumberedMap ContentStream.backing (fun _ => rfl) same
  have texts := renumberedMap ContentStream.text (fun _ => rfl) same
  have page := pageModified (w := { w with nextStream := w.nextStream + gs'.length })
    (liveInside h.live) fun p => { p with streams := gs', valid := true, revision := p.revision + 1 }
  refine ⟨_, done, ?_, ?_⟩
  · rw [page, streams, List.map_map, backings]
    exact List.map_congr_left fun g _ => (keptBacking old g).symm
  · rw [page, streams, List.map_map, texts, List.map_inj_left]
    constructor
    · intro unchanged t _ there
      obtain ⟨g, fresh, rfl⟩ := List.mem_map.mp there
      rw [keptText old (each g fresh)]
      exact congrArg Except.ok (unchanged g fresh)
    · intro current g fresh
      obtain same | ⟨before, -⟩ := keptCases old g
      · exact congrArg ContentStream.text same.symm
      · have again := current _ before (List.mem_map_of_mem fresh)
        rw [keptText old (each g fresh)] at again
        exact Except.ok.inj again

theorem wakePage (h : Homed w) (live : (w.page i).live = true) :
    ∃ c, (w.wake i).page i = { w.page i with quiet := false, watched := c } := by
  have page := pageModified (liveInside live) fun p => { p with quiet := false }
  have live' : ((w.modifyPage i fun p => { p with quiet := false }).page i).live = true := by
    rw [page]
    exact live
  have here' : ((w.modifyPage i fun p => { p with quiet := false }).page i).document = 0 := by
    rw [page]
    exact h.here i live
  unfold wake
  dsimp only
  split
  · rename_i w' ok
    obtain rfl | ⟨c, rfl⟩ := followShape live' here' ok
    · exact ⟨_, page⟩
    · exact ⟨c, by rw [turnPage live', page]⟩
  · exact ⟨_, page⟩

theorem wakeRead (h : Homed w) (live : (w.page i).live = true) {gs : List ContentStream}
    (read : (w.wake i).reading i = .ok gs) : ∃ ws watched,
      ((w.wake i).regrouped i gs).home = { w.home with watches := ws } ∧
      (w.page i).readGroups ((w.wake i).regrouped i gs).home (w.wake i).nextStream = .ok gs ∧
      ((w.wake i).regrouped i gs).page i = { w.page i with
        quiet := false, watched := watched, streams := gs.map (kept (w.page i).streams) } := by
  obtain ⟨watched, page⟩ := wakePage h live
  have onward := wakeOnward h i
  obtain ⟨ws, home, -⟩ := onward.home
  have live' : ((w.wake i).page i).live = true := by rw [page]; exact live
  rw [readingHere ((h.onward onward).here i live')] at read
  refine ⟨ws, watched, home, ?_, ?_⟩
  · rw [page] at read
    exact read
  · rw [regroupedPage live', page]

theorem quietlyRun {steps : Action Unit} (rooted : Rooted w) (live : (w.page i).live = true)
    (leads : Leads steps) {w₁ : Workspace} (run : steps.on (w.hush i) = (.ok (), w₁)) :
    ∃ w₂, (quietly i steps).on w = (.ok (), w₂) ∧ Rooted w₂ ∧
      (∃ ws, w₂.home = { w₁.home with watches := ws }) ∧
      ∃ watched, w₂.page i = { w.page i with quiet := false, watched := watched } := by
  obtain ⟨deeds, homed, live₁, same⟩ := leads.done rooted.homed live run
  obtain ⟨ws, home, -⟩ := (wakeOnward homed i).home
  obtain ⟨watched, page⟩ := wakePage homed live₁
  exact ⟨w₁.wake i, by rw [quietlyOn, run], (rooted.deed deeds).wake i, ⟨ws, home⟩, watched,
    by rw [page, same]⟩

theorem quietlyRenewed {α : Type} {steps : Action Unit} {after : Action α} {a : α}
    (rooted : Rooted w) (live : (w.page i).live = true) (leads : Leads steps)
    (done : (quietly i steps >>= fun _ => Action.refresh i >>= fun _ => after).on w = (.ok a, w')) :
    ∃ w₁ w₂ ws next gs watched, steps.on (w.hush i) = (.ok (), w₁) ∧
      w₂.home = { w₁.home with watches := ws } ∧ (w.page i).readGroups w₂.home next = .ok gs ∧
      w₂.page i = { w.page i with
        quiet := false, watched := watched, streams := gs.map (kept (w.page i).streams) } ∧
      after.on w₂ = (.ok a, w') := by
  obtain ⟨res, w₁, run, ⟨_, -, failed, -⟩ | ⟨rfl, ⟨_, failed, -⟩ | ⟨gs, read, last⟩⟩⟩ :=
    Request.edited done
  · cases failed
  · cases failed
  · obtain ⟨-, homed, live₁, same⟩ := leads.done rooted.homed live run
    obtain ⟨ws, watched, home, again, page⟩ := wakeRead homed live₁ read
    rw [same] at again page
    exact ⟨w₁, _, ws, _, gs, watched, run, home, again, page, last⟩

end Workspace

namespace Request
open Workspace ContentStream PageContent.Action

variable {q : Request} {w w' : Workspace} {i : Nat} {res : Except Fault Unit}
  {finds : List ContentStream → Prop}

theorem Ends.reads (h : Homed w) (live : (w.page i).live = true)
    (ends : Ends i w finds res (.ok ()) w') : res = .ok () ∧ ∃ ws next gs,
    w'.home = { w.home with watches := ws } ∧ Remains (w.page i) (w'.page i) ∧
      (w'.page i).params = (w.page i).params ∧ (w'.page i).readGroups w'.home next = .ok gs ∧
      (w'.page i).streams = gs.map (kept (w.page i).streams) := by
  cases ends with
  | @renewed gs read _ =>
    obtain ⟨ws, watched, home, again, page⟩ := wakeRead h live read
    have counted := pageModified (liveInside (by rw [page]; exact live))
      fun p => { p with revision := p.revision + 1 }
    rw [page] at counted
    refine ⟨rfl, ws, (w.wake i).nextStream, gs, home, ?_⟩
    rw [counted]
    exact ⟨⟨rfl, rfl, rfl⟩, rfl, again, rfl⟩

theorem Ends.refreshed (h : Homed w) (live : (w.page i).live = true)
    (ends : Ends i w finds res (.ok ()) w') : Refreshed i (w.page i).streams w' := by
  obtain ⟨-, -, next, gs, -, remains, -, read, streams⟩ := ends.reads h live
  exact ⟨remains.live.trans live, next, gs, read, streams⟩

theorem Asked.refreshed (asked : Asked i w q (.ok ()) w') (rooted : Rooted w)
    (writes : q.writes = true) (renews : q.renews = true) :
    Refreshed i (w.page i).streams w' := by
  have ended {finds : List ContentStream → Prop} {res : Except Fault Unit} {steps : Action Unit}
      {w₀ w₁ : Workspace} (h : Homed w₀) (live : (w₀.page i).live = true) (leads : Leads steps)
      (run : steps.on (w₀.hush i) = (res, w₁)) (ends : Ends i w₁ finds res (.ok ()) w')
      (before : w₀.page i = w.page i) : Refreshed i (w.page i).streams w' := by
    obtain ⟨-, homed, live₁, same⟩ := leads.done h live run
    have refreshed := ends.refreshed homed live₁
    rwa [same, before] at refreshed
  cases asked with
  | answered idle => cases idle.symm.trans renews
  | loaded _ _ | reread _ _ | closed _ => cases writes
  | listed _ _ => cases renews
  | @added side pieces d ref _ _ _ _ _ live new _ run ends =>
    have stores : (Scope.everywhere True True).Stores w.home d :=
      Scope.stores (fun _ => keyedData _) new
    exact ended (rooted.homed.put stores.grown.id).2 live (.listRef (rooted.here i live) ref side) run
      ends rfl
  | removed _ live _ _ run ends =>
    exact ended rooted.homed live (.unlistAll (rooted.here i live) _) run ends rfl
  | exchanged _ _ live run ends =>
    exact ended rooted.homed live (.writeList (rooted.here i live) _) run ends rfl

end Request

namespace Call
open PageContent.Action Workspace ContentStream

variable {c : Call} {w w' : Workspace} {i : Nat} {given : List ContentStream}

def moves? : Call → Option Nat
  | raise page _ | lower page _ | raiseAt page _ | lowerAt page _ => some page
  | _ => none

def edits? : Call → Option Nat
  | add page _ _ | removeStream page _ | removeAt page _ => some page
  | c => c.moves?

theorem moving (moves : c.moves? = some i) :
    ∃ q : Request, c.request? = some (i, q) ∧ q.moves = true := by
  cases c with
  | raise _ _ | lower _ _ | raiseAt _ _ | lowerAt _ _ =>
    cases moves
    exact ⟨_, rfl, rfl⟩
  | _ => cases moves

theorem editing (edits : c.edits? = some i) :
    ∃ q : Request, c.request? = some (i, q) ∧ q.writes = true ∧ q.renews = true := by
  cases c with
  | add _ _ _ | removeStream _ _ | removeAt _ _ | raise _ _ | lower _ _ | raiseAt _ _
  | lowerAt _ _ =>
    cases edits
    exact ⟨_, rfl, rfl, rfl⟩
  | _ => cases edits

theorem refreshed (rooted : Rooted w) (edits : c.edits? = some i)
    (done : c.run.on w = (.ok given, w')) : Refreshed i (w.page i).streams w' := by
  obtain ⟨q, asks, writes, renews⟩ := editing edits
  exact (c.asked asks rooted.homed done).refreshed rooted writes renews

end Call

namespace Session
open Workspace Page ContentStream

theorem Ran.current {calls : List Call} {s : Session} (ran : Ran calls s) (still : Still calls) :
    Current s.workspace := by
  refine (ran.steps.keeps startRooted (fun i live => ?_) fun rooted step h =>
    step.current still rooted h).2
  cases live

/-- Loading a page right after an edit of it succeeds, and gives as many content streams with
the same streams behind them. Their text is the same exactly if no content stream that the edit
kept is read as another text by now, and so it is unless a payload was replaced. -/
theorem loadedAfterEdit {calls : List Call} {s : Session} (ran : Ran calls s) {c : Call}
    (fits : c.Fits s.held) {i : Nat} (edits : c.edits? = some i) {given : List ContentStream}
    {w : Workspace} (done : c.run.on s.workspace = (.ok given, w)) :
    ∃ w', (Action.load i).on w = (.ok (), w') ∧
      (w'.page i).streams.map ContentStream.backing = (w.page i).streams.map ContentStream.backing ∧
      ((w'.page i).streams.map ContentStream.text = (w.page i).streams.map ContentStream.text ↔
        ∀ t ∈ (s.workspace.page i).streams, t ∈ (w.page i).streams →
          (t.reread w.home (w.page i).params).map ContentStream.text = .ok t.text) ∧
      (Still calls →
        (w'.page i).streams.map ContentStream.text = (w.page i).streams.map ContentStream.text) := by
  have later : Ran (c :: calls) (s.after c) := ran.call c fits
  have same : (s.after c).workspace = w := by simp [Session.after, done]
  have rooted : Rooted w := same ▸ later.rooted
  have refreshed := c.refreshed ran.rooted edits done
  obtain ⟨w', loaded, backings, texts⟩ := refreshed.load rooted
  refine ⟨w', loaded, backings, texts, fun still => texts.mpr fun t _ there => ?_⟩
  have none : Still (c :: calls) := by
    intro node data member
    obtain rfl | before := List.mem_cons.mp member
    · cases edits
    · exact still node data before
  have current := later.current none
  rw [same] at current
  rw [current i refreshed.live t there]
  rfl

def listedCalls : List Call :=
  [.openPage 3 .default .latin1,
    .addIndirect (.dict [("Contents", .array [.ref ⟨1, 0⟩, .ref ⟨2, 0⟩])]),
    .addIndirect (.ofData (ascii ['f'])), .addIndirect (.ofData (ascii ['n']))]

theorem listedReached : Reached listedCalls (afterAll listedCalls) := by
  have keyed : (Object.dict [("Contents", .array [.ref ⟨1, 0⟩, .ref ⟨2, 0⟩])]).Keyed :=
    ⟨by simp, ⟨trivial, trivial, trivial⟩, trivial⟩
  have first := Reached.start.call (.addIndirect (.ofData (ascii ['n']))) (keyedData _)
    (by decide +kernel)
  have second := first.call (.addIndirect (.ofData (ascii ['f']))) (keyedData _) (by decide +kernel)
  have page := second.call (.addIndirect (.dict [("Contents", .array [.ref ⟨1, 0⟩, .ref ⟨2, 0⟩])]))
    keyed (by decide +kernel)
  exact page.call (.openPage 3 .default .latin1) trivial (by decide +kernel)

theorem loadedAfterAdd : Ran listedCalls (afterAll listedCalls) ∧ Still listedCalls ∧ ∃ given w,
    (Call.add 0 .back [ascii ['h']]).run.on (afterAll listedCalls).workspace = (.ok given, w) ∧
    ∃ w', (Action.load 0).on w = (.ok (), w') ∧
      (w'.page 0).streams.map ContentStream.text = (w.page 0).streams.map ContentStream.text := by
  have still : Still listedCalls := by
    intro node data member
    simp [listedCalls] at member
  have added : ((Call.add 0 .back [ascii ['h']]).run.on
      (afterAll listedCalls).workspace).1.isOk = true := by decide +kernel
  cases done : (Call.add 0 .back [ascii ['h']]).run.on (afterAll listedCalls).workspace with
  | mk res w =>
    rw [done] at added
    cases res with
    | error e => cases added
    | ok given =>
      obtain ⟨w', loaded, -, -, texts⟩ := loadedAfterEdit listedReached.ran
        (c := .add 0 .back [ascii ['h']]) trivial rfl done
      exact ⟨listedReached.ran, still, given, w, rfl, w', loaded, texts still⟩

def replacedCalls : List Call := .setStreamData 0 (ascii ['s']) :: listedCalls

-- The edit finds the same streams in the array and keeps what it read of them before.
theorem staleAfterEdit : Ran replacedCalls (afterAll replacedCalls) ∧
    let edited := (Call.add 0 .back [ascii ['h']]).run.on (afterAll replacedCalls).workspace
    let loaded := (Action.load 0).on edited.2
    edited.1.isOk = true ∧ loaded.1.isOk = true ∧
    (edited.2.page 0).streams.map ContentStream.text = ["n\n", "f\n", "h\n"] ∧
    (loaded.2.page 0).streams.map ContentStream.text = ["s\n", "f\n", "h\n"] :=
  ⟨listedReached.ran.call (.setStreamData 0 (ascii ['s'])) trivial, by decide +kernel,
    by decide +kernel, by decide +kernel, by decide +kernel⟩

end Session

end PageContent
