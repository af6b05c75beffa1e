import PageContent.Proofs.Document.Patched
import PageContent.Proofs.Workspace.Requests

/-! Calls on one document and on the pages that are open on it, and what comes of each of them. -/
namespace PageContent
open Page ContentStream

inductive Call where
  | addIndirect (o : Object)
  | addDirect (o : Object)
  | setProperty (node : Nat) (key : String) (o : Object)
  | delProperty (node : Nat) (key : String)
  | insertElement (node index : Nat) (o : Object)
  | removeElement (node index : Nat)
  | setStreamData (node : Nat) (data : Bytes)
  | observe (node : Nat)
  | observeAgain (recorder node : Nat)
  | unobserve (recorder node : Nat)
  | dropRecorder (recorder : Nat)
  | makeStream (nodes : List Nat) (params : Params)
  | makeGroups (nodes : List Nat) (params : Params)
  | rereadStream (s : ContentStream) (params : Params)
  | openPage (node : Nat) (params : Params) (encoding : Encoding)
  | streams (page : Nat)
  | load (page : Nat)
  | rereadAll (page : Nat)
  | add (page : Nat) (side : Action.Side) (pieces : List Bytes)
  | removeStream (page : Nat) (s : ContentStream)
  | removeAt (page index : Nat)
  | raise (page stream : Nat)
  | lower (page stream : Nat)
  | raiseAt (page index : Nat)
  | lowerAt (page index : Nat)
  | listAll (page : Nat)
  | reset (page : Nat)

namespace Call

def silent {α : Type} (act : Action α) : Action (List ContentStream) := do
  let _ ← act
  return []

def run : Call → Action (List ContentStream)
  | addIndirect o => silent (Action.addIndirect 0 o)
  | addDirect o => silent (Action.addDirect 0 o)
  | setProperty node key o => silent (Action.setProperty 0 node key o)
  | delProperty node key => silent (Action.delProperty 0 node key)
  | insertElement node index o => silent (Action.insertElement 0 node index o)
  | removeElement node index => silent (Action.removeElement 0 node index)
  | setStreamData node data => silent (Action.setStreamData 0 node data)
  | observe node => silent (Action.observe 0 node)
  | observeAgain recorder node => silent (Action.observeAgain recorder 0 node)
  | unobserve recorder node => silent (Action.unobserve recorder 0 node)
  | dropRecorder recorder => silent (Action.dropRecorder recorder)
  | makeStream nodes params => do return [← Action.makeStream 0 nodes params]
  | makeGroups nodes params => Action.makeGroups 0 nodes params
  | rereadStream s params => do return [← Action.rereadStream 0 s params]
  | openPage node params encoding => silent (Action.openPage 0 node params encoding)
  | streams page => do return ((← get).page page).streams
  | load page => silent (Action.load page)
  | rereadAll page => silent (Action.rereadAll page)
  | add page side pieces => do return [← Action.add page side pieces]
  | removeStream page s => silent (Action.removeStream page s)
  | removeAt page index => silent (Action.removeAt page index)
  | raise page stream => silent (Action.raise page stream)
  | lower page stream => silent (Action.lower page stream)
  | raiseAt page index => silent (Action.raiseAt page index)
  | lowerAt page index => silent (Action.lowerAt page index)
  | listAll page => silent (Action.listAll page)
  | reset page => silent (Action.reset page)

def request? : Call → Option (Nat × Request)
  | load page => some (page, .load)
  | rereadAll page => some (page, .rereadAll)
  | add page side pieces => some (page, .add side pieces)
  | removeStream page s => some (page, .removeStream s)
  | removeAt page index => some (page, .removeAt index)
  | raise page stream => some (page, .raise stream)
  | lower page stream => some (page, .lower stream)
  | raiseAt page index => some (page, .raiseAt index)
  | lowerAt page index => some (page, .lowerAt index)
  | listAll page => some (page, .listAll)
  | reset page => some (page, .reset)
  | _ => none

def Fits (held : List ContentStream) : Call → Prop
  | addIndirect o | addDirect o | setProperty _ _ o | insertElement _ _ o => o.Keyed
  | rereadStream s _ | removeStream _ s => s ∈ held
  | _ => True

end Call

structure Session where
  workspace : Workspace
  held : List ContentStream

namespace Session

def start : Session := ⟨Workspace.empty.addDocument, []⟩

def received (held : List ContentStream) : Except Fault (List ContentStream) → List ContentStream
  | .ok streams => streams ++ held
  | .error _ => held

def after (s : Session) (c : Call) : Session :=
  let (result, w) := c.run.on s.workspace
  ⟨w, received s.held result⟩

/-- Sessions that calls lead to, the last call first. References under the `/Contents` of open
pages name objects that exist, and no page its own dictionary. -/
inductive Reached : List Call → Session → Prop where
  | start : Reached [] start
  | call {calls : List Call} {s : Session} (before : Reached calls s) (c : Call)
      (fits : c.Fits s.held) (referable : (s.after c).workspace.Referable) :
      Reached (c :: calls) (s.after c)

end Session

def Still (calls : List Call) : Prop := ∀ node data, Call.setStreamData node data ∉ calls

namespace Call
open Workspace PageContent.Action

variable {c : Call} {q : Request} {w w' : Workspace} {i : Nat} {given : List ContentStream}

theorem silentRun (act : Action Unit) (w : Workspace) : act.on w =
    (((silent act).on w).1.map fun _ => (), ((silent act).on w).2) := by
  have run : (silent act).on w = _ := mapOn act (fun _ => []) w
  rw [run]
  rcases act.on w with ⟨_ | _, w'⟩ <;> rfl

theorem silentOk {α : Type} {act : Action α} (done : (silent act).on w = (.ok given, w')) :
    (∃ a, act.on w = (.ok a, w')) ∧ given = [] := by
  obtain ⟨a, w₁, first, last⟩ := boundOk done
  cases last
  exact ⟨⟨a, first⟩, rfl⟩

theorem memberInside {s : ContentStream} (member : s ∈ (w.page i).streams) : i < w.pages.size := by
  refine Nat.not_le.mp fun outside => ?_
  unfold page at member
  rw [Array.getD_eq_getD_getElem?, Array.getElem?_eq_none outside] at member
  cases member

theorem addGiven {side : Side} {pieces : List Bytes} {s : ContentStream}
    (done : (Action.add i side pieces).on w = (.ok s, w')) : s ∈ (w'.page i).streams := by
  unfold Action.add at done
  obtain ⟨p, _, -, done⟩ := boundOk done
  obtain ⟨tree, _, -, done⟩ := boundOk done
  obtain ⟨ref, _, -, done⟩ := boundOk done
  obtain ⟨d, _, -, done⟩ := boundOk done
  obtain ⟨node, _, -, done⟩ := boundOk done
  obtain ⟨_, _, -, done⟩ := boundOk done
  obtain ⟨_, w₁, -, done⟩ := boundOk done
  rw [getBound] at done
  split at done
  · rename_i found
    cases done
    have member := List.mem_of_find?_eq_some found
    have page := pageModified (memberInside member) fun p => { p with revision := p.revision + 1 }
    rw [page]
    exact member
  · cases done

theorem requested (asks : c.request? = some (i, q)) (w : Workspace) : (q.run i).on w =
    ((c.run.on w).1.map fun _ => (), (c.run.on w).2) := by
  cases c with
  | add page side pieces =>
    cases asks
    change (Action.add i side pieces >>= fun s => pure ()).on w =
      (((Action.add i side pieces >>= fun s => pure [s]).on w).1.map fun _ => (),
        ((Action.add i side pieces >>= fun s => pure [s]).on w).2)
    rw [mapOn, mapOn]
    rcases (Action.add i side pieces).on w with ⟨_ | _, w'⟩ <;> rfl
  | load _ | rereadAll _ | removeStream _ _ | removeAt _ _ | raise _ _ | lower _ _ | raiseAt _ _
  | lowerAt _ _ | listAll _ | reset _ =>
    cases asks
    exact silentRun _ w
  | _ => cases asks

theorem asked (asks : c.request? = some (i, q)) (h : Homed w) {res : Except Fault (List ContentStream)}
    (done : c.run.on w = (res, w')) : Request.Asked i w q (res.map fun _ => ()) w' := by
  have run := requested asks w
  rw [done] at run
  exact Request.asked h run

theorem givenThere (asks : c.request? = some (i, q)) (done : c.run.on w = (.ok given, w')) :
    ∀ s ∈ given, s ∈ (w'.page i).streams := by
  cases c with
  | add page side pieces =>
    cases asks
    obtain ⟨s, w₁, first, last⟩ := boundOk done
    cases last
    intro t new
    obtain rfl := List.mem_singleton.mp new
    exact addGiven first
  | load _ | rereadAll _ | removeStream _ _ | removeAt _ _ | raise _ _ | lower _ _ | raiseAt _ _
  | lowerAt _ _ | listAll _ | reset _ =>
    obtain ⟨-, rfl⟩ := silentOk done
    nofun
  | _ => cases asks

theorem asksRemove {s : ContentStream} (asks : c.request? = some (i, .removeStream s)) :
    c = .removeStream i s := by
  cases c with
  | removeStream page s =>
    cases asks
    rfl
  | _ => cases asks

def target? : Call → Option Nat
  | setProperty node _ _ | delProperty node _ | insertElement node _ _ | removeElement node _
  | setStreamData node _ => some node
  | _ => none

inductive Alters : Call → Nat → (Document → Except Fault (Document × Change)) → Prop where
  | setProperty (node : Nat) (key : String) (o : Object) :
      Alters (.setProperty node key o) node (·.setProperty node key o)
  | delProperty (node : Nat) (key : String) :
      Alters (.delProperty node key) node (·.delProperty node key)
  | insertElement (node index : Nat) (o : Object) :
      Alters (.insertElement node index o) node (·.insertElement node index o)
  | removeElement (node index : Nat) :
      Alters (.removeElement node index) node (·.removeElement node index)
  | setStreamData (node : Nat) (data : Bytes) :
      Alters (.setStreamData node data) node (·.setStreamData node data)

namespace Alters
variable {node : Nat} {f : Document → Except Fault (Document × Change)} {d d' : Document}
  {change : Change} {held : List ContentStream}

theorem target (alters : Alters c node f) : c.target? = some node := by
  cases alters <;> rfl

theorem mutator (alters : Alters c node f) : Document.Mutator node f := by
  cases alters with
  | setProperty _ key o => exact .setProperty node key o
  | delProperty _ key => exact .delProperty node key
  | insertElement _ index o => exact .insertElement node index o
  | removeElement _ index => exact .removeElement node index
  | setStreamData _ data => exact .setStreamData node data

theorem changed (alters : Alters c node f) (sound : d.Sound) (fits : c.Fits held)
    (ok : f d = .ok (d', change)) : d.Changed d' change ∧
      ((∀ node data, c ≠ .setStreamData node data) → change.kind ≠ .payload) := by
  cases alters with
  | setProperty _ _ _ => exact (Document.setPropertyChanged sound fits ok).imp_right fun quiet _ => quiet
  | delProperty _ _ => exact (Document.delPropertyChanged sound ok).imp_right fun quiet _ => quiet
  | insertElement _ _ _ =>
    exact (Document.insertElementChanged sound fits ok).imp_right fun quiet _ => quiet
  | removeElement _ _ => exact (Document.removeElementChanged sound ok).imp_right fun quiet _ => quiet
  | setStreamData _ data =>
    exact ⟨Document.setStreamDataChanged sound ok, fun other => absurd rfl (other node data)⟩

end Alters

/-- What comes of a call that asks nothing of a page. -/
inductive Done (w : Workspace) : Call → Except Fault (List ContentStream) → Workspace → Prop where
  | failed {c : Call} (fault : Fault) : Done w c (.error fault) w
  | indirect (o : Object) : Done w (.addIndirect o) (.ok []) (w.setDocument (w.home.addIndirect o).1)
  | direct (o : Object) : Done w (.addDirect o) (.ok []) (w.setDocument (w.home.addDirect o).1)
  | changed {c : Call} {node : Nat} {f : Document → Except Fault (Document × Change)} {d : Document}
      {change : Change} (alters : c.Alters node f) (ok : f w.home = .ok (d, change)) :
      Done w c (.ok []) ((w.setDocument d).notify 0 change)
  | held (node : Nat) (fault : Fault) :
      Done w (.observe node) (.error fault) { w with recorders := w.recorders.push true }
  | observed {node : Nat} {d : Document}
      (ok : w.home.register node (.recorder w.recorders.size) = .ok d) : Done w (.observe node)
        (.ok []) ({ w with recorders := w.recorders.push true }.setDocument d)
  | observedAgain {recorder node : Nat} {d : Document}
      (ok : w.home.register node (.recorder recorder) = .ok d) :
      Done w (.observeAgain recorder node) (.ok []) (w.setDocument d)
  | unobserved (recorder node : Nat) : Done w (.unobserve recorder node) (.ok [])
      (w.setDocument (w.home.unregister node (.recorder recorder)))
  | dropped (recorder : Nat) : Done w (.dropRecorder recorder) (.ok [])
      { w with recorders := w.recorders.setIfInBounds recorder false }
  | madeStream (nodes : List Nat) (params : Params) {s : ContentStream} (number : s.id = w.nextStream) :
      Done w (.makeStream nodes params) (.ok [s]) { w with nextStream := w.nextStream + 1 }
  | madeGroups (nodes : List Nat) (params : Params) {gs : List ContentStream}
      (numbers : gs.map ContentStream.id = List.range' w.nextStream gs.length) :
      Done w (.makeGroups nodes params) (.ok gs) { w with nextStream := w.nextStream + gs.length }
  | reread (s : ContentStream) (params : Params) {s' : ContentStream} (number : s'.id = s.id)
      (backing : s'.backing = s.backing) : Done w (.rereadStream s params) (.ok [s']) w
  | opens {node : Nat} {params : Params} {encoding : Encoding} {r : Except Fault Nat} {w' : Workspace}
      (run : (Action.openPage 0 node params encoding).on w = (r, w')) :
      Done w (.openPage node params encoding) (r.map fun _ => []) w'
  | streams (page : Nat) : Done w (.streams page) (.ok (w.page page).streams) w

theorem altered {node : Nat} {f : Document → Except Fault (Document × Change)}
    {res : Except Fault (List ContentStream)} (alters : c.Alters node f)
    (done : (silent (change 0 f)).on w = (res, w')) : Done w c res w' := by
  obtain ⟨r, run, rfl⟩ := mapBound done
  rw [changeOn] at run
  cases ok : f w.home with
  | error fault =>
    rw [ok] at run
    cases run
    exact .failed fault
  | ok both =>
    rw [ok] at run
    cases run
    exact .changed alters ok

theorem outside {res : Except Fault (List ContentStream)} (none : c.request? = none)
    (done : c.run.on w = (res, w')) : Done w c res w' := by
  cases c with
  | addIndirect o =>
    cases done
    exact .indirect o
  | addDirect o =>
    cases done
    exact .direct o
  | setProperty node key o => exact altered (.setProperty node key o) done
  | delProperty node key => exact altered (.delProperty node key) done
  | insertElement node index o => exact altered (.insertElement node index o) done
  | removeElement node index => exact altered (.removeElement node index) done
  | setStreamData node data => exact altered (.setStreamData node data) done
  | observe node =>
    obtain ⟨r, run, rfl⟩ := mapBound done
    unfold Action.observe at run
    rw [getBound, modifyBound, getBound] at run
    obtain ⟨d, ok, run⟩ | ⟨fault, -, rfl, rfl⟩ := boundLift run
    · rw [modifyBound] at run
      cases run
      exact .observed ok
    · exact .held node fault
  | observeAgain recorder node =>
    obtain ⟨r, run, rfl⟩ := mapBound done
    unfold Action.observeAgain at run
    rw [getBound] at run
    obtain ⟨d, ok, run⟩ | ⟨fault, -, rfl, rfl⟩ := boundLift run
    · cases run
      exact .observedAgain ok
    · exact .failed fault
  | unobserve recorder node =>
    cases done
    exact .unobserved recorder node
  | dropRecorder recorder =>
    cases done
    exact .dropped recorder
  | makeStream nodes params =>
    obtain ⟨r, run, rfl⟩ := mapBound done
    unfold Action.makeStream at run
    rw [getBound] at run
    obtain ⟨s, ok, run⟩ | ⟨fault, -, rfl, rfl⟩ := boundLift run
    · rw [setBound] at run
      cases run
      obtain ⟨backing, -, ok⟩ := bindOk.mp ok
      obtain ⟨-, -, -, -, -, -, -, rfl⟩ := readOk.mp ok
      exact .madeStream nodes params rfl
    · exact .failed fault
  | makeGroups nodes params =>
    unfold Call.run Action.makeGroups at done
    rw [getBound] at done
    obtain ⟨gs, ok, done⟩ | ⟨fault, -, rfl, rfl⟩ := boundLift done
    · rw [setBound] at done
      cases done
      obtain ⟨-, -, numbers, -⟩ := groupsOf ok
      exact .madeGroups nodes params numbers
    · exact .failed fault
  | rereadStream s params =>
    obtain ⟨r, run, rfl⟩ := mapBound done
    unfold Action.rereadStream at run
    rw [getBound, onLift] at run
    obtain ⟨ok, rfl⟩ := Prod.mk.inj run
    cases r with
    | error fault => exact .failed fault
    | ok s' =>
      obtain ⟨number, backing⟩ := rereadKept ok
      exact .reread s params number backing
  | openPage node params encoding =>
    obtain ⟨r, run, rfl⟩ := mapBound done
    exact .opens run
  | streams page =>
    cases done
    exact .streams page
  | _ => cases none

end Call

end PageContent
