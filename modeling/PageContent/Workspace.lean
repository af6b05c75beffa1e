import PageContent.Page

/-! Documents with the pages open on them and the recorders that watch them. A
change of a container is told to its watchers one by one; pages then read again. -/
namespace PageContent

structure Note where
  recorder : Nat
  change : Change
  deriving DecidableEq, Repr

/-- `recorders` tells which recorders are still held. Content streams are numbered
in the order in which they are read. -/
structure Workspace where
  documents : Array Document
  pages : Array Page
  recorders : Array Bool
  nextStream : Nat
  notes : Array Note
  deriving Repr

namespace Workspace

def empty : Workspace := ⟨#[], #[], #[], 0, #[]⟩

def addDocument (w : Workspace) : Workspace :=
  { w with documents := w.documents.push (.empty w.documents.size) }

def document (w : Workspace) (id : Nat) : Document := w.documents.getD id (.empty id)

def setDocument (w : Workspace) (d : Document) : Workspace :=
  { w with documents := w.documents.setIfInBounds d.id d }

def page (w : Workspace) (id : Nat) : Page := w.pages.getD id .absent

def modifyPage (w : Workspace) (id : Nat) (f : Page → Page) : Workspace :=
  { w with pages := w.pages.modify id f }

def hears (w : Workspace) : Watcher → Bool
  | .recorder id => w.recorders.getD id false
  | .page id => (w.page id).live

def follow (w : Workspace) (id : Nat) : Except Fault Workspace := do
  let p := w.page id
  if !p.live then return w
  let d := w.document p.document
  let current ← Page.contentsNode? d p.node
  if current = p.watched then return w
  let d := match p.watched with
    | some old => d.unregister old (.page id)
    | none => d
  let d ← match current with
    | some node => d.register node (.page id)
    | none => .ok d
  return (w.setDocument d).modifyPage id fun p => { p with watched := current }

def letGo (w : Workspace) (id : Nat) : Workspace :=
  let p := w.page id
  match p.watched with
  | none => w
  | some old =>
    (w.setDocument ((w.document p.document).unregister old (.page id))).modifyPage id
      fun p => { p with watched := none }

def markInvalid (w : Workspace) (id : Nat) : Workspace :=
  w.modifyPage id fun p => { p with valid := false }

def load (w : Workspace) (id : Nat) : Except Fault Workspace := do
  let p := w.page id
  if !p.live then throw (.object .pageReset)
  let streams ← p.readGroups (w.document p.document) w.nextStream
  let w := { w with nextStream := w.nextStream + streams.length }
  return w.modifyPage id fun p => { p with streams, valid := true, revision := p.revision + 1 }

def loadOrMark (w : Workspace) (id : Nat) : Workspace :=
  match w.load id with
  | .ok w => w
  | .error _ => w.markInvalid id

def react (w : Workspace) (id : Nat) (c : Change) : Workspace :=
  let p := w.page id
  if p.quiet || !p.live then w
  else if c.node = p.node then
    match c.kind with
    | .entry key _ =>
      if key ≠ Page.contents then w
      else if c.value.isNone then w.letGo id
      else match w.follow id with
        | .ok w => w.loadOrMark id
        | .error _ => w.markInvalid id
    | _ => w
  else if some c.node = p.watched then w.loadOrMark id
  else w

def tell (w : Workspace) (watcher : Watcher) (c : Change) : Workspace :=
  match watcher with
  | .recorder id => { w with notes := w.notes.push ⟨id, c⟩ }
  | .page id => w.react id c

def notify (w : Workspace) (document : Nat) (c : Change) : Workspace :=
  let watchers := ((w.document document).watchers c.node).filter w.hears
  watchers.foldl (fun w watcher => w.tell watcher c) w

end Workspace

abbrev Action := ExceptT Fault (StateM Workspace)

namespace Action

def change (document : Nat) (f : Document → Except Fault (Document × Change)) : Action Unit := do
  let w ← get
  let (d, c) ← f (w.document document)
  set ((w.setDocument d).notify document c)

def setProperty (document node : Nat) (key : String) (o : Object) : Action Unit :=
  change document (·.setProperty node key o)

def delProperty (document node : Nat) (key : String) : Action Unit :=
  change document (·.delProperty node key)

def insertElement (document node index : Nat) (o : Object) : Action Unit :=
  change document (·.insertElement node index o)

def removeElement (document node index : Nat) : Action Unit :=
  change document (·.removeElement node index)

def setStreamData (document node : Nat) (data : Bytes) : Action Unit :=
  change document (·.setStreamData node data)

def addIndirect (document : Nat) (o : Object) : Action Ref := do
  let w ← get
  let (d, r) := (w.document document).addIndirect o
  set (w.setDocument d)
  return r

def addDirect (document : Nat) (o : Object) : Action (Option Nat) := do
  let w ← get
  let (d, node) := (w.document document).addDirect o
  set (w.setDocument d)
  return node

def observe (document node : Nat) : Action Nat := do
  let id := (← get).recorders.size
  modify fun w => { w with recorders := w.recorders.push true }
  let d ← ((← get).document document).register node (.recorder id)
  modify (·.setDocument d)
  return id

def observeAgain (recorder document node : Nat) : Action Unit := do
  let d ← ((← get).document document).register node (.recorder recorder)
  modify (·.setDocument d)

def unobserve (recorder document node : Nat) : Action Unit :=
  modify fun w => w.setDocument ((w.document document).unregister node (.recorder recorder))

def dropRecorder (recorder : Nat) : Action Unit :=
  modify fun w => { w with recorders := w.recorders.setIfInBounds recorder false }

def observerCount (document node : Nat) : Action Nat := do
  let w ← get
  return ((w.document document).watchers node).countP w.hears

def makeStream (document : Nat) (nodes : List Nat) (params : Params) : Action ContentStream := do
  let w ← get
  let s ← ContentStream.make (w.document document) w.nextStream nodes params
  set { w with nextStream := w.nextStream + 1 }
  return s

def makeGroups (document : Nat) (nodes : List Nat) (params : Params) :
    Action (List ContentStream) := do
  let w ← get
  let streams ← ContentStream.groups (w.document document) w.nextStream nodes params
  set { w with nextStream := w.nextStream + streams.length }
  return streams

def rereadStream (document : Nat) (s : ContentStream) (params : Params) : Action ContentStream := do
  s.reread ((← get).document document) params

end Action

end PageContent
