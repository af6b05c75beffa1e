import PageContent.Drawing.Show
import PageContent.Workspace

/-! Working on a page: opening and closing it, editing its content in the document,
and asking for its text. Edits go to the document first. -/
namespace PageContent.Action

inductive Side where
  | front
  | back
  deriving DecidableEq, Repr

def livePage (id : Nat) : Action Page := do
  let p := (← get).page id
  if p.live then return p else throw (.object .pageReset)

def pageDocument (p : Page) : Action Document := return (← get).document p.document

def changed (id : Nat) : Action Unit :=
  modify (·.modifyPage id fun p => { p with revision := p.revision + 1 })

def quietly {α : Type} (id : Nat) (steps : Action α) : Action α := ExceptT.mk do
  modify (·.modifyPage id fun p => { p with quiet := true })
  let result ← steps.run
  modify fun w =>
    let w := w.modifyPage id fun p => { p with quiet := false }
    match w.follow id with
    | .ok w => w
    | .error _ => w
  return result

def reset (id : Nat) : Action Unit := do
  let p := (← get).page id
  if p.live then
    modify fun w => w.setDocument ((w.document p.document).unregister p.node (.page id))
    modify (·.letGo id)
    modify (·.modifyPage id fun p => { p with live := false, streams := [] })

def load (id : Nat) : Action Unit := do
  set (← (← get).load id)

def openPage (document node : Nat) (params : Params) (encoding : Encoding) : Action Nat := do
  let kind ← ((← get).document document).kind node
  if kind ≠ .dict then throw (.wrongType .pageDictionary (.kind kind))
  let id := (← get).pages.size
  let d ← ((← get).document document).register node (.page id)
  modify fun w =>
    let w := w.setDocument d
    { w with pages := w.pages.push (.new document node params encoding) }
  match (← get).follow id with
  | .ok w =>
    set (w.loadOrMark id)
    return id
  | .error fault =>
    reset id
    modify fun w => { w with pages := w.pages.pop }
    throw fault

def rereadAll (id : Nat) : Action Unit := do
  let p ← livePage id
  let d ← pageDocument p
  let streams ← (p.streams.mapM (·.reread d p.params) : Except Fault _)
  modify (·.modifyPage id fun p => { p with streams })
  changed id

def streamAt (id index : Nat) : Action ContentStream := do
  let p ← livePage id
  match p.streams[index]? with
  | some s => return s
  | none => throw (.outOfRange index p.streams.length)

def placeOf (id stream : Nat) : Action Nat := do (← livePage id).place stream

def refresh (id : Nat) : Action Unit := do
  let w ← get
  let p := w.page id
  match p.readGroups (w.document p.document) w.nextStream with
  | .error fault =>
    modify (·.markInvalid id)
    throw fault
  | .ok streams =>
    let streams' := streams.map fun s =>
      (p.streams.find? (·.backing = s.backing)).getD s
    set { w with nextStream := w.nextStream + streams.length }
    modify (·.modifyPage id fun p => { p with streams := streams' })

def listRef (p : Page) (r : Ref) (side : Side) : Action Unit := do
  let d ← pageDocument p
  match ← d.property? p.node Page.contents with
  | none => setProperty p.document p.node Page.contents (.ref r)
  | some entry =>
    let node ← Page.entryNode d entry
    match ← d.kind node with
    | .stream => match entry with
      | .ref old =>
        let refs := match side with
          | .front => [r, old]
          | .back => [old, r]
        setProperty p.document p.node Page.contents (.array (refs.map .ref))
      | _ => throw (.object .contentsDirect)
    | .array =>
      let length := (← d.items node).length
      let index := match side with
        | .front => 0
        | .back => length
      insertElement p.document node index (.ref r)
    | kind => throw (.object (.contentsKind kind))

def unlistRef (p : Page) (r : Ref) : Action Unit := do
  let d ← pageDocument p
  match ← d.property? p.node Page.contents with
  | none => throw (.missing (.streamInContents r))
  | some entry =>
    let node ← Page.entryNode d entry
    match ← d.kind node with
    | .stream =>
      if d.ref? node = some r then setProperty p.document p.node Page.contents (.array [])
      else throw (.missing (.streamInContents r))
    | .array => match (← d.items node).findIdx? (· = .ref r) with
      | some index => removeElement p.document node index
      | none => throw (.missing (.streamInContents r))
    | kind => throw (.object (.contentsKind kind))

def writeList (p : Page) (streams : List ContentStream) : Action Unit := do
  let refs := streams.flatMap fun s => s.backing.map fun b => Object.ref b.ref
  let d ← pageDocument p
  if (← d.property? p.node Page.contents).isSome then
    delProperty p.document p.node Page.contents
  setProperty p.document p.node Page.contents (.array refs)

def composed (params : Params) (pieces : List Bytes) : Bytes :=
  let tag := match params.editTag with
    | some tag => Scalar.nameText tag ++ ascii [' ', 'M', 'P', '\n']
    | none => []
  tag ++ pieces.flatMap fun piece => piece ++ [Octet.lineFeed]

def add (id : Nat) (side : Side) (pieces : List Bytes) : Action ContentStream := do
  let p ← livePage id
  let data := composed p.params pieces
  let _ ← OperatorTree.parse data ⟨p.document, ⟨0, 0⟩⟩ p.params
  let r ← addIndirect p.document (.ofData data)
  let node ← (← pageDocument p).indirect r
  quietly id (listRef p r side)
  refresh id
  match ((← get).page id).streams.find? fun s => s.backing.any (·.node = node) with
  | some s =>
    changed id
    return s
  | none => throw (.missing (.streamInContents r))

def removeStream (id : Nat) (s : ContentStream) : Action Unit := do
  let p ← livePage id
  let _ ← p.place s.id
  let d ← pageDocument p
  if (← d.property? p.node Page.contents).isNone then throw (.object .contentsAbsent)
  quietly id (s.backing.forM fun b => unlistRef p b.ref)
  refresh id
  changed id

def removeAt (id index : Nat) : Action Unit := do
  removeStream id (← streamAt id index)

def exchanged {α : Type} (l : List α) (i j : Nat) : List α :=
  match l[i]?, l[j]? with
  | some x, some y => (l.set i y).set j x
  | _, _ => l

def exchange (id i j : Nat) : Action Unit := do
  let p ← livePage id
  quietly id (writeList p (exchanged p.streams i j))
  refresh id
  changed id

def raiseAt (id index : Nat) : Action Unit := do
  let n := ((← get).page id).streams.length
  if n ≤ index + 1 then throw (.outOfRange index n)
  exchange id index (index + 1)

def lowerAt (id index : Nat) : Action Unit := do
  let n := ((← get).page id).streams.length
  if index = 0 || n ≤ index then throw (.outOfRange index n)
  exchange id (index - 1) index

def raise (id stream : Nat) : Action Unit := do
  raiseAt id (← placeOf id stream)

def lower (id stream : Nat) : Action Unit := do
  lowerAt id (← placeOf id stream)

def listAll (id : Nat) : Action Unit := do
  let p ← livePage id
  quietly id (writeList p p.streams)

def drawn (p : Page) (encoding : Encoding) : Action (Rect × TextLayer) := do
  let box := Page.mediaBox (← pageDocument p) p.node
  return (box, (Drawing.render encoding .identity (p.streams.map ContentStream.tree)).2)

def textOf (id : Nat) (encoding : Option String) (region : Option Rect) : Action String := do
  let p ← livePage id
  let encoding ← match encoding with
    | some name => (Encoding.ofName name : Except Fault _)
    | none => (.ok p.encoding : Except Fault _)
  let (box, layer) ← drawn p encoding
  return String.ofList (layer.text (region.getD box))

def matchesOf (id : Nat) (needle : String) (caseSensitive : Bool) : Action (List Rect) := do
  let p ← livePage id
  let (_, layer) ← drawn p p.encoding
  return layer.findAll needle.toList caseSensitive

end PageContent.Action
