import PageContent.Page.Edit
import PageContent.Proofs.Page.Kept

/-! Edits of `/Contents` as changes of a document, and what it lists afterwards. -/
namespace PageContent

namespace Action.Side
variable {α β : Type}

def put (side : Side) (x : α) (l : List α) : List α :=
  match side with
  | .front => x :: l
  | .back => l ++ [x]

def index (side : Side) (length : Nat) : Nat :=
  match side with
  | .front => 0
  | .back => length

variable (side : Side) (x : α) (l : List α)

theorem indexInside : side.index l.length ≤ l.length := by
  cases side <;> simp [index]

theorem putAt : l.take (side.index l.length) ++ x :: l.drop (side.index l.length) = side.put x l := by
  cases side <;> simp [put, index]

theorem mapPut (f : α → β) : (side.put x l).map f = side.put (f x) (l.map f) := by
  cases side <;> simp [put]

theorem putPerm : (side.put x l).Perm (x :: l) := by
  cases side with
  | front => exact .refl _
  | back => exact List.perm_append_singleton x l

theorem memberPut {x y : α} {l : List α} : y ∈ side.put x l ↔ y = x ∨ y ∈ l := by
  rw [(side.putPerm x l).mem_iff, List.mem_cons]

theorem putSplit : ∃ before after, side.put x l = before ++ x :: after ∧ before ++ after = l := by
  cases side with
  | front => exact ⟨[], l, rfl, rfl⟩
  | back => exact ⟨l, [], rfl, List.append_nil l⟩

theorem putMap {f : α → β} {l : List α} {y : β} {ys : List β} (same : l.map f = side.put y ys) :
    ∃ x xs, l = side.put x xs ∧ f x = y ∧ xs.map f = ys := by
  cases side with
  | front =>
    obtain ⟨x, xs, rfl, first, rest⟩ := List.map_eq_cons_iff.mp same
    exact ⟨x, xs, rfl, first, rest⟩
  | back =>
    obtain ⟨xs, last, rfl, rest, one⟩ := List.map_eq_append_iff.mp same
    obtain ⟨x, rfl, there⟩ := List.map_eq_singleton_iff.mp one
    exact ⟨x, xs, rfl, there, rest⟩

theorem findPut {x : α} {l : List α} {p : α → Bool} (hit : p x = true)
    (others : ∀ y ∈ l, p y = false) : (side.put x l).find? p = some x := by
  cases side with
  | front => rw [put, List.find?_cons_of_pos hit]
  | back =>
    have none : l.find? p = none := List.find?_eq_none.mpr fun y there => by rw [others y there]; simp
    rw [put, List.find?_append, none, Option.none_or, List.find?_cons_of_pos hit]

end Action.Side

namespace Page
open Document
open PageContent.Action (Side)

variable {d d' : Document} {page : Nat} {c : Change}

def listed (d : Document) (page : Nat) (r : Ref) (side : Side) :
    Except Fault (Document × Change) := do
  match ← d.property? page contents with
  | none => d.setProperty page contents (.ref r)
  | some entry =>
    let node ← entryNode d entry
    match ← d.kind node with
    | .stream => match entry with
      | .ref old =>
        let refs := match side with
          | .front => [r, old]
          | .back => [old, r]
        d.setProperty page contents (.array (refs.map .ref))
      | _ => throw (.object .contentsDirect)
    | .array =>
      let length := (← d.items node).length
      let index := match side with
        | .front => 0
        | .back => length
      d.insertElement node index (.ref r)
    | kind => throw (.object (.contentsKind kind))

def unlisted (d : Document) (page : Nat) (r : Ref) : Except Fault (Document × Change) := do
  match ← d.property? page contents with
  | none => throw (.missing (.streamInContents r))
  | some entry =>
    let node ← entryNode d entry
    match ← d.kind node with
    | .stream =>
      if d.ref? node = some r then d.setProperty page contents (.array [])
      else throw (.missing (.streamInContents r))
    | .array => match (← d.items node).findIdx? (· = .ref r) with
      | some index => d.removeElement node index
      | none => throw (.missing (.streamInContents r))
    | kind => throw (.object (.contentsKind kind))

inductive Listing (d : Document) (page : Nat) (r : Ref) (side : Side) (d' : Document) (c : Change) :
    Prop where
  | absent (bare : d.property? page contents = .ok none)
      (ok : d.setProperty page contents (.ref r) = .ok (d', c))
  | alone {old : Ref} {node : Nat} (found : d.property? page contents = .ok (some (.ref old)))
      (resolved : d.indirect old = .ok node) (stream : d.kind node = .ok .stream)
      (ok : d.setProperty page contents (.array ((side.put r [old]).map .ref)) = .ok (d', c))
  | array {v : Value} {node : Nat} {items : List Value}
      (found : d.property? page contents = .ok (some v)) (resolved : d.resolve v = .ok (some node))
      (held : d.items node = .ok items)
      (ok : d.insertElement node (side.index items.length) (.ref r) = .ok (d', c))

theorem entryNodeOk {v : Value} {node : Nat} :
    entryNode d v = .ok node ↔ d.resolve v = .ok (some node) := by
  rw [entryNode, bindOk]
  constructor
  · rintro ⟨m, found, last⟩
    cases m with
    | none => cases last
    | some n =>
      cases last
      exact found
  · exact fun found => ⟨some node, found, rfl⟩

theorem itemsKind {node : Nat} {items : List Value} (held : d.items node = .ok items) :
    d.kind node = .ok .array := by
  obtain ⟨n, there, data⟩ := itemsOk.mp held
  exact kindOk.mpr ⟨n, there, by rw [data]; rfl⟩

theorem listedExact {r : Ref} {side : Side} :
    listed d page r side = .ok (d', c) ↔ Listing d page r side d' c := by
  constructor
  · intro ok
    obtain ⟨entry, found, ok⟩ := bindOk.mp ok
    cases entry with
    | none => exact .absent found ok
    | some entry =>
      simp only [bindOk, entryNodeOk] at ok
      obtain ⟨node, resolved, kind, there, ok⟩ := ok
      cases kind with
      | stream =>
        cases entry with
        | ref old =>
          obtain ⟨m, object, same⟩ := mapOk.mp resolved
          cases same
          cases side with
          | front => exact .alone found object there ok
          | back => exact .alone found object there ok
        | node id => cases ok
        | scalar s => cases ok
      | array =>
        obtain ⟨items, held, ok⟩ := bindOk.mp ok
        cases side with
        | front => exact .array found resolved held ok
        | back => exact .array found resolved held ok
      | _ => cases ok
  · rintro (⟨bare, ok⟩ | ⟨found, resolved, stream, ok⟩ | ⟨found, resolved, held, ok⟩)
    · exact bindOk.mpr ⟨none, bare, ok⟩
    · refine bindOk.mpr ⟨_, found, bindOk.mpr ⟨_, entryNodeOk.mpr (mapOk.mpr ⟨_, resolved, rfl⟩),
        bindOk.mpr ⟨.stream, stream, ?_⟩⟩⟩
      cases side with
      | front => exact ok
      | back => exact ok
    · refine bindOk.mpr ⟨_, found, bindOk.mpr ⟨_, entryNodeOk.mpr resolved,
        bindOk.mpr ⟨.array, itemsKind held, bindOk.mpr ⟨_, held, ?_⟩⟩⟩⟩
      cases side with
      | front => exact ok
      | back => exact ok

structure Harmless (d d' : Document) (c : Change) : Prop where
  changed : d.Changed d' c
  quiet : c.kind ≠ .payload
  unnamed : ∀ old, c.kind = .entry contents old → ∀ r, c.value ≠ some (.ref r)

theorem Harmless.grounded (h : Harmless d d' c) {p : Page} (dict : d.kind p.node = .ok .dict)
    (grounded : Grounded d p.node) : Grounded d' p.node := by
  by_cases touches : Touches c p
  · intro r found
    rw [touchedProperty h.changed dict touches] at found
    obtain ⟨-, old, told⟩ := touches
    exact absurd (Except.ok.inj found) (h.unnamed old told r)
  · exact grounded.revised h.changed.toRevised (changedProperty h.changed dict touches)

theorem keyedRefs (refs : List Ref) : (Object.array (refs.map .ref)).Keyed := by
  unfold Object.Keyed
  induction refs with
  | nil => trivial
  | cons r rest ih => exact ⟨trivial, ih⟩

theorem arrayHarmless (sound : d.Sound) (refs : List Ref)
    (ok : d.setProperty page contents (.array (refs.map .ref)) = .ok (d', c)) : Harmless d d' c := by
  obtain ⟨changed, quiet⟩ := setPropertyChanged sound (keyedRefs refs) ok
  refine ⟨changed, quiet, fun old _ r same => ?_⟩
  simp only [setProperty, bindOk, pureOk] at ok
  obtain ⟨n, -, es, -, last⟩ := ok
  cases last
  cases same

theorem insertHarmless (sound : d.Sound) {node index : Nat} {r : Ref}
    (ok : d.insertElement node index (.ref r) = .ok (d', c)) : Harmless d d' c := by
  obtain ⟨changed, quiet⟩ := insertElementChanged sound (by trivial) ok
  refine ⟨changed, quiet, fun old told => ?_⟩
  simp only [insertElement, bindOk] at ok
  obtain ⟨items, -, last⟩ := ok
  split at last
  · cases last
  · cases last
    cases told

theorem removeHarmless (sound : d.Sound) {node index : Nat}
    (ok : d.removeElement node index = .ok (d', c)) : Harmless d d' c := by
  obtain ⟨changed, quiet⟩ := removeElementChanged sound ok
  refine ⟨changed, quiet, fun old told => ?_⟩
  simp only [removeElement, bindOk] at ok
  obtain ⟨items, -, last⟩ := ok
  split at last
  · cases last
  · cases last
    cases told

theorem delHarmless (sound : d.Sound) {key : String}
    (ok : d.delProperty page key = .ok (d', c)) : Harmless d d' c := by
  obtain ⟨changed, quiet⟩ := delPropertyChanged sound ok
  refine ⟨changed, quiet, fun old _ r same => ?_⟩
  simp only [delProperty, bindOk] at ok
  obtain ⟨n, -, es, -, last⟩ := ok
  split at last
  · cases last
  · cases last
    cases same

theorem listedChanged (sound : d.Sound) {r : Ref} {side : Side}
    (ok : listed d page r side = .ok (d', c)) : d.Changed d' c ∧ c.kind ≠ .payload ∧
      (d.property? page contents = .ok none ∨ Harmless d d' c) := by
  obtain ⟨bare, ok⟩ | ⟨-, -, -, ok⟩ | ⟨-, -, -, ok⟩ := listedExact.mp ok
  · obtain ⟨changed, quiet⟩ := setPropertyChanged sound (by trivial) ok
    exact ⟨changed, quiet, .inl bare⟩
  · have harmless := arrayHarmless sound _ ok
    exact ⟨harmless.changed, harmless.quiet, .inr harmless⟩
  · have harmless := insertHarmless sound ok
    exact ⟨harmless.changed, harmless.quiet, .inr harmless⟩

theorem unlistedShape {r : Ref} (ok : unlisted d page r = .ok (d', c)) :
    d.setProperty page contents (.array []) = .ok (d', c) ∨
    ∃ node v rest index, contentsNode? d page = .ok (some node) ∧ d.items node = .ok (v :: rest) ∧
      d.removeElement node index = .ok (d', c) := by
  obtain ⟨entry, found, ok⟩ := bindOk.mp ok
  cases entry with
  | none => cases ok
  | some entry =>
    simp only [bindOk] at ok
    obtain ⟨node, resolved, kind, -, ok⟩ := ok
    cases kind with
    | stream =>
      dsimp only at ok
      split at ok
      · exact .inl ok
      · cases ok
    | array =>
      obtain ⟨items, held, ok⟩ := bindOk.mp ok
      split at ok
      · rename_i index place
        have named := contentsNodeExact.mpr (.inr ⟨entry, found, entryNodeOk.mp resolved⟩)
        cases items with
        | nil => cases place
        | cons v rest => exact .inr ⟨node, v, rest, index, named, held, ok⟩
      · cases ok
    | _ => cases ok

theorem unlistedHarmless (sound : d.Sound) {r : Ref} (ok : unlisted d page r = .ok (d', c)) :
    Harmless d d' c := by
  obtain ok | ⟨_, _, _, _, -, -, ok⟩ := unlistedShape ok
  · exact arrayHarmless sound [] ok
  · exact removeHarmless sound ok

theorem arrayWritten (dict : d.kind page = .ok .dict) (refs : List Ref) : ∃ d' c m,
    d.setProperty page contents (.array (refs.map .ref)) = .ok (d', c) ∧
    d'.property? page contents = .ok (some (.node m)) ∧ d'.kind m = .ok .array ∧
    d'.items m = .ok (refs.map .ref) ∧ d'.objects = d.objects := by
  obtain ⟨n, es, there, data⟩ := dictOk.mp dict
  have entries : d.entries page = .ok es := entriesOk.mpr ⟨n, there, by rw [data]; rfl⟩
  obtain ⟨inside, -⟩ := Array.getElem?_eq_some_iff.mp there
  have apart : page ≠ d.nodes.size := Nat.ne_of_lt inside
  have stored : store d.nodes (.array (refs.map .ref)) =
      (d.nodes.push ⟨.array (refs.map .ref), none⟩, .node d.nodes.size) := by
    rw [store, storeRefs]
  let d₁ : Document := { d with nodes := d.nodes.push ⟨.array (refs.map .ref), none⟩ }
  let es' := Dict.set contents (.node d.nodes.size) es
  have here : (d₁.setData page (.dict es')).nodes[page]? = some { n with data := .dict es' } := by
    have old : d₁.nodes[page]? = some n := by
      rw [Array.getElem?_push, if_neg apart]
      exact there
    rw [setDataNode, old, Option.map_some, if_pos rfl]
  have new : (d₁.setData page (.dict es')).nodes[d.nodes.size]? =
      some ⟨.array (refs.map .ref), none⟩ := by
    have last : d₁.nodes[d.nodes.size]? = some ⟨.array (refs.map .ref), none⟩ := by
      rw [Array.getElem?_push, if_pos rfl]
    rw [setDataNode, last, Option.map_some, if_neg apart]
  refine ⟨d₁.setData page (.dict es'), ⟨page, some (.node d.nodes.size), .entry contents (es.get? contents)⟩,
    d.nodes.size, ?_, ?_, kindOk.mpr ⟨_, new, rfl⟩, itemsOk.mpr ⟨_, new, rfl⟩, rfl⟩
  · simp only [setProperty, nodeOk.mpr there, entries, stored, bind, Except.bind, pure, Except.pure, data]
    rfl
  · exact propertyOk.mpr ⟨es', entriesOk.mpr ⟨_, here, rfl⟩, Dict.get?_set_self _ _ _⟩

theorem arrayNodes (dict : d.kind page = .ok .dict) (bs : List Backing)
    (named : ∀ b ∈ bs, d.indirect b.ref = .ok b.node) : ∃ d' c,
    d.setProperty page contents (.array ((bs.map Backing.ref).map .ref)) = .ok (d', c) ∧
    contentNodes d' page = .ok (bs.map Backing.node) := by
  obtain ⟨d', c, m, ok, entry, kind, items, objects⟩ := arrayWritten dict (bs.map Backing.ref)
  refine ⟨d', c, ok, contentNodesExact.mpr (.inr ⟨_, m, entry, rfl, .inr ⟨kind, _, items, ?_⟩⟩)⟩
  rw [List.map_map, List.map_map, List.map_map]
  refine List.map_congr_left fun b member => ?_
  have same : d'.indirect b.ref = d.indirect b.ref := by rw [indirect, objects, indirect]
  exact mapOk.mpr ⟨b.node, same.trans (named b member), rfl⟩

theorem eraseListed {b : Backing} {vs : List Value} {ns : List Nat}
    (each : vs.map d.resolve = ns.map fun n => .ok (some n)) (named : d.indirect b.ref = .ok b.node)
    (own : ∀ v ∈ vs, d.resolve v = .ok (some b.node) → v = .ref b.ref) (member : b.node ∈ ns) :
    ∃ index, vs.findIdx? (· = .ref b.ref) = some index ∧ index < vs.length ∧
      (vs.eraseIdx index).map d.resolve = (ns.erase b.node).map fun n => .ok (some n) := by
  induction vs generalizing ns with
  | nil =>
    cases ns with
    | nil => cases member
    | cons n later => cases each
  | cons v rest ih =>
    cases ns with
    | nil => cases each
    | cons n later =>
      simp only [List.map_cons, List.cons.injEq] at each
      obtain ⟨first, others⟩ := each
      by_cases same : v = .ref b.ref
      · subst same
        have number : n = b.node := by
          have resolved : d.resolve (.ref b.ref) = .ok (some b.node) := mapOk.mpr ⟨_, named, rfl⟩
          rw [resolved] at first
          cases first
          rfl
        refine ⟨0, by simp [List.findIdx?_cons], by simp, ?_⟩
        rw [number, List.erase_cons_head]
        exact others
      · have number : n ≠ b.node := by
          rintro rfl
          exact same (own v List.mem_cons_self first)
        have later' : b.node ∈ later := (List.mem_cons.mp member).resolve_left (Ne.symm number)
        obtain ⟨index, found, inside, left⟩ :=
          ih others (fun v there => own v (List.mem_cons_of_mem _ there)) later'
        refine ⟨index + 1, by simp [List.findIdx?_cons, same, found], by simpa using inside, ?_⟩
        rw [List.eraseIdx_cons_succ, List.erase_cons_tail (by simpa using number), List.map_cons,
          List.map_cons, first, left]

theorem removeElementNodes {node : Nat} {vs : List Value} {index : Nat}
    (items : d.items node = .ok vs) (inside : index < vs.length) : ∃ d' c,
    d.removeElement node index = .ok (d', c) ∧ d'.items node = .ok (vs.eraseIdx index) := by
  obtain ⟨n, there, array⟩ := itemsOk.mp items
  refine ⟨d.setData node (.array (vs.eraseIdx index)),
    ⟨node, none, .element index (some vs[index])⟩, ?_, ?_⟩
  · simp only [removeElement, items, bind, Except.bind, List.getElem?_eq_getElem inside]
    rfl
  · refine itemsOk.mpr ⟨{ n with data := .array (vs.eraseIdx index) }, ?_, rfl⟩
    rw [setDataNode, there, Option.map_some, if_pos rfl]

theorem unlistedStream {v : Value} {node : Nat} {r : Ref}
    (found : d.property? page contents = .ok (some v)) (resolved : d.resolve v = .ok (some node))
    (kind : d.kind node = .ok .stream) (ref : d.ref? node = some r) :
    unlisted d page r = d.setProperty page contents (.array []) := by
  simp only [unlisted, found, entryNode, resolved, kind, bind, Except.bind, pure, Except.pure]
  exact if_pos ref

theorem unlistedArray {v : Value} {node : Nat} {r : Ref} {vs : List Value} {index : Nat}
    (found : d.property? page contents = .ok (some v)) (resolved : d.resolve v = .ok (some node))
    (kind : d.kind node = .ok .array) (items : d.items node = .ok vs)
    (place : vs.findIdx? (· = .ref r) = some index) :
    unlisted d page r = d.removeElement node index := by
  simp only [unlisted, found, entryNode, resolved, kind, items, bind, Except.bind, pure, Except.pure]
  rw [place]

theorem unlistedNodes (sound : d.Sound) (dict : d.kind page = .ok .dict) {ns : List Nat}
    (ok : contentNodes d page = .ok ns) {b : Backing} (member : b.node ∈ ns)
    (backing : Backing.resolve d b.node = .ok b) : ∃ d' c, unlisted d page b.ref = .ok (d', c) ∧
      contentNodes d' page = .ok (ns.erase b.node) := by
  have named := contentNodesBacked sound ok member backing
  obtain ⟨-, rfl⟩ | ⟨v, node, found, resolved, lists⟩ := contentNodesExact.mp ok
  · cases member
  obtain ⟨kind, rfl⟩ | ⟨kind, vs, items, each⟩ := lists
  · obtain rfl := List.mem_singleton.mp member
    obtain ⟨-, ref, -⟩ := ContentStream.resolveOk.mp backing
    obtain ⟨d', c, written, left⟩ := arrayNodes dict [] fun b member => by cases member
    refine ⟨d', c, ?_, ?_⟩
    · rw [unlistedStream found resolved kind ref]
      exact written
    · rw [left, List.erase_cons_head]
      rfl
  · obtain ⟨n, there, array⟩ := itemsOk.mp items
    -- an indirect stream is no element but by its reference
    have own : ∀ v ∈ vs, d.resolve v = .ok (some b.node) → v = .ref b.ref := by
      intro v held same
      exact (sound.backed there (by rw [array]; exact held) same backing).1
    obtain ⟨index, place, inside, left⟩ := eraseListed each named own member
    obtain ⟨d', c, removed, items'⟩ := removeElementNodes items inside
    have changed := (removeHarmless sound removed).changed
    have here : c.node = node := removeElementNode removed
    refine ⟨d', c, ?_, contentNodesExact.mpr (.inr ⟨v, node, ?_, ?_, .inr ⟨?_, _, items', ?_⟩⟩)⟩
    · rw [unlistedArray found resolved kind items place]
      exact removed
    · rw [← found]
      refine revisedProperty changed.toRevised dict (fun same => ?_) contents
      rw [Option.some.inj same, here, kind] at dict
      cases dict
    · exact changed.resolve resolved
    · exact changed.kind kind
    · exact changed.resolveAll left

theorem setPropertyThere (dict : d.kind page = .ok .dict) (key : String) (o : Object) :
    ∃ d' c, d.setProperty page key o = .ok (d', c) := by
  obtain ⟨n, es, there, data⟩ := dictOk.mp dict
  have entries : d.entries page = .ok es := entriesOk.mpr ⟨n, there, by rw [data]; rfl⟩
  rw [setProperty, nodeOk.mpr there, entries]
  exact ⟨_, _, rfl⟩

theorem setPropertyEntries (sound : d.Sound) (dict : d.kind page = .ok .dict) {key : String}
    {o : Object} (keyed : o.Keyed) (ok : d.setProperty page key o = .ok (d', c)) :
    d'.property? page key = .ok c.value ∧
      ∀ other, other ≠ key → d'.property? page other = d.property? page other := by
  obtain ⟨changed, -⟩ := setPropertyChanged sound keyed ok
  simp only [setProperty, bindOk, pureOk] at ok
  obtain ⟨n, -, es, -, last⟩ := ok
  cases last
  obtain ⟨_, _, told, value, others⟩ := changed.entries dict
  cases told
  exact ⟨value, others⟩

theorem entrySet (sound : d.Sound) (dict : d.kind page = .ok .dict) {r : Ref}
    (ok : d.setProperty page contents (.ref r) = .ok (d', c)) :
    d'.property? page contents = .ok (some (.ref r)) := by
  obtain ⟨value, -⟩ := setPropertyEntries sound dict (by trivial) ok
  simp only [setProperty, bindOk, pureOk] at ok
  obtain ⟨n, -, es, -, last⟩ := ok
  cases last
  exact value

theorem insertedItems {node : Nat} {items : List Value} (held : d.items node = .ok items) (r : Ref)
    (side : Side) : ∃ d' c, d.insertElement node (side.index items.length) (.ref r) = .ok (d', c) ∧
      d'.items node = .ok (side.put (.ref r) items) := by
  obtain ⟨n, there, -⟩ := itemsOk.mp held
  have inside := Nat.not_lt.mpr (side.indexInside items)
  refine ⟨d.setData node (.array (side.put (.ref r) items)),
    ⟨node, some (.ref r), .element (side.index items.length) none⟩, ?_,
    itemsOk.mpr ⟨{ n with data := .array (side.put (.ref r) items) }, ?_, rfl⟩⟩
  · simp only [insertElement, held, bind, Except.bind, if_neg inside, store]
    rw [← side.putAt]
    rfl
  · rw [setDataNode, there, Option.map_some, if_pos rfl]

theorem insertedEntry (dict : d.kind page = .ok .dict) (sound : d.Sound) {node index : Nat}
    {items : List Value} (held : d.items node = .ok items) {r : Ref}
    (ok : d.insertElement node index (.ref r) = .ok (d', c)) (key : String) :
    d'.property? page key = d.property? page key := by
  have revised := (insertHarmless sound ok).changed.toRevised
  refine revisedProperty revised dict (fun same => ?_) key
  rw [Option.some.inj same, insertElementNode ok, itemsKind held] at dict
  cases dict

theorem listedOthers (sound : d.Sound) (dict : d.kind page = .ok .dict) {r : Ref} {side : Side}
    (ok : listed d page r side = .ok (d', c)) {key : String} (other : key ≠ contents) :
    d'.property? page key = d.property? page key := by
  obtain ⟨-, ok⟩ | ⟨-, -, -, ok⟩ | ⟨-, -, held, ok⟩ := listedExact.mp ok
  · exact (setPropertyEntries sound dict (by trivial) ok).2 key other
  · exact (setPropertyEntries sound dict (keyedRefs _) ok).2 key other
  · exact insertedEntry dict sound held ok key

theorem listedObjects {r : Ref} {side : Side} (ok : listed d page r side = .ok (d', c)) :
    d'.objects = d.objects := by
  obtain ⟨-, ok⟩ | ⟨-, -, -, ok⟩ | ⟨-, -, -, ok⟩ := listedExact.mp ok
  · exact setPropertyObjects ok
  · exact setPropertyObjects ok
  · exact insertElementObjects ok

theorem listedNodes (sound : d.Sound) (dict : d.kind page = .ok .dict) {bs : List Backing}
    (names : contentNodes d page = .ok (bs.map Backing.node)) (holds : ∀ b ∈ bs, b.Holds d)
    {b : Backing} (new : b.Holds d) (side : Side) : ∃ d' c, listed d page b.ref side = .ok (d', c) ∧
      contentNodes d' page = .ok ((side.put b bs).map Backing.node) := by
  obtain ⟨bare, none⟩ | ⟨v, node, found, resolved, lists⟩ := contentNodesExact.mp names
  · obtain ⟨d', c, ok⟩ := setPropertyThere dict contents (.ref b.ref)
    obtain rfl := List.map_eq_nil_iff.mp none
    have changed := (setPropertyChanged sound (by trivial) ok).1
    have resolved : d'.resolve (.ref b.ref) = .ok (some b.node) :=
      mapOk.mpr ⟨_, changed.indirect new.2, rfl⟩
    have stream := changed.kind (ContentStream.resolveOk.mp new.1).1
    refine ⟨d', c, listedExact.mpr (.absent bare ok), contentNodesExact.mpr (.inr
      ⟨_, _, entrySet sound dict ok, resolved, .inl ⟨stream, ?_⟩⟩)⟩
    cases side <;> rfl
  · obtain ⟨stream, one⟩ | ⟨kind, vs, items, each⟩ := lists
    · obtain ⟨old, rfl, rfl⟩ := List.map_eq_singleton_iff.mp one
      have holds' := holds old (List.mem_singleton_self old)
      obtain ⟨n, there, held⟩ := propertyHeld found
      obtain ⟨rfl, -⟩ := sound.backed there held resolved holds'.1
      obtain ⟨d', c, ok, left⟩ := arrayNodes dict (side.put b [old]) fun x member => by
        obtain rfl | there := side.memberPut.mp member
        · exact new.2
        · exact (holds x there).2
      rw [side.mapPut] at ok
      exact ⟨d', c, listedExact.mpr (.alone found holds'.2 stream ok), left⟩
    · obtain ⟨d', c, ok, items'⟩ := insertedItems items b.ref side
      have changed := (insertHarmless sound ok).changed
      refine ⟨d', c, listedExact.mpr (.array found resolved items ok), contentNodesExact.mpr (.inr
        ⟨v, node, (insertedEntry dict sound items ok contents).trans found, changed.resolve resolved,
          .inr ⟨changed.kind kind, _, items', ?_⟩⟩)⟩
      have first : d'.resolve (.ref b.ref) = .ok (some b.node) :=
        mapOk.mpr ⟨_, changed.indirect new.2, rfl⟩
      rw [side.mapPut, side.mapPut, side.mapPut, changed.resolveAll each, first]

end Page

end PageContent
