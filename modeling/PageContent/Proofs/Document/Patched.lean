import PageContent.Proofs.Document.Edited

/-! What a change tells of the container that was changed: whoever has a copy of a dictionary or an
array can make the same change to it, and finds in it what the change says was there. -/
namespace PageContent

theorem insertedAt {α : Type} {items : List α} {index : Nat} (inside : index ≤ items.length) (a : α) :
    items.take index ++ a :: items.drop index = items.insertIdx index a := by
  induction items generalizing index with
  | nil =>
    obtain rfl := Nat.le_zero.mp inside
    rfl
  | cons first rest ih =>
    cases index with
    | zero => rfl
    | succ index => simp [ih (Nat.le_of_succ_le_succ inside)]

namespace NodeData

def patched (data : NodeData) (c : Change) : NodeData :=
  match data, c.kind, c.value with
  | dict entries, .entry key _, some v => dict (entries.set key v)
  | dict entries, .entry key _, none => dict (entries.erase key)
  | array items, .element index _, some v => array (items.insertIdx index v)
  | array items, .element index _, none => array (items.eraseIdx index)
  | data, _, _ => data

inductive Admits : NodeData → Change → Prop where
  | set (entries : Dict Value) (n : Nat) (key : String) (v : Value) :
      Admits (dict entries) ⟨n, some v, .entry key (entries.get? key)⟩
  | deleted {entries : Dict Value} (n : Nat) {key : String} {old : Value}
      (there : entries.get? key = some old) : Admits (dict entries) ⟨n, none, .entry key (some old)⟩
  | inserted {items : List Value} (n : Nat) {index : Nat} (v : Value)
      (inside : index ≤ items.length) : Admits (array items) ⟨n, some v, .element index none⟩
  | removed {items : List Value} (n : Nat) {index : Nat} {old : Value}
      (there : items[index]? = some old) :
      Admits (array items) ⟨n, none, .element index (some old)⟩

variable {data : NodeData} {entries : Dict Value}

theorem dictEntries (found : data.entries? = some entries) (plain : data.kind ≠ .stream) :
    data = dict entries := by
  cases data with
  | dict es => cases found; rfl
  | array items => cases found
  | stream es raw => exact absurd rfl plain

theorem patchedKind (data : NodeData) (c : Change) : (data.patched c).kind = data.kind := by
  unfold patched
  split <;> rfl

variable {first last : NodeData} {told : List Change}

inductive Replays (first : NodeData) : List Change → NodeData → Prop where
  | untold : Replays first [] first
  | told {changes : List Change} {last : NodeData} {c : Change} (before : Replays first changes last)
      (admits : last.Admits c) : Replays first (changes ++ [c]) (last.patched c)

namespace Replays

theorem kind (replays : Replays first told last) : last.kind = first.kind := by
  induction replays with
  | untold => rfl
  | told before admits ih => exact (patchedKind _ _).trans ih

theorem copy (replays : Replays first told last) : told.foldl patched first = last := by
  induction replays with
  | untold => rfl
  | told before admits ih => rw [List.foldl_append, ih, List.foldl_cons, List.foldl_nil]

theorem admitted (replays : Replays first told last) {earlier later : List Change} {c : Change}
    (split : told = earlier ++ c :: later) : (earlier.foldl patched first).Admits c := by
  induction replays generalizing later with
  | untold => simp at split
  | @told changes last c' before admits ih =>
    obtain rfl | ⟨later, c'', rfl⟩ := List.eq_nil_or_concat later
    · obtain ⟨rfl, same⟩ := List.append_inj' split rfl
      cases same
      exact before.copy.symm ▸ admits
    · rw [List.concat_eq_append, ← List.cons_append, ← List.append_assoc] at split
      exact ih (List.append_inj' split rfl).1

end Replays

end NodeData

namespace Document

structure Patches (d d' : Document) (c : Change) : Prop where
  id : d'.id = d.id
  watches : d'.watches = d.watches
  others : ∀ i data, i ≠ c.node → d.containers[i]? = some data → d'.containers[i]? = some data
  own : ∀ data, d.containers[c.node]? = some data → data.kind ≠ .stream →
    data.Admits c ∧ d'.containers[c.node]? = some (data.patched c)

inductive Mutator : Nat → (Document → Except Fault (Document × Change)) → Prop where
  | setProperty (id : Nat) (key : String) (o : Object) : Mutator id (·.setProperty id key o)
  | delProperty (id : Nat) (key : String) : Mutator id (·.delProperty id key)
  | insertElement (id index : Nat) (o : Object) : Mutator id (·.insertElement id index o)
  | removeElement (id index : Nat) : Mutator id (·.removeElement id index)
  | setStreamData (id : Nat) (data : Bytes) : Mutator id (·.setStreamData id data)

structure Grown (d d' : Document) : Prop where
  id : d'.id = d.id
  watches : d'.watches = d.watches
  containers : ∃ added, d'.containers = d.containers ++ added

variable {d d' : Document} {id index : Nat} {key : String} {o : Object} {c : Change}

theorem Grown.kept (grown : Grown d d') {i : Nat} {data : NodeData}
    (there : d.containers[i]? = some data) : d'.containers[i]? = some data := by
  obtain ⟨added, same⟩ := grown.containers
  rw [same, List.getElem?_append_left (List.getElem?_eq_some_iff.mp there).1, there]

theorem storing (d : Document) (o : Object) : Grown d { d with nodes := (store d.nodes o).1 } := by
  obtain ⟨added, same, -⟩ := planting d o
  exact ⟨rfl, rfl, added, same⟩

theorem addDirectGrown (d : Document) (o : Object) : Grown d (d.addDirect o).1 := storing d o

theorem addIndirectGrown (d : Document) (o : Object) : Grown d (d.addIndirect o).1 := by
  obtain ⟨v, edited, -⟩ := addIndirectEdited d o
  cases edited with
  | beside _ containers _ => exact ⟨rfl, rfl, _, containers⟩
  | within here => cases here

theorem Grown.refl (d : Document) : Grown d d := ⟨rfl, rfl, [], (List.append_nil _).symm⟩

theorem Grown.patches {d₀ : Document} (grown : Grown d₀ d) {data data' : NodeData}
    (there : d₀.containers[id]? = some data) (here : c.node = id)
    (fits : data.kind ≠ .stream → data.Admits c ∧ data.patched c = data') :
    Patches d₀ (d.setData id data') c := by
  subst here
  have inside := (List.getElem?_eq_some_iff.mp (grown.kept there)).1
  refine ⟨grown.id, grown.watches, fun i kept other found => ?_, fun own found plain => ?_⟩
  · rw [containersData, List.getElem?_set_ne (Ne.symm other)]
    exact grown.kept found
  · cases there.symm.trans found
    obtain ⟨admits, rfl⟩ := fits plain
    refine ⟨admits, ?_⟩
    rw [containersData, List.getElem?_set_self inside]

theorem setPropertyPatches (ok : d.setProperty id key o = .ok (d', c)) : Patches d d' c := by
  simp only [setProperty, bindOk, pureOk, nodeOk, entriesOk] at ok
  obtain ⟨n, node, es, ⟨n', node', found⟩, last⟩ := ok
  cases node.symm.trans node'
  cases last
  have there : d.containers[id]? = some n.data := by rw [containersAt, node, Option.map_some]
  refine (storing d o).patches there rfl fun plain => ?_
  rw [NodeData.dictEntries found plain]
  exact ⟨.set es id key _, rfl⟩

theorem delPropertyPatches (ok : d.delProperty id key = .ok (d', c)) : Patches d d' c := by
  simp only [delProperty, bindOk, nodeOk, entriesOk] at ok
  obtain ⟨n, node, es, ⟨n', node', found⟩, last⟩ := ok
  cases node.symm.trans node'
  split at last
  · cases last
  · rename_i old held
    cases last
    have there : d.containers[id]? = some n.data := by rw [containersAt, node, Option.map_some]
    refine (Grown.refl d).patches there rfl fun plain => ?_
    rw [NodeData.dictEntries found plain]
    exact ⟨.deleted id held, rfl⟩

theorem insertElementPatches (ok : d.insertElement id index o = .ok (d', c)) : Patches d d' c := by
  simp only [insertElement, bindOk, itemsAt] at ok
  obtain ⟨items, there, last⟩ := ok
  split at last
  · cases last
  · rename_i inside
    have inside := Nat.not_lt.mp inside
    cases last
    refine (storing d o).patches there rfl fun _ => ⟨.inserted id _ inside, ?_⟩
    exact congrArg NodeData.array (insertedAt inside _).symm

theorem removeElementPatches (ok : d.removeElement id index = .ok (d', c)) : Patches d d' c := by
  simp only [removeElement, bindOk, itemsAt] at ok
  obtain ⟨items, there, last⟩ := ok
  split at last
  · cases last
  · rename_i old held
    cases last
    exact (Grown.refl d).patches there rfl fun _ => ⟨.removed id held, rfl⟩

theorem setStreamDataExact {data : Bytes} (ok : d.setStreamData id data = .ok (d', c)) :
    ∃ attrs raw, d.containers[id]? = some (.stream attrs raw) ∧ c = ⟨id, some (.node id), .payload⟩ ∧
      ∃ data', d' = d.setData id data' := by
  simp only [setStreamData, bindOk, nodeOk] at ok
  obtain ⟨n, node, last⟩ := ok
  split at last
  · rename_i attrs raw stream
    cases last
    refine ⟨attrs, raw, ?_, rfl, _, rfl⟩
    rw [containersAt, node, Option.map_some, stream]
  · cases last

namespace Mutator
variable {f : Document → Except Fault (Document × Change)}

-- The length of a payload is an entry that changes untold, but only in a stream.
theorem patches (mutator : Mutator id f) (ok : f d = .ok (d', c)) : Patches d d' c := by
  cases mutator with
  | setProperty key o => exact setPropertyPatches ok
  | delProperty key => exact delPropertyPatches ok
  | insertElement index o => exact insertElementPatches ok
  | removeElement index => exact removeElementPatches ok
  | setStreamData data =>
    obtain ⟨attrs, raw, there, rfl, data', rfl⟩ := setStreamDataExact ok
    exact (Grown.refl d).patches there rfl fun plain => absurd rfl plain

theorem node (mutator : Mutator id f) (ok : f d = .ok (d', c)) : c.node = id := by
  cases mutator with
  | setProperty key o => exact setPropertyNode ok
  | delProperty key => exact delPropertyNode ok
  | insertElement index o => exact insertElementNode ok
  | removeElement index => exact removeElementNode ok
  | setStreamData data =>
    obtain ⟨-, -, -, rfl, -⟩ := setStreamDataExact ok
    rfl

end Mutator

end Document

end PageContent
