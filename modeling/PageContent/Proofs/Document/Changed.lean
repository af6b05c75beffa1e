import PageContent.Proofs.Document.Revised

/-! What is told of a change is what was changed. -/
namespace PageContent

namespace NodeData

theorem valuesEntries {data : NodeData} {es : Dict Value} (h : data.entries? = some es) :
    data.values = es.map Prod.snd := by
  cases data with
  | dict entries => cases h; rfl
  | stream entries raw => cases h; rfl
  | array items => cases h

theorem withKind (data : NodeData) (es : Dict Value) : (data.withEntries es).kind = data.kind := by
  cases data <;> rfl

theorem withSelf {data : NodeData} {es : Dict Value} (h : data.entries? = some es) (es' : Dict Value) :
    (data.withEntries es').entries? = some es' := by
  cases data with
  | dict entries => rfl
  | stream entries raw => rfl
  | array items => cases h

theorem withPayload {data : NodeData} {es : Dict Value} {raw : Bytes}
    (h : data = .stream es raw) (es' : Dict Value) : data.withEntries es' = .stream es' raw := by
  subst h
  rfl

end NodeData

namespace Document

structure Changed (d d' : Document) (c : Change) : Prop extends Revised (some c.node) d d' where
  payloads : c.kind ≠ .payload → ∀ i data, d.streamData i = .ok data → d'.streamData i = .ok data
  entries : d.kind c.node = .ok .dict → ∃ key old, c.kind = .entry key old ∧
    d'.property? c.node key = .ok c.value ∧
    ∀ other, other ≠ key → d'.property? c.node other = d.property? c.node other

variable {d d' : Document} {id : Nat} {c : Change} {key : String} {o : Object}

theorem setPropertyNode (ok : d.setProperty id key o = .ok (d', c)) : c.node = id := by
  simp only [setProperty, bindOk, pureOk] at ok
  obtain ⟨n, -, es, -, last⟩ := ok
  cases last
  rfl

theorem delPropertyNode (ok : d.delProperty id key = .ok (d', c)) : c.node = id := by
  simp only [delProperty, bindOk] at ok
  obtain ⟨n, -, es, -, last⟩ := ok
  split at last
  · cases last
  · cases last
    rfl

theorem insertElementNode {index : Nat} (ok : d.insertElement id index o = .ok (d', c)) :
    c.node = id := by
  simp only [insertElement, bindOk] at ok
  obtain ⟨items, -, last⟩ := ok
  split at last
  · cases last
  · cases last
    rfl

theorem removeElementNode {index : Nat} (ok : d.removeElement id index = .ok (d', c)) :
    c.node = id := by
  simp only [removeElement, bindOk] at ok
  obtain ⟨items, -, last⟩ := ok
  split at last
  · cases last
  · cases last
    rfl

theorem setPropertyObjects (ok : d.setProperty id key o = .ok (d', c)) : d'.objects = d.objects := by
  simp only [setProperty, bindOk, pureOk] at ok
  obtain ⟨n, -, es, -, last⟩ := ok
  cases last
  rfl

theorem insertElementObjects {index : Nat} (ok : d.insertElement id index o = .ok (d', c)) :
    d'.objects = d.objects := by
  simp only [insertElement, bindOk] at ok
  obtain ⟨items, -, last⟩ := ok
  split at last
  · cases last
  · cases last
    rfl

theorem storedInner (keyed : o.Keyed) (there : id < d.nodes.size) {m : Nat}
    (value : (store d.nodes o).2 = .node m) : m ≠ id ∧ ∃ inner : Node,
    (store d.nodes o).1[m]? = some inner ∧ inner.ref = none := by
  obtain ⟨stored, top⟩ := storeStored d.nodes o keyed
  obtain ⟨low, high⟩ := top m value
  have found := Array.getElem?_eq_getElem (show m < (store d.nodes o).1.size by omega)
  exact ⟨by omega, _, found, stored.direct m _ low found⟩

theorem changedEntries (sound : d.Sound) {n : Node} {es es' : Dict Value} {key : String}
    {value old : Option Value} (there : d.nodes[id]? = some n) (found : n.data.entries? = some es)
    (distinct : es'.Distinct) (held : ∀ m, .node m ∈ es'.map Prod.snd → m ≠ id ∧ ∃ inner : Node,
      d.nodes[m]? = some inner ∧ inner.ref = none)
    (told : es'.get? key = value) (others : ∀ other, other ≠ key → es'.get? other = es.get? other) :
    Changed d (d.setData id (n.data.withEntries es')) ⟨id, value, .entry key old⟩ := by
  have fits := NodeData.withSelf found es'
  have revised := revisedData sound there (NodeData.withKind n.data es')
    (by rw [NodeData.valuesEntries fits]; exact held)
    (fun es same => by rw [fits] at same; exact Option.some.inj same ▸ distinct)
  have here : (d.setData id (n.data.withEntries es')).nodes[id]? =
      some { n with data := n.data.withEntries es' } := by
    simp [setDataNode, there]
  have entries' : (d.setData id (n.data.withEntries es')).entries id = .ok es' :=
    entriesOk.mpr ⟨_, here, fits⟩
  refine ⟨revised, fun _ i data payload => ?_, fun _ => ⟨key, old, rfl, ?_, fun other apart => ?_⟩⟩
  · obtain ⟨n', attrs, found', stream⟩ := streamDataOk.mp payload
    by_cases same : id = i
    · subst same
      rw [there] at found'
      cases found'
      exact streamDataOk.mpr ⟨_, es', here, NodeData.withPayload stream es'⟩
    · refine streamDataOk.mpr ⟨n', attrs, ?_, stream⟩
      rw [setDataNode, found', Option.map_some, if_neg same]
  · exact propertyOk.mpr ⟨es', entries', told⟩
  · have before : d.property? id other = .ok (es.get? other) :=
      propertyOk.mpr ⟨es, entriesOk.mpr ⟨n, there, found⟩, rfl⟩
    rw [before]
    exact propertyOk.mpr ⟨es', entries', others other apart⟩

theorem changedData (sound : d.Sound) {n : Node} {data : NodeData}
    (there : d.nodes[id]? = some n) (kind : data.kind = n.data.kind) (other : data.kind ≠ .dict)
    (held : ∀ m, .node m ∈ data.values → m ≠ id ∧ ∃ inner : Node,
      d.nodes[m]? = some inner ∧ inner.ref = none)
    (keyed : ∀ es, data.entries? = some es → es.Distinct) {value : Option Value}
    {told : ChangeKind} (payload : told ≠ .payload → data.kind = .array) :
    Changed d (d.setData id data) ⟨id, value, told⟩ := by
  refine ⟨revisedData sound there kind held keyed, fun quiet i raw ok => ?_, fun dict => ?_⟩
  · obtain ⟨n', attrs, found, stream⟩ := streamDataOk.mp ok
    refine streamDataOk.mpr ⟨n', attrs, ?_, stream⟩
    -- what was replaced is an array, which has no payload
    rw [setDataNode, found, Option.map_some, if_neg]
    intro same
    subst same
    rw [there] at found
    cases found
    rw [payload quiet, stream] at kind
    cases kind
  · obtain ⟨n', found, kind'⟩ := kindOk.mp dict
    rw [there] at found
    cases found
    exact absurd (kind.trans kind') other

theorem Changed.after {d₀ d d' : Document} {c : Change} (stored : Revised none d₀ d)
    (same : ∀ (i : Nat) (n : Node), d₀.nodes[i]? = some n → d.nodes[i]? = some n)
    (changed : Changed d d' c) : Changed d₀ d' c where
  toRevised := stored.trans changed.toRevised
  payloads quiet i data payload := by
    obtain ⟨n, attrs, found, stream⟩ := streamDataOk.mp payload
    exact changed.payloads quiet i data (streamDataOk.mpr ⟨n, attrs, same i n found, stream⟩)
  entries dict := by
    obtain ⟨n, found, kind⟩ := kindOk.mp dict
    obtain ⟨key, old, told, value, others⟩ := changed.entries (kindOk.mpr ⟨n, same _ n found, kind⟩)
    refine ⟨key, old, told, value, fun other apart => (others other apart).trans ?_⟩
    have node : d.node c.node = d₀.node c.node := by
      rw [nodeOk.mpr (same _ n found), nodeOk.mpr found]
    simp only [property?, Document.entries, node]

theorem storedSame (keyed : o.Keyed) (i : Nat) (n : Node)
    (there : d.nodes[i]? = some n) : (store d.nodes o).1[i]? = some n := by
  obtain ⟨inside, -⟩ := Array.getElem?_eq_some_iff.mp there
  exact ((storeStored d.nodes o keyed).1.kept i inside).trans there

theorem Sound.heldEntries (sound : d.Sound) {n : Node} {es : Dict Value}
    (there : d.nodes[id]? = some n) (found : n.data.entries? = some es) {m : Nat}
    (member : .node m ∈ es.map Prod.snd) : m ≠ id ∧ ∃ inner : Node,
    d.nodes[m]? = some inner ∧ inner.ref = none := by
  refine sound.values id n there m ?_
  rw [NodeData.valuesEntries found]
  exact member

theorem setPropertyChanged (sound : d.Sound) (keyed : o.Keyed)
    (ok : d.setProperty id key o = .ok (d', c)) : Changed d d' c ∧ c.kind ≠ .payload := by
  simp only [setProperty, bindOk, pureOk, nodeOk, entriesOk] at ok
  obtain ⟨n, there, es, ⟨n', there', found⟩, last⟩ := ok
  rw [there] at there'
  cases there'
  cases last
  have revised := revisedStored sound (storeStored d.nodes o keyed).1
  have there' := storedSame keyed id n there
  obtain ⟨inside, -⟩ := Array.getElem?_eq_some_iff.mp there
  refine ⟨Changed.after revised (storedSame keyed)
    (changedEntries revised.sound there' found ?_ ?_ ?_ ?_), fun same => by cases same⟩
  · exact Dict.setDistinct (sound.keyed id n es there found)
  · intro m member
    obtain ⟨⟨k, v⟩, entry, same⟩ := List.mem_map.mp member
    obtain new | old := Dict.setMember entry
    · cases new
      exact storedInner keyed inside same
    · exact revised.sound.heldEntries there' found (List.mem_map.mpr ⟨_, old, same⟩)
  · exact Dict.get?_set_self _ _ _
  · exact fun other apart => Dict.get?_set_of_ne (Ne.symm apart) _ _

theorem delPropertyChanged (sound : d.Sound)
    (ok : d.delProperty id key = .ok (d', c)) : Changed d d' c ∧ c.kind ≠ .payload := by
  simp only [delProperty, bindOk, nodeOk, entriesOk] at ok
  obtain ⟨n, there, es, ⟨n', there', found⟩, last⟩ := ok
  rw [there] at there'
  cases there'
  split at last
  · cases last
  · cases last
    have distinct := sound.keyed id n es there found
    have fewer := Dict.eraseSublist key es
    refine ⟨changedEntries sound there found ?_ ?_ ?_ ?_, fun same => by cases same⟩
    · exact distinct.sublist (fewer.map Prod.fst)
    · intro m member
      exact sound.heldEntries there found ((fewer.map Prod.snd).subset member)
    · exact Dict.getErase distinct
    · exact fun other apart => Dict.getEraseOther apart es

theorem insertElementChanged (sound : d.Sound) {index : Nat} (keyed : o.Keyed)
    (ok : d.insertElement id index o = .ok (d', c)) : Changed d d' c ∧ c.kind ≠ .payload := by
  simp only [insertElement, bindOk, itemsOk] at ok
  obtain ⟨items, ⟨n, there, array⟩, last⟩ := ok
  split at last
  · cases last
  · cases last
    have revised := revisedStored sound (storeStored d.nodes o keyed).1
    have there' := storedSame keyed id n there
    obtain ⟨inside, -⟩ := Array.getElem?_eq_some_iff.mp there
    refine ⟨Changed.after revised (storedSame keyed)
      (changedData revised.sound there' ?_ ?_ ?_ ?_ ?_), fun same => by cases same⟩
    · rw [array]
      rfl
    · exact fun same => by cases same
    · intro m member
      have split : .node m ∈ items ∨ .node m = (store d.nodes o).2 := by
        simp only [NodeData.values, List.mem_append, List.mem_cons] at member
        obtain before | here | after := member
        · exact .inl (List.mem_of_mem_take before)
        · exact .inr here
        · exact .inl (List.mem_of_mem_drop after)
      obtain old | new := split
      · exact revised.sound.values id n there' m (by rw [array]; exact old)
      · exact storedInner keyed inside new.symm
    · exact fun es same => by cases same
    · exact fun _ => rfl

theorem removeElementChanged (sound : d.Sound) {index : Nat}
    (ok : d.removeElement id index = .ok (d', c)) : Changed d d' c ∧ c.kind ≠ .payload := by
  simp only [removeElement, bindOk, itemsOk] at ok
  obtain ⟨items, ⟨n, there, array⟩, last⟩ := ok
  split at last
  · cases last
  · cases last
    refine ⟨changedData sound there ?_ ?_ ?_ ?_ ?_, fun same => by cases same⟩
    · rw [array]
      rfl
    · exact fun same => by cases same
    · intro m member
      exact sound.values id n there m (by rw [array]; exact List.mem_of_mem_eraseIdx member)
    · exact fun es same => by cases same
    · exact fun _ => rfl

theorem setStreamDataChanged (sound : d.Sound) {data : Bytes}
    (ok : d.setStreamData id data = .ok (d', c)) : Changed d d' c := by
  simp only [setStreamData, bindOk, nodeOk] at ok
  obtain ⟨n, there, last⟩ := ok
  split at last
  · rename_i attrs raw stream
    cases last
    have found : n.data.entries? = some attrs := by rw [stream]; rfl
    refine changedData sound there ?_ ?_ ?_ ?_ ?_
    · rw [stream]
      rfl
    · exact fun same => by cases same
    · intro m member
      obtain ⟨⟨k, v⟩, entry, same⟩ := List.mem_map.mp member
      obtain new | old := Dict.setMember entry
      · cases new
        cases same
      · exact sound.heldEntries there found (List.mem_map.mpr ⟨_, old, same⟩)
    · rintro es ⟨⟩
      exact Dict.setDistinct (sound.keyed id n attrs there found)
    · exact fun quiet => absurd rfl quiet
  · cases last

end Document

end PageContent
