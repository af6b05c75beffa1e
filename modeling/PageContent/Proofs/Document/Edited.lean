import PageContent.Proofs.Document.Changed
import PageContent.Proofs.Document.Forest

/-! A document gives back what is stored in it, and an edit shows only in what contains the
container that was edited. -/
namespace PageContent

theorem Dict.setSubperm {α : Type} (key : String) (value : α) (d : Dict α) :
    ((set key value d).map Prod.snd).Subperm (d.map Prod.snd ++ [value]) := by
  induction d with
  | nil => exact List.Subperm.refl _
  | cons entry rest ih =>
    obtain ⟨k, v⟩ := entry
    by_cases same : k = key
    · rw [set, if_pos same]
      exact ((List.perm_append_singleton value _).symm.subperm).trans
        (List.sublist_cons_self v _).subperm
    · rw [set, if_neg same]
      exact (List.subperm_cons v).mpr ih

theorem NodeData.withSubperm {data : NodeData} {es es' : Dict Value} {vs : List Value}
    (found : data.entries? = some es)
    (fewer : (es'.map Prod.snd).Subperm (es.map Prod.snd ++ vs)) :
    (data.withEntries es').values.Subperm (data.values ++ vs) := by
  rw [valuesEntries (withSelf found es'), valuesEntries found]
  exact fewer

namespace Document

inductive Edit where
  | addDirect (o : Object)
  | addIndirect (o : Object)
  | setProperty (id : Nat) (key : String) (o : Object)
  | delProperty (id : Nat) (key : String)
  | insertElement (id index : Nat) (o : Object)
  | removeElement (id index : Nat)
  | setStreamData (id : Nat) (data : Bytes)

def Edit.target? : Edit → Option Nat
  | .addDirect _ | .addIndirect _ => none
  | .setProperty id _ _ | .delProperty id _ | .insertElement id _ _ | .removeElement id _
  | .setStreamData id _ => some id

def orSame (d : Document) : Except Fault (Document × Change) → Document
  | .ok (d', _) => d'
  | .error _ => d

def after (d : Document) : Edit → Document
  | .addDirect o => (d.addDirect o).1
  | .addIndirect o => (d.addIndirect o).1
  | .setProperty id key o => d.orSame (d.setProperty id key o)
  | .delProperty id key => d.orSame (d.delProperty id key)
  | .insertElement id index o => d.orSame (d.insertElement id index o)
  | .removeElement id index => d.orSame (d.removeElement id index)
  | .setStreamData id data => d.orSame (d.setStreamData id data)

inductive Edited (d d' : Document) (target : Option Nat) (vs : List Value) (os : List Object) : Prop
    where
  | beside {added : List NodeData} (planted : Planted d.containers added vs os)
    (containers : d'.containers = d.containers ++ added)
    (objects : ∃ rest, d'.objects.toList ++ rest = d.objects.toList ++ vs)
  | within {id : Nat} {data data' : NodeData} {added : List NodeData} (here : target = some id)
    (planted : Planted d.containers added vs os) (there : d.containers[id]? = some data)
    (fewer : data'.values.Subperm (data.values ++ vs))
    (containers : d'.containers = (d.containers ++ added).set id data')
    (objects : d'.objects = d.objects)

def Forested (d : Document) : Prop := ∃ rank, Forest d.containers d.objects.toList rank

namespace Edited
variable {d d' : Document} {target : Option Nat} {vs : List Value} {os : List Object}

theorem same (d : Document) (target : Option Nat) : Edited d d target [] [] :=
  .beside (.flat rfl .nil) (List.append_nil _).symm ⟨[], rfl⟩

theorem forested (edited : Edited d d' target vs os) (forested : d.Forested) : d'.Forested := by
  obtain ⟨rank, forest⟩ := forested
  cases edited with
  | beside planted containers objects =>
    obtain ⟨rest, objects⟩ := objects
    have grown := forest.planted planted
    rw [← containers, ← objects] at grown
    exact ⟨_, grown.fewer⟩
  | @within id data data' added here planted there fewer containers objects =>
    have inside := (List.getElem?_eq_some_iff.mp there).1
    have there' : (d.containers ++ added)[id]? = some data := by
      rw [List.getElem?_append_left inside]
      exact there
    have moved := (forest.planted planted).moved there' fewer fun m => planted.under rank inside
    rw [← containers, ← objects] at moved
    exact ⟨_, moved⟩

theorem kept (edited : Edited d d' target vs os) {v : Value} {o : Object}
    (copied : Copied d.containers v o)
    (apart : ∀ i, target = some i → ¬ Contains d.containers v i) : Copied d'.containers v o := by
  cases edited with
  | beside planted containers objects =>
    rw [containers]
    exact copied.behind _
  | @within id data data' added here planted there fewer containers objects =>
    have inside := (List.getElem?_eq_some_iff.mp there).1
    rw [containers, List.set_append_left _ _ inside]
    exact (copied.elsewhere (apart id here) data').behind added

theorem stored (edited : Edited d d' target vs os) (forested : d.Forested) :
    List.Forall₂ (Copied d'.containers) vs os := by
  obtain ⟨rank, forest⟩ := forested
  cases edited with
  | beside planted containers objects =>
    rw [containers]
    exact planted.copied
  | @within id data data' added here planted there fewer containers objects =>
    have old := (List.getElem?_eq_some_iff.mp there).1
    have grown := forest.planted planted
    -- what is new is lower than what was there, and so does not contain it
    have apart : ∀ v ∈ vs, ¬ Contains (d.containers ++ added) v id := by
      rintro v member ⟨m, rfl, reaches⟩
      have above := (grown.reached reaches).1
      have under := planted.under rank old member
      omega
    rw [containers]
    exact ((List.forall₂_and_left _ _).mpr ⟨apart, planted.copied⟩).imp
      fun v o ⟨apart, copied⟩ => copied.elsewhere apart data'

end Edited

section
variable {d d' : Document} {id index : Nat} {key : String} {o : Object} {c : Change}

theorem entriesAt {es : Dict Value} : d.entries id = .ok es ↔
    ∃ data, d.containers[id]? = some data ∧ data.entries? = some es := by
  rw [entriesOk, containersAt]
  simp

theorem itemsAt {items : List Value} :
    d.items id = .ok items ↔ d.containers[id]? = some (.array items) := by
  rw [itemsOk, containersAt, Option.map_eq_some_iff]

theorem refilled {d₀ : Document} {data : NodeData} {added : List NodeData} {vs : List Value}
    {os : List Object} (there : d₀.containers[id]? = some data)
    (planted : Planted d₀.containers added vs os) (grown : d.containers = d₀.containers ++ added)
    (objects : d.objects = d₀.objects) (data' : NodeData)
    (fewer : data'.values.Subperm (data.values ++ vs)) :
    Edited d₀ (d.setData id data') (some id) vs os ∧
    (d.setData id data').containers[id]? = some data' := by
  have inside := (List.getElem?_eq_some_iff.mp there).1
  have containers := containersData d id data'
  rw [grown] at containers
  refine ⟨.within rfl planted there fewer containers objects, ?_⟩
  rw [containers, List.getElem?_set_self]
  rw [List.length_append]
  omega

theorem lessened {data : NodeData} (there : d.containers[id]? = some data) (data' : NodeData)
    (fewer : data'.values.Sublist data.values) : Edited d (d.setData id data') (some id) [] [] :=
  (refilled there (.flat rfl .nil) (List.append_nil _).symm rfl data'
    (by rw [List.append_nil]; exact fewer.subperm)).1

theorem planting (d : Document) (o : Object) : ∃ added,
    ({ d with nodes := (store d.nodes o).1 } : Document).containers = d.containers ++ added ∧
    Planted d.containers added [(store d.nodes o).2] [o] :=
  storePlanted d.nodes o

theorem setPropertyEdited (ok : d.setProperty id key o = .ok (d', c)) :
    ∃ v, Edited d d' (some id) [v] [o] ∧ d'.property? id key = .ok (some v) := by
  simp only [setProperty, bindOk, pureOk, nodeOk, entriesAt] at ok
  obtain ⟨n, node, es, ⟨data, there, found⟩, last⟩ := ok
  rw [containersAt, node] at there
  cases there
  cases last
  obtain ⟨added, grown, planted⟩ := planting d o
  have there : d.containers[id]? = some n.data := by rw [containersAt, node, Option.map_some]
  obtain ⟨edited, here⟩ := refilled there planted grown rfl _
    (NodeData.withSubperm found (Dict.setSubperm key _ es))
  exact ⟨_, edited, propertyOk.mpr ⟨_, entriesAt.mpr ⟨_, here, NodeData.withSelf found _⟩,
    Dict.get?_set_self _ _ _⟩⟩

theorem delPropertyEdited (ok : d.delProperty id key = .ok (d', c)) :
    Edited d d' (some id) [] [] := by
  simp only [delProperty, bindOk, nodeOk, entriesAt] at ok
  obtain ⟨n, node, es, ⟨data, there, found⟩, last⟩ := ok
  rw [containersAt, node] at there
  cases there
  split at last
  · cases last
  · cases last
    have there : d.containers[id]? = some n.data := by rw [containersAt, node, Option.map_some]
    refine lessened there _ ?_
    rw [NodeData.valuesEntries (NodeData.withSelf found _), NodeData.valuesEntries found]
    exact (Dict.eraseSublist key es).map Prod.snd

theorem insertElementEdited (ok : d.insertElement id index o = .ok (d', c)) :
    ∃ v, Edited d d' (some id) [v] [o] ∧ d'.element id index = .ok v := by
  simp only [insertElement, bindOk, itemsAt] at ok
  obtain ⟨items, there, last⟩ := ok
  split at last
  · cases last
  · rename_i inside
    cases last
    obtain ⟨added, grown, planted⟩ := planting d o
    have fewer : (items.take index ++ (store d.nodes o).2 :: items.drop index).Subperm
        (items ++ [(store d.nodes o).2]) := by
      refine (List.perm_middle.trans ?_).subperm
      rw [List.take_append_drop]
      exact (List.perm_append_singleton _ items).symm
    obtain ⟨edited, here⟩ := refilled there planted grown rfl (.array _) fewer
    refine ⟨_, edited, ?_⟩
    have front : (items.take index).length = index := by
      rw [List.length_take, Nat.min_eq_left (by omega)]
    simp only [element, itemsAt.mpr here, bind, Except.bind]
    rw [List.getElem?_append_right (Nat.le_of_eq front), front, Nat.sub_self]
    rfl

theorem removeElementEdited (ok : d.removeElement id index = .ok (d', c)) :
    Edited d d' (some id) [] [] := by
  simp only [removeElement, bindOk, itemsAt] at ok
  obtain ⟨items, there, last⟩ := ok
  split at last
  · cases last
  · cases last
    exact lessened there (.array _) (List.eraseIdx_sublist items index)

theorem setStreamDataEdited {data : Bytes} (ok : d.setStreamData id data = .ok (d', c)) :
    ∃ v o, Edited d d' (some id) [v] [o] := by
  simp only [setStreamData, bindOk, nodeOk] at ok
  obtain ⟨n, node, last⟩ := ok
  split at last
  · rename_i attrs raw stream
    cases last
    have there : d.containers[id]? = some (.stream attrs raw) := by
      rw [containersAt, node, Option.map_some, stream]
    exact ⟨_, _, (refilled there (.flat rfl (.cons (.scalar _) .nil)) (List.append_nil _).symm rfl
      (.stream _ data) (Dict.setSubperm "Length" _ attrs)).1⟩
  · cases last

theorem addDirectEdited (d : Document) (o : Object) : ∃ v,
    Edited d (d.addDirect o).1 none [v] [o] ∧ (d.addDirect o).2 = v.node? := by
  obtain ⟨added, same, planted⟩ := planting d o
  refine ⟨_, .beside planted same ⟨_, rfl⟩, ?_⟩
  simp only [addDirect]
  cases (store d.nodes o).2 <;> rfl

theorem addIndirectEdited (d : Document) (o : Object) : ∃ v,
    Edited d (d.addIndirect o).1 none [v] [o] ∧ (d.addIndirect o).1.objects = d.objects.push v := by
  obtain ⟨added, grown, planted⟩ := planting d o
  refine ⟨_, .beside planted (Eq.trans ?_ grown) ⟨[], ?_⟩, rfl⟩
  · refine List.ext_getElem? fun i => ?_
    simp only [containersAt, addIndirect]
    split
    · rw [Array.getElem?_modify]
      split
      · simp [Function.comp_def]
      · rfl
    · rfl
  · simp [addIndirect]

end

theorem afterEdited (d : Document) (e : Edit) : ∃ vs os, Edited d (d.after e) e.target? vs os := by
  have orSame : ∀ {target : Option Nat} {outcome : Except Fault (Document × Change)},
      (∀ d' c, outcome = .ok (d', c) → ∃ vs os, Edited d d' target vs os) →
      ∃ vs os, Edited d (d.orSame outcome) target vs os := by
    intro target outcome done
    cases outcome with
    | ok result => exact done result.1 result.2 rfl
    | error fault => exact ⟨[], [], .same d target⟩
  cases e with
  | addDirect o =>
    obtain ⟨v, edited, -⟩ := addDirectEdited d o
    exact ⟨_, _, edited⟩
  | addIndirect o =>
    obtain ⟨v, edited, -⟩ := addIndirectEdited d o
    exact ⟨_, _, edited⟩
  | setProperty id key o =>
    refine orSame fun d' c ok => ?_
    obtain ⟨v, edited, -⟩ := setPropertyEdited ok
    exact ⟨_, _, edited⟩
  | delProperty id key => exact orSame fun d' c ok => ⟨_, _, delPropertyEdited ok⟩
  | insertElement id index o =>
    refine orSame fun d' c ok => ?_
    obtain ⟨v, edited, -⟩ := insertElementEdited ok
    exact ⟨_, _, edited⟩
  | removeElement id index => exact orSame fun d' c ok => ⟨_, _, removeElementEdited ok⟩
  | setStreamData id data =>
    refine orSame fun d' c ok => ?_
    obtain ⟨v, o, edited⟩ := setStreamDataEdited ok
    exact ⟨_, _, edited⟩

end Document

end PageContent
