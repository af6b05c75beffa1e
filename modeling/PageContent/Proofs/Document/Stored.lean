import PageContent.Document
import PageContent.Proofs.Dict

/-! What storing a value adds to the containers of a document. -/
namespace PageContent

def NodeData.values : NodeData → List Value
  | .dict entries | .stream entries _ => entries.map Prod.snd
  | .array items => items

mutual

def Object.Keyed : Object → Prop
  | .scalar _ | .ref _ => True
  | .array items => KeyedItems items
  | .dict entries | .stream entries _ => (entries.map Prod.fst).Nodup ∧ KeyedEntries entries

def Object.KeyedItems : List Object → Prop
  | [] => True
  | o :: rest => o.Keyed ∧ KeyedItems rest

def Object.KeyedEntries : List (String × Object) → Prop
  | [] => True
  | (_, o) :: rest => o.Keyed ∧ KeyedEntries rest

end

theorem keyedData (data : Bytes) : (Object.ofData data).Keyed := by
  simp [Object.ofData, Object.Keyed, Object.KeyedEntries]

structure Stored (nodes nodes' : Array Node) : Prop where
  size : nodes.size ≤ nodes'.size
  kept : ∀ i < nodes.size, nodes'[i]? = nodes[i]?
  direct : ∀ i n, nodes.size ≤ i → nodes'[i]? = some n → n.ref = none
  below : ∀ i n, nodes.size ≤ i → nodes'[i]? = some n → ∀ m, .node m ∈ n.data.values →
    nodes.size ≤ m ∧ m < i
  keyed : ∀ i n es, nodes.size ≤ i → nodes'[i]? = some n → n.data.entries? = some es → es.Distinct

namespace Stored

theorem refl (nodes : Array Node) : Stored nodes nodes where
  size := Nat.le_refl _
  kept _ _ := rfl
  direct i n after there := by
    rw [Array.getElem?_eq_none after] at there
    cases there
  below i n after there := by
    rw [Array.getElem?_eq_none after] at there
    cases there
  keyed i n es after there := by
    rw [Array.getElem?_eq_none after] at there
    cases there

theorem trans {a b c : Array Node} (first : Stored a b) (later : Stored b c) : Stored a c where
  size := Nat.le_trans first.size later.size
  kept i before := (later.kept i (Nat.lt_of_lt_of_le before first.size)).trans (first.kept i before)
  direct i n after there := by
    by_cases old : i < b.size
    · rw [later.kept i old] at there
      exact first.direct i n after there
    · exact later.direct i n (Nat.not_lt.mp old) there
  below i n after there m held := by
    by_cases old : i < b.size
    · rw [later.kept i old] at there
      exact first.below i n after there m held
    · obtain ⟨low, high⟩ := later.below i n (Nat.not_lt.mp old) there m held
      exact ⟨Nat.le_trans first.size low, high⟩
  keyed i n es after there entries := by
    by_cases old : i < b.size
    · rw [later.kept i old] at there
      exact first.keyed i n es after there entries
    · exact later.keyed i n es (Nat.not_lt.mp old) there entries

theorem push {a b : Array Node} (stored : Stored a b) {data : NodeData}
    (held : ∀ m, .node m ∈ data.values → a.size ≤ m ∧ m < b.size)
    (keyed : ∀ es, data.entries? = some es → es.Distinct) :
    Stored a (b.push ⟨data, none⟩) where
  size := by
    rw [Array.size_push]
    exact Nat.le_succ_of_le stored.size
  kept i before := by
    rw [Array.getElem?_push_lt (Nat.lt_of_lt_of_le before stored.size),
      ← Array.getElem?_eq_getElem (Nat.lt_of_lt_of_le before stored.size)]
    exact stored.kept i before
  direct i n after there := by
    rw [Array.getElem?_push] at there
    split at there
    · cases there
      rfl
    · exact stored.direct i n after there
  below i n after there m member := by
    rw [Array.getElem?_push] at there
    split at there
    · rename_i last
      cases there
      rw [last]
      exact held m member
    · exact stored.below i n after there m member
  keyed i n es after there entries := by
    rw [Array.getElem?_push] at there
    split at there
    · cases there
      exact keyed es entries
    · exact stored.keyed i n es after there entries

end Stored

theorem storeKeys (nodes : Array Node) (entries : List (String × Object)) :
    (storeEntries nodes entries).2.map Prod.fst = entries.map Prod.fst := by
  induction entries generalizing nodes with
  | nil => rfl
  | cons entry rest ih => simp only [storeEntries, List.map_cons, ih]

mutual

theorem storeStored (nodes : Array Node) (o : Object) (keyed : o.Keyed) : Stored nodes (store nodes o).1 ∧
    ∀ m, (store nodes o).2 = .node m → nodes.size ≤ m ∧ m + 1 = (store nodes o).1.size := by
  cases o with
  | scalar s => exact ⟨.refl _, fun m same => by cases same⟩
  | ref r => exact ⟨.refl _, fun m same => by cases same⟩
  | array items =>
    obtain ⟨stored, held⟩ := storeItemsStored nodes items keyed
    refine ⟨stored.push held (fun _ absent => by cases absent), fun m same => ?_⟩
    cases same
    exact ⟨stored.size, by simp [store]⟩
  | dict entries =>
    obtain ⟨stored, held⟩ := storeEntriesStored nodes entries keyed.2
    have distinct : (storeEntries nodes entries).2.Distinct := by
      rw [Dict.Distinct, storeKeys]
      exact keyed.1
    refine ⟨stored.push held fun es same => ?_, fun m same => ?_⟩
    · cases same
      exact distinct
    cases same
    exact ⟨stored.size, by simp [store]⟩
  | stream attrs data =>
    obtain ⟨stored, held⟩ := storeEntriesStored nodes attrs keyed.2
    have distinct : (storeEntries nodes attrs).2.Distinct := by
      rw [Dict.Distinct, storeKeys]
      exact keyed.1
    refine ⟨stored.push held fun es same => ?_, fun m same => ?_⟩
    · cases same
      exact distinct
    cases same
    exact ⟨stored.size, by simp [store]⟩

theorem storeItemsStored (nodes : Array Node) (items : List Object)
    (keyed : Object.KeyedItems items) :
    Stored nodes (storeItems nodes items).1 ∧ ∀ m, .node m ∈ (storeItems nodes items).2 →
      nodes.size ≤ m ∧ m < (storeItems nodes items).1.size := by
  cases items with
  | nil => exact ⟨.refl _, fun m member => by cases member⟩
  | cons o rest =>
    obtain ⟨first, top⟩ := storeStored nodes o keyed.1
    obtain ⟨later, held⟩ := storeItemsStored (store nodes o).1 rest keyed.2
    refine ⟨first.trans later, fun m member => ?_⟩
    obtain same | after := List.mem_cons.mp member
    · obtain ⟨low, high⟩ := top m same.symm
      have size := later.size
      simp only [storeItems]
      omega
    · obtain ⟨low, high⟩ := held m after
      exact ⟨Nat.le_trans first.size low, high⟩

theorem storeEntriesStored (nodes : Array Node) (entries : List (String × Object))
    (keyed : Object.KeyedEntries entries) :
    Stored nodes (storeEntries nodes entries).1 ∧
    ∀ m, .node m ∈ (storeEntries nodes entries).2.map Prod.snd →
      nodes.size ≤ m ∧ m < (storeEntries nodes entries).1.size := by
  cases entries with
  | nil => exact ⟨.refl _, fun m member => by cases member⟩
  | cons entry rest =>
    obtain ⟨k, o⟩ := entry
    obtain ⟨first, top⟩ := storeStored nodes o keyed.1
    obtain ⟨later, held⟩ := storeEntriesStored (store nodes o).1 rest keyed.2
    refine ⟨first.trans later, fun m member => ?_⟩
    obtain same | after := List.mem_cons.mp member
    · obtain ⟨low, high⟩ := top m same.symm
      have size := later.size
      simp only [storeEntries]
      omega
    · obtain ⟨low, high⟩ := held m after
      exact ⟨Nat.le_trans first.size low, high⟩

end

theorem storeRefs (nodes : Array Node) (refs : List Ref) :
    storeItems nodes (refs.map .ref) = (nodes, refs.map .ref) := by
  induction refs with
  | nil => rfl
  | cons r rest ih => simp only [List.map_cons, storeItems, store, ih]

end PageContent
