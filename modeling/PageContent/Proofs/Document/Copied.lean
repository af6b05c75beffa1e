import PageContent.Proofs.Document.Revised
import Mathlib.Data.List.Forall2
import Mathlib.Logic.Relation

/-! Taking a value out of a document, container by container: the walk itself, how far it
looks, and the number of steps that is enough for it. -/
namespace PageContent

namespace NodeData

def rebuilt : NodeData → List Object → Object
  | .array _, os => .array os
  | .dict entries, os => .dict ((entries.map Prod.fst).zip os)
  | .stream entries data, os => .stream ((entries.map Prod.fst).zip os) data

end NodeData

def dataOf (nodes : Array Node) : List NodeData := nodes.toList.map Node.data

theorem dataLength (nodes : Array Node) : (dataOf nodes).length = nodes.size := by
  rw [dataOf, List.length_map, Array.length_toList]

theorem dataPush (nodes : Array Node) (n : Node) :
    dataOf (nodes.push n) = dataOf nodes ++ [n.data] := by
  simp [dataOf]

def Document.containers (d : Document) : List NodeData := dataOf d.nodes

/-- The object a value stands for. A value that reaches a container that is not there, or
that is inside itself, stands for none. -/
inductive Copied (containers : List NodeData) : Value → Object → Prop where
  | scalar (s : Scalar) : Copied containers (.scalar s) (.scalar s)
  | ref (r : Ref) : Copied containers (.ref r) (.ref r)
  | node {id : Nat} {data : NodeData} {os : List Object} (there : containers[id]? = some data)
    (parts : List.Forall₂ (Copied containers) data.values os) :
    Copied containers (.node id) (data.rebuilt os)

def Holds (containers : List NodeData) (i m : Nat) : Prop :=
  ∃ data, containers[i]? = some data ∧ .node m ∈ data.values

def Contains (containers : List NodeData) (v : Value) (i : Nat) : Prop :=
  ∃ m, v = .node m ∧ Relation.ReflTransGen (Holds containers) m i

section
variable {containers containers' : List NodeData} {v : Value} {o : Object}

theorem Contains.part {data : NodeData} {id i : Nat} (there : containers[id]? = some data)
    (member : v ∈ data.values) (inside : Contains containers v i) :
    Contains containers (.node id) i := by
  obtain ⟨m, rfl, reaches⟩ := inside
  exact ⟨id, rfl, reaches.head ⟨data, there, member⟩⟩

-- The one that is generated has a motive for lists, which says nothing of its own.
theorem Copied.induct {motive : ∀ v o, Copied containers v o → Prop}
    (scalar : ∀ s, motive _ _ (.scalar s)) (ref : ∀ r, motive _ _ (.ref r))
    (node : ∀ (id : Nat) (data : NodeData) (os : List Object) (there : containers[id]? = some data)
      (parts : List.Forall₂ (Copied containers) data.values os),
      List.Forall₂ (fun v o => ∃ part, motive v o part) data.values os →
      motive _ _ (.node there parts))
    (copied : Copied containers v o) : motive v o copied :=
  @Copied.rec containers motive
    (fun vs os _ => List.Forall₂ (fun v o => ∃ part, motive v o part) vs os)
    scalar ref (node _ _ _) .nil (fun _ _ first rest => .cons ⟨_, first⟩ rest) v o copied

theorem Copied.kept (copied : Copied containers v o)
    (same : ∀ i data, Contains containers v i → containers[i]? = some data →
      containers'[i]? = some data) : Copied containers' v o := by
  induction copied using Copied.induct with
  | scalar s => exact .scalar s
  | ref r => exact .ref r
  | node id data os there parts ih =>
    refine .node (same id data ⟨id, rfl, .refl⟩ there) ?_
    have inner : ∀ v ∈ data.values, ∀ i data, Contains containers v i →
        containers[i]? = some data → containers'[i]? = some data :=
      fun v member i data inside => same i data (inside.part there member)
    exact ((List.forall₂_and_left _ _).mpr ⟨inner, ih⟩).imp fun v o ⟨inner, _, kept⟩ => kept inner

theorem Copied.behind (copied : Copied containers v o) (added : List NodeData) :
    Copied (containers ++ added) v o :=
  copied.kept fun i data _ there => by
    rw [List.getElem?_append_left (List.getElem?_eq_some_iff.mp there).1]
    exact there

theorem Copied.elsewhere (copied : Copied containers v o) {id : Nat}
    (apart : ¬ Contains containers v id) (data : NodeData) : Copied (containers.set id data) v o :=
  copied.kept fun i _ inside there => by
    have other : id ≠ i := by
      rintro rfl
      exact apart inside
    rw [List.getElem?_set_ne other]
    exact there

end

namespace Document
variable {d : Document}

theorem containersAt (d : Document) (i : Nat) : d.containers[i]? = d.nodes[i]?.map Node.data := by
  rw [containers, dataOf, List.getElem?_map, Array.getElem?_toList]

theorem containersLength (d : Document) : d.containers.length = d.nodes.size :=
  dataLength d.nodes

theorem containersData (d : Document) (id : Nat) (data : NodeData) :
    (d.setData id data).containers = d.containers.set id data := by
  refine List.ext_getElem? fun i => ?_
  rw [containersAt, setDataNode, List.getElem?_set, containersAt, containersLength]
  by_cases same : id = i
  · subst same
    by_cases inside : id < d.nodes.size
    · simp [inside]
    · simp [inside]
  · simp [same]

theorem copiesParts {f : Value → Except Fault Object} {vs : List Value} {os : List Object}
    (parts : List.Forall₂ (fun v o => f v = .ok o) vs os) : vs.mapM f = .ok os := by
  induction parts with
  | nil => rfl
  | cons first _ ih =>
    rw [List.mapM_cons, first, ih]
    rfl

theorem copiesEntries {f : Value → Except Fault Object} {es : Dict Value} {os : List Object}
    (parts : List.Forall₂ (fun v o => f v = .ok o) (es.map Prod.snd) os) :
    es.mapM (fun (k, v) => return (k, ← f v)) = .ok ((es.map Prod.fst).zip os) := by
  induction es generalizing os with
  | nil =>
    cases parts
    rfl
  | cons entry rest ih =>
    obtain ⟨k, v⟩ := entry
    cases parts with
    | cons first later =>
      change f v = _ at first
      simp only [List.mapM_cons, first, ih later]
      rfl

theorem copiesNode {fuel id : Nat} {data : NodeData} {os : List Object}
    (there : d.containers[id]? = some data)
    (parts : List.Forall₂ (fun v o => d.copyFrom fuel v = .ok o) data.values os) :
    d.copyFrom (fuel + 1) (.node id) = .ok (data.rebuilt os) := by
  rw [containersAt, Option.map_eq_some_iff] at there
  obtain ⟨n, there, rfl⟩ := there
  rw [copyFrom, nodeOk.mpr there]
  cases data : n.data with
  | array items =>
    rw [data] at parts
    have held : items.mapM (d.copyFrom fuel) = .ok os := copiesParts parts
    simp only [bind, Except.bind, data, held]
    rfl
  | dict entries =>
    rw [data] at parts
    have held := copiesEntries parts
    simp only [bind, Except.bind, data] at held ⊢
    rw [held]
    rfl
  | stream entries raw =>
    rw [data] at parts
    have held := copiesEntries parts
    simp only [bind, Except.bind, data] at held ⊢
    rw [held]
    rfl

theorem copiesRanked {rank : Nat → Nat} {v : Value} {o : Object}
    (lower : ∀ i m, Holds d.containers i m → rank m < rank i) (copied : Copied d.containers v o)
    {fuel : Nat} (enough : ∀ m, v = .node m → rank m < fuel) : d.copyFrom fuel v = .ok o := by
  induction copied using Copied.induct generalizing fuel with
  | scalar s => rw [copyFrom]
  | ref r => rw [copyFrom]
  | node id data os there parts ih =>
    obtain ⟨fuel, rfl⟩ := Nat.exists_eq_succ_of_ne_zero (Nat.ne_zero_of_lt (enough id rfl))
    have inner : ∀ v ∈ data.values, ∀ m, v = .node m → rank m < fuel := by
      rintro v member m rfl
      have below := lower id m ⟨data, there, member⟩
      have top := enough id rfl
      omega
    exact copiesNode there
      (((List.forall₂_and_left _ _).mpr ⟨inner, ih⟩).imp fun v o ⟨inner, _, copies⟩ => copies inner)

end Document

end PageContent
