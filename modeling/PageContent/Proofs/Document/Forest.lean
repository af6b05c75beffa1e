import PageContent.Proofs.Document.Copied
import Mathlib.Data.List.Perm.Subperm

/-! Containers as a forest: each is in one place at most and none is inside itself. Storing
an object plants a tree behind those that are there, which a container may then take. -/
namespace PageContent

def Value.node? : Value → Option Nat
  | .node id => some id
  | .ref _ | .scalar _ => none

def nodesOf (vs : List Value) : List Nat := vs.filterMap Value.node?

theorem nodeSome {v : Value} {m : Nat} : v.node? = some m ↔ v = .node m := by
  cases v <;> simp [Value.node?]

theorem nodesMember {vs : List Value} {m : Nat} : m ∈ nodesOf vs ↔ .node m ∈ vs := by
  simp [nodesOf, nodeSome]

@[simp] theorem nodesAppend (vs ws : List Value) : nodesOf (vs ++ ws) = nodesOf vs ++ nodesOf ws :=
  List.filterMap_append

theorem nodesSubperm {vs ws : List Value} (fewer : vs.Subperm ws) :
    (nodesOf vs).Subperm (nodesOf ws) := by
  obtain ⟨us, perm, sub⟩ := fewer
  exact ⟨nodesOf us, perm.filterMap _, sub.filterMap _⟩

theorem nodesApart (cs ds : List NodeData) (vs ws : List Value) :
    (nodesOf ((cs ++ ds).flatMap NodeData.values ++ (vs ++ ws))).Perm
      (nodesOf (cs.flatMap NodeData.values ++ vs) ++ nodesOf (ds.flatMap NodeData.values ++ ws)) := by
  simp only [List.flatMap_append, nodesAppend, List.append_assoc]
  refine List.Perm.append_left _ ?_
  rw [← List.append_assoc, ← List.append_assoc]
  exact List.Perm.append_right _ List.perm_append_comm

theorem copiedAll {containers : List NodeData} {vs : List Value}
    (each : ∀ v ∈ vs, ∃ o, Copied containers v o) : ∃ os, List.Forall₂ (Copied containers) vs os := by
  induction vs with
  | nil => exact ⟨[], .nil⟩
  | cons v rest ih =>
    obtain ⟨o, first⟩ := each v List.mem_cons_self
    obtain ⟨os, later⟩ := ih fun v member => each v (List.mem_cons_of_mem _ member)
    exact ⟨o :: os, .cons first later⟩

-- Ranks are fewer than containers, so as many steps as there are of these go through any of them.
structure Forest (containers : List NodeData) (loose : List Value) (rank : Nat → Nat) : Prop where
  once : (nodesOf (containers.flatMap NodeData.values ++ loose)).Subperm
    (List.range containers.length)
  bounded : ∀ i < containers.length, rank i < containers.length
  lower : ∀ i m, Holds containers i m → rank m < rank i

namespace Forest
variable {containers : List NodeData} {loose : List Value} {rank : Nat → Nat}

theorem empty : Forest [] [] id :=
  ⟨List.Subperm.refl _, fun _ inside => inside, fun _ _ ⟨_, there, _⟩ => by cases there⟩

theorem fewer {loose' : List Value} (forest : Forest containers (loose ++ loose') rank) :
    Forest containers loose rank where
  once := by
    refine List.Subperm.trans (List.Sublist.subperm ?_) forest.once
    rw [← List.append_assoc, nodesAppend _ loose']
    exact List.sublist_append_left _ _
  bounded := forest.bounded
  lower := forest.lower

theorem single (forest : Forest containers loose rank) :
    (nodesOf (containers.flatMap NodeData.values ++ loose)).Nodup := by
  obtain ⟨ids, perm, sub⟩ := forest.once
  exact perm.nodup_iff.mp (sub.nodup List.nodup_range)

theorem inside (forest : Forest containers loose rank) {m : Nat}
    (member : .node m ∈ containers.flatMap NodeData.values ++ loose) : m < containers.length :=
  List.mem_range.mp (forest.once.subset (nodesMember.mpr member))

theorem held (forest : Forest containers loose rank) {i m : Nat} (holds : Holds containers i m) :
    m < containers.length := by
  obtain ⟨data, there, member⟩ := holds
  refine forest.inside (List.mem_append_left _ (List.mem_flatMap.mpr ⟨data, ?_, member⟩))
  exact List.mem_of_getElem? there

theorem reached (forest : Forest containers loose rank) {i m : Nat}
    (reaches : Relation.ReflTransGen (Holds containers) i m) :
    rank m ≤ rank i ∧ (i < containers.length → m < containers.length) := by
  induction reaches with
  | refl => exact ⟨Nat.le_refl _, id⟩
  | tail _ holds ih =>
    have below := forest.lower _ _ holds
    exact ⟨by omega, fun _ => forest.held holds⟩

theorem acyclic (forest : Forest containers loose rank) (i : Nat) :
    ¬ Relation.TransGen (Holds containers) i i := by
  intro cycle
  obtain ⟨m, reaches, holds⟩ := Relation.TransGen.tail'_iff.mp cycle
  have above := (forest.reached reaches).1
  have below := forest.lower _ _ holds
  omega

theorem copied (forest : Forest containers loose rank) {i : Nat} (there : i < containers.length) :
    ∃ o, Copied containers (.node i) o := by
  induction height : rank i using Nat.strongRecOn generalizing i with
  | ind _ ih =>
    have found := List.getElem?_eq_getElem there
    have parts : ∀ v ∈ containers[i].values, ∃ o, Copied containers v o := by
      rintro (r | m | s) member
      · exact ⟨_, .ref r⟩
      · have holds : Holds containers i m := ⟨_, found, member⟩
        exact ih (rank m) (height ▸ forest.lower i m holds) (forest.held holds) rfl
      · exact ⟨_, .scalar s⟩
    obtain ⟨os, all⟩ := copiedAll parts
    exact ⟨_, .node found all⟩

end Forest

structure Planted (before added : List NodeData) (vs : List Value) (os : List Object) : Prop where
  once : (nodesOf (added.flatMap NodeData.values ++ vs)).Perm
    (List.range' before.length added.length)
  lower : ∀ k data, added[k]? = some data → ∀ m, .node m ∈ data.values → m < before.length + k
  copied : List.Forall₂ (Copied (before ++ added)) vs os

namespace Planted
variable {before added added' : List NodeData} {vs ws : List Value} {os ps : List Object}

theorem flat (none : nodesOf vs = []) (copied : List.Forall₂ (Copied before) vs os) :
    Planted before [] vs os where
  once := by simp [none]
  lower _ _ absent := by cases absent
  copied := by rwa [List.append_nil]

theorem fresh (planted : Planted before added vs os) {m : Nat}
    (member : .node m ∈ added.flatMap NodeData.values ++ vs) :
    before.length ≤ m ∧ m < before.length + added.length :=
  List.mem_range'_1.mp (planted.once.subset (nodesMember.mpr member))

theorem append (first : Planted before added vs os) (later : Planted (before ++ added) added' ws ps) :
    Planted before (added ++ added') (vs ++ ws) (os ++ ps) where
  once := by
    have both := first.once.append later.once
    rw [List.length_append, List.range'_append_1, ← List.length_append] at both
    exact (nodesApart _ _ _ _).trans both
  lower k data there m member := by
    rw [List.getElem?_append] at there
    split at there
    · exact first.lower k data there m member
    · have below := later.lower _ data there m member
      rw [List.length_append] at below
      omega
  copied := by
    rw [← List.append_assoc]
    exact List.rel_append (first.copied.imp fun v o copied => copied.behind added') later.copied

theorem push (planted : Planted before added vs os) (data : NodeData) (held : data.values = vs) :
    Planted before (added ++ [data]) [.node (before ++ added).length] [data.rebuilt os] where
  once := by
    have more := planted.once.append_right [(before ++ added).length]
    rw [List.length_append, ← List.range'_1_concat] at more
    subst held
    simpa [nodesOf, Value.node?] using more
  lower k data' there m member := by
    rw [List.getElem?_append] at there
    split at there
    · exact planted.lower k data' there m member
    · rw [List.getElem?_singleton] at there
      split at there
      · cases there
        have inner := planted.fresh (List.mem_append_right _ (held ▸ member))
        omega
      · cases there
  copied := by
    subst held
    have parts := planted.copied.imp fun v o copied => copied.behind [data]
    rw [← List.append_assoc]
    refine .cons (.node ?_ parts) .nil
    simp

end Planted

theorem rebuiltEntries {es : Dict Value} {entries : List (String × Object)}
    (keys : es.map Prod.fst = entries.map Prod.fst) :
    (es.map Prod.fst).zip (entries.map Prod.snd) = entries := by
  rw [keys]
  exact (List.zip_of_prod rfl rfl).symm

mutual

theorem storePlanted (nodes : Array Node) (o : Object) : ∃ added,
    dataOf (store nodes o).1 = dataOf nodes ++ added ∧
    Planted (dataOf nodes) added [(store nodes o).2] [o] := by
  cases o with
  | scalar s => exact ⟨[], (List.append_nil _).symm, .flat rfl (.cons (.scalar s) .nil)⟩
  | ref r => exact ⟨[], (List.append_nil _).symm, .flat rfl (.cons (.ref r) .nil)⟩
  | array items =>
    obtain ⟨added, same, planted⟩ := storeItemsPlanted nodes items
    have pushed := planted.push (.array _) rfl
    rw [← same, dataLength] at pushed
    exact ⟨_, by rw [store, dataPush, same, List.append_assoc], pushed⟩
  | dict entries =>
    obtain ⟨added, same, planted⟩ := storeEntriesPlanted nodes entries
    have pushed := planted.push (.dict _) rfl
    rw [← same, dataLength, NodeData.rebuilt, rebuiltEntries (storeKeys _ _)] at pushed
    exact ⟨_, by rw [store, dataPush, same, List.append_assoc], pushed⟩
  | stream entries data =>
    obtain ⟨added, same, planted⟩ := storeEntriesPlanted nodes entries
    have pushed := planted.push (.stream _ data) rfl
    rw [← same, dataLength, NodeData.rebuilt, rebuiltEntries (storeKeys _ _)] at pushed
    exact ⟨_, by rw [store, dataPush, same, List.append_assoc], pushed⟩

theorem storeItemsPlanted (nodes : Array Node) (items : List Object) : ∃ added,
    dataOf (storeItems nodes items).1 = dataOf nodes ++ added ∧
    Planted (dataOf nodes) added (storeItems nodes items).2 items := by
  cases items with
  | nil => exact ⟨[], (List.append_nil _).symm, .flat rfl .nil⟩
  | cons o rest =>
    obtain ⟨added, same, first⟩ := storePlanted nodes o
    obtain ⟨more, same', later⟩ := storeItemsPlanted (store nodes o).1 rest
    rw [same] at same' later
    exact ⟨_, same'.trans (List.append_assoc _ _ _), first.append later⟩

theorem storeEntriesPlanted (nodes : Array Node) (entries : List (String × Object)) : ∃ added,
    dataOf (storeEntries nodes entries).1 = dataOf nodes ++ added ∧
    Planted (dataOf nodes) added ((storeEntries nodes entries).2.map Prod.snd)
      (entries.map Prod.snd) := by
  cases entries with
  | nil => exact ⟨[], (List.append_nil _).symm, .flat rfl .nil⟩
  | cons entry rest =>
    obtain ⟨k, o⟩ := entry
    obtain ⟨added, same, first⟩ := storePlanted nodes o
    obtain ⟨more, same', later⟩ := storeEntriesPlanted (store nodes o).1 rest
    rw [same] at same' later
    exact ⟨_, same'.trans (List.append_assoc _ _ _), first.append later⟩

end

-- Those that were there rank above all that come, so that any of them may take what is new.
def lifted (before added : Nat) (rank : Nat → Nat) (i : Nat) : Nat :=
  if i < before then rank i + added else i - before

theorem Planted.under {before added : List NodeData} {vs : List Value} {os : List Object}
    (planted : Planted before added vs os) (rank : Nat → Nat) {id m : Nat} (old : id < before.length)
    (top : .node m ∈ vs) :
    lifted before.length added.length rank m < lifted before.length added.length rank id := by
  have inner := planted.fresh (List.mem_append_right _ top)
  rw [lifted, lifted, if_neg (by omega), if_pos old]
  omega

namespace Forest
variable {containers added : List NodeData} {loose vs : List Value} {os : List Object}
  {rank : Nat → Nat}

theorem planted (forest : Forest containers loose rank) (planted : Planted containers added vs os) :
    Forest (containers ++ added) (loose ++ vs) (lifted containers.length added.length rank) where
  once := by
    have whole : List.range (containers.length + added.length) =
        List.range containers.length ++ List.range' containers.length added.length := by
      rw [List.range_eq_range', List.range_eq_range', ← List.range'_append_1, Nat.zero_add]
    rw [List.length_append, whole]
    exact (nodesApart _ _ _ _).subperm.trans (forest.once.append planted.once.subperm)
  bounded i inside := by
    have bounded := forest.bounded i
    rw [List.length_append] at inside ⊢
    unfold lifted
    split <;> omega
  lower i m holds := by
    obtain ⟨data, there, member⟩ := holds
    unfold lifted
    rw [List.getElem?_append] at there
    split at there
    · rename_i old
      have holds : Holds containers i m := ⟨data, there, member⟩
      have below := forest.lower i m holds
      rw [if_pos old, if_pos (forest.held holds)]
      omega
    · rename_i fresh
      have below := planted.lower _ data there m member
      have inner := planted.fresh
        (List.mem_append_left _ (List.mem_flatMap.mpr ⟨data, List.mem_of_getElem? there, member⟩))
      rw [if_neg fresh, if_neg (by omega)]
      omega

theorem moved (forest : Forest containers (loose ++ vs) rank) {id : Nat} {data data' : NodeData}
    (there : containers[id]? = some data) (fewer : data'.values.Subperm (data.values ++ vs))
    (lower : ∀ m, .node m ∈ vs → rank m < rank id) :
    Forest (containers.set id data') loose rank where
  once := by
    rw [List.length_set]
    refine List.Subperm.trans (nodesSubperm ?_) forest.once
    obtain ⟨inside, rfl⟩ := List.getElem?_eq_some_iff.mp there
    obtain ⟨before, after, same, -, set⟩ := @List.exists_of_set _ id data' containers inside
    have flat := congrArg (List.flatMap NodeData.values) same
    rw [set, flat]
    rw [List.subperm_iff_count] at fewer ⊢
    intro v
    have fewer := fewer v
    simp only [List.flatMap_append, List.flatMap_cons, List.count_append] at fewer ⊢
    omega
  bounded i inside := by
    rw [List.length_set] at inside ⊢
    exact forest.bounded i inside
  lower i m holds := by
    obtain ⟨held, found, member⟩ := holds
    rw [List.getElem?_set] at found
    split at found
    · rename_i same
      subst same
      split at found
      · cases found
        obtain old | new := List.mem_append.mp (fewer.subset member)
        · exact forest.lower id m ⟨data, there, old⟩
        · exact lower m new
      · cases found
    · exact forest.lower i m ⟨held, found, member⟩

end Forest

end PageContent
