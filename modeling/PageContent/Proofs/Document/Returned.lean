import PageContent.Proofs.Document.Edited

/-! What is stored in a document comes out of it again, through any edits of what does not
contain it. -/
namespace PageContent.Document

def afterAll (d : Document) (edits : List Edit) : Document := edits.foldl after d

def Stores (d : Document) (v : Value) : Prop :=
  (∃ id < d.nodes.size, v = .node id) ∨ (∃ data ∈ d.containers, v ∈ data.values) ∨ v ∈ d.objects

/-- Every stored value comes out, and whatever is stored next comes out as it went in. -/
structure Faithful (d : Document) : Prop where
  copies : ∀ v, d.Stores v → ∃ o, Copied d.containers v o ∧
    ∀ fuel, d.nodes.size ≤ fuel → d.copyFrom fuel v = .ok o
  present : ∀ v, d.Stores v → ∀ id, Contains d.containers v id → id < d.nodes.size
  acyclic : ∀ id, ¬ Relation.TransGen (Holds d.containers) id id
  once : (nodesOf (d.containers.flatMap NodeData.values ++ d.objects.toList)).Nodup
  direct : ∀ o id, (d.addDirect o).2 = some id → (d.addDirect o).1.copy (.node id) = .ok o
  flat : ∀ o, (d.addDirect o).2 = none ↔ o.kind ∉ [Kind.array, .dict, .stream]
  indirect : ∀ o, d.objects.size + 1 < UInt32.size → ∃ v,
    (d.addIndirect o).1.objects[(d.addIndirect o).2.num.toNat - 1]? = some v ∧
    (d.addIndirect o).1.copy v = .ok o ∧
    ∀ id, v = .node id → (d.addIndirect o).1.indirect (d.addIndirect o).2 = .ok id
  property : ∀ id key o d' c, d.setProperty id key o = .ok (d', c) →
    ∃ v, d'.property? id key = .ok (some v) ∧ d'.copy v = .ok o
  element : ∀ id index o d' c, d.insertElement id index o = .ok (d', c) →
    ∃ v, d'.element id index = .ok v ∧ d'.copy v = .ok o
  kept : ∀ e v, d.Stores v → (∀ id, e.target? = some id → ¬ Contains d.containers v id) →
    (d.after e).copy v = d.copy v

section
variable {d d' : Document} {v : Value} {o : Object}

theorem forestedAll (id : Nat) (edits : List Edit) : ((empty id).afterAll edits).Forested := by
  have step : ∀ (edits : List Edit) (d : Document), d.Forested → (d.afterAll edits).Forested := by
    intro edits
    induction edits with
    | nil => exact fun _ forested => forested
    | cons e rest ih =>
      intro d forested
      obtain ⟨vs, os, edited⟩ := afterEdited d e
      exact ih (d.after e) (edited.forested forested)
  exact step edits _ ⟨_, .empty⟩

theorem Forested.present (forested : d.Forested) (stores : d.Stores v) {m : Nat}
    (top : v = .node m) : m < d.containers.length := by
  obtain ⟨rank, forest⟩ := forested
  obtain ⟨id, inside, same⟩ | ⟨data, there, member⟩ | object := stores
  · cases same.symm.trans top
    rw [containersLength]
    exact inside
  · subst top
    exact forest.inside (List.mem_append_left _ (List.mem_flatMap.mpr ⟨data, there, member⟩))
  · subst top
    exact forest.inside (List.mem_append_right _ (Array.mem_toList_iff.mpr object))

theorem Forested.returns (forested : d.Forested) (copied : Copied d.containers v o) {fuel : Nat}
    (enough : d.nodes.size ≤ fuel) : d.copyFrom fuel v = .ok o := by
  obtain ⟨rank, forest⟩ := forested
  refine copiesRanked forest.lower copied ?_
  rintro m rfl
  cases copied with
  | node there parts =>
    have below := forest.bounded m (List.getElem?_eq_some_iff.mp there).1
    rw [containersLength] at below
    omega

theorem Forested.copied (forested : d.Forested) (stores : d.Stores v) :
    ∃ o, Copied d.containers v o := by
  cases v with
  | ref r => exact ⟨_, .ref r⟩
  | scalar s => exact ⟨_, .scalar s⟩
  | node m =>
    have inside := forested.present stores rfl
    obtain ⟨rank, forest⟩ := forested
    exact forest.copied inside

theorem Forested.contained (forested : d.Forested) (stores : d.Stores v) {id : Nat}
    (inside : Contains d.containers v id) : id < d.nodes.size := by
  obtain ⟨m, top, reaches⟩ := inside
  have there := forested.present stores top
  obtain ⟨rank, forest⟩ := forested
  rw [← containersLength]
  exact (forest.reached reaches).2 there

theorem Forested.stored (forested : d.Forested) {target : Option Nat}
    (edited : Edited d d' target [v] [o]) : d'.copy v = .ok o := by
  cases edited.stored forested with
  | cons copied _ => exact (edited.forested forested).returns copied (Nat.le_refl _)

theorem Forested.kept (forested : d.Forested) (e : Edit) (stores : d.Stores v)
    (apart : ∀ id, e.target? = some id → ¬ Contains d.containers v id) :
    (d.after e).copy v = d.copy v := by
  obtain ⟨o, copied⟩ := forested.copied stores
  obtain ⟨vs, os, edited⟩ := afterEdited d e
  have before := forested.returns copied (Nat.le_refl _)
  have later := (edited.forested forested).returns (edited.kept copied apart) (Nat.le_refl _)
  exact later.trans before.symm

theorem addDirectNone (d : Document) (o : Object) :
    (d.addDirect o).2 = none ↔ o.kind ∉ [Kind.array, .dict, .stream] := by
  cases o with
  | scalar s => cases s <;> simp [addDirect, store, Object.kind, Scalar.kind]
  | ref r => simp [addDirect, store, Object.kind]
  | array items => simp [addDirect, store, Object.kind]
  | dict entries => simp [addDirect, store, Object.kind]
  | stream attrs data => simp [addDirect, store, Object.kind]

theorem addIndirectAt (few : d.objects.size + 1 < UInt32.size)
    (objects : (d.addIndirect o).1.objects = d.objects.push v) :
    (d.addIndirect o).1.objects[(d.addIndirect o).2.num.toNat - 1]? = some v ∧
    ∀ id, v = .node id → (d.addIndirect o).1.indirect (d.addIndirect o).2 = .ok id := by
  have number : (d.addIndirect o).2 = ⟨UInt32.ofNat (d.objects.size + 1), 0⟩ := rfl
  have next : (UInt32.ofNat (d.objects.size + 1)).toNat = d.objects.size + 1 :=
    UInt32.toNat_ofNat_of_lt' few
  have positive : UInt32.ofNat (d.objects.size + 1) ≠ 0 := by
    intro zero
    rw [zero] at next
    cases next
  have there : (d.addIndirect o).1.objects[(d.addIndirect o).2.num.toNat - 1]? = some v := by
    rw [number, next, objects]
    simp
  refine ⟨there, ?_⟩
  rintro id rfl
  rw [number] at there ⊢
  simp only [indirect, there]
  rw [if_pos ⟨trivial, positive⟩]

theorem Forested.faithful (forested : d.Forested) : d.Faithful where
  copies v stores := by
    obtain ⟨o, copied⟩ := forested.copied stores
    exact ⟨o, copied, fun fuel enough => forested.returns copied enough⟩
  present v stores id inside := forested.contained stores inside
  acyclic id := by
    obtain ⟨rank, forest⟩ := forested
    exact forest.acyclic id
  once := by
    obtain ⟨rank, forest⟩ := forested
    exact forest.single
  direct o id made := by
    obtain ⟨v, edited, same⟩ := addDirectEdited d o
    obtain rfl := nodeSome.mp (same.symm.trans made)
    exact forested.stored edited
  flat := addDirectNone d
  indirect o few := by
    obtain ⟨v, edited, objects⟩ := addIndirectEdited d o
    obtain ⟨there, node⟩ := addIndirectAt few objects
    exact ⟨v, there, forested.stored edited, node⟩
  property id key o d' c ok := by
    obtain ⟨v, edited, there⟩ := setPropertyEdited ok
    exact ⟨v, there, forested.stored edited⟩
  element id index o d' c ok := by
    obtain ⟨v, edited, there⟩ := insertElementEdited ok
    exact ⟨v, there, forested.stored edited⟩
  kept e v stores apart := forested.kept e stores apart

end

/-- Whatever was asked of a document, and whether it was done or refused, what it stores comes
out as it went in, and is changed only through containers inside of it. -/
theorem storedFaithfully (id : Nat) (edits : List Edit) : ((empty id).afterAll edits).Faithful :=
  (forestedAll id edits).faithful

def mixedEdits : List Edit :=
  [.addIndirect (.dict [("Kids", .array [.scalar .null]), ("Body", .stream [] [113])]),
    .setProperty 7 "Lost" (.array []), .setProperty 2 "More" (.array [.dict []]),
    .insertElement 0 1 (.dict [("Parent", .ref ⟨1, 0⟩)]), .setStreamData 1 [113, 81],
    .removeElement 0 0, .delProperty 2 "Lost"]

def mixed : Document := (empty 0).afterAll mixedEdits

def deep : Object := .array [.dict [("S", .stream [] [])]]

theorem mixedApart : ¬ Contains mixed.containers (.node 4) 2 := by
  rintro ⟨m, top, reaches⟩
  cases top
  obtain here | ⟨k, ⟨data, there, held⟩, later⟩ := reaches.cases_head
  · cases here
  · obtain rfl : data = .array [.node 3] := (Option.some.inj there).symm
    cases List.mem_singleton.mp held
    obtain here | ⟨k, ⟨data, there, held⟩, -⟩ := later.cases_head
    · cases here
    · obtain rfl : data = .dict [] := (Option.some.inj there).symm
      cases held

theorem storedFaithfullyMixed :
    mixed.copy (.node 2) = .ok (.dict [("Kids", .array [.dict [("Parent", .ref ⟨1, 0⟩)]]),
      ("Body", .stream [("Length", .scalar (.int 2))] [113, 81]), ("More", .array [.dict []])]) ∧
    (∃ d' c v, mixed.setProperty 3 "Deep" deep = .ok (d', c) ∧
      d'.property? 3 "Deep" = .ok (some v) ∧ d'.copy v = .ok deep) ∧
    (mixed.after (.setProperty 2 "More" (.scalar .null))).copy (.node 4) =
      mixed.copy (.node 4) := by
  have faithful := storedFaithfully 0 mixedEdits
  refine ⟨rfl, ?_, faithful.kept _ _ (.inl ⟨4, by decide, rfl⟩) fun id same => ?_⟩
  · obtain ⟨v, there, copy⟩ := faithful.property 3 "Deep" deep _ _ rfl
    exact ⟨_, _, v, rfl, there, copy⟩
  · cases same
    exact mixedApart

end PageContent.Document
