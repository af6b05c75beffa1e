import PageContent.Proofs.Document.Stored
import PageContent.Proofs.Outcome

/-! What a change of a document leaves as it was: numbers, references and kinds stay, and
only the container that was changed holds anything else than before. -/
namespace PageContent

namespace Dict
variable {α : Type}

theorem getErase {key : String} {d : Dict α} (h : d.Distinct) : get? key (erase key d) = none := by
  induction d with
  | nil => rfl
  | cons entry rest ih =>
    obtain ⟨k, v⟩ := entry
    obtain ⟨fresh, later⟩ := List.nodup_cons.mp h
    by_cases same : k = key
    · rw [erase, if_pos same]
      have absent : ∀ {l : Dict α}, key ∉ l.map Prod.fst → get? key l = none := by
        intro l
        induction l with
        | nil => exact fun _ => rfl
        | cons entry rest ih =>
          intro absent
          simp only [List.map_cons, List.mem_cons, not_or] at absent
          rw [get?, if_neg (Ne.symm absent.1), ih absent.2]
      exact absent (same ▸ fresh)
    · rw [erase, if_neg same, get?, if_neg same, ih later]

theorem getEraseOther {key other : String} (h : other ≠ key) (d : Dict α) :
    get? other (erase key d) = get? other d := by
  induction d with
  | nil => rfl
  | cons entry rest ih =>
    obtain ⟨k, v⟩ := entry
    by_cases same : k = key
    · have passed : k ≠ other := fun here => h (here.symm.trans same)
      rw [erase, if_pos same, get?, if_neg passed]
    · rw [erase, if_neg same, get?, get?, ih]

theorem eraseSublist (key : String) (d : Dict α) : (erase key d).Sublist d := by
  induction d with
  | nil => exact List.Sublist.refl _
  | cons entry rest ih =>
    obtain ⟨k, v⟩ := entry
    by_cases same : k = key
    · rw [erase, if_pos same]
      exact List.sublist_cons_self _ _
    · rw [erase, if_neg same]
      exact ih.cons_cons _

end Dict

namespace Document

theorem nodeOk {d : Document} {id : Nat} {n : Node} :
    d.node id = .ok n ↔ d.nodes[id]? = some n := by
  unfold node
  cases d.nodes[id]? <;> simp

theorem kindOk {d : Document} {id : Nat} {k : Kind} :
    d.kind id = .ok k ↔ ∃ n, d.nodes[id]? = some n ∧ n.data.kind = k := by
  simp only [kind, mapOk, nodeOk]

theorem dictOk {d : Document} {id : Nat} :
    d.kind id = .ok .dict ↔ ∃ n es, d.nodes[id]? = some n ∧ n.data = .dict es := by
  rw [kindOk]
  constructor
  · rintro ⟨n, there, kind⟩
    cases data : n.data with
    | dict es => exact ⟨n, es, there, data⟩
    | array items => rw [data] at kind; cases kind
    | stream es raw => rw [data] at kind; cases kind
  · rintro ⟨n, es, there, data⟩
    exact ⟨n, there, by rw [data]; rfl⟩

theorem entriesOk {d : Document} {id : Nat} {es : Dict Value} :
    d.entries id = .ok es ↔ ∃ n, d.nodes[id]? = some n ∧ n.data.entries? = some es := by
  simp only [entries, bindOk, nodeOk]
  constructor
  · rintro ⟨n, there, ok⟩
    split at ok
    · rename_i found
      cases ok
      exact ⟨n, there, found⟩
    · cases ok
  · rintro ⟨n, there, found⟩
    exact ⟨n, there, by rw [found]; rfl⟩

theorem itemsOk {d : Document} {id : Nat} {vs : List Value} :
    d.items id = .ok vs ↔ ∃ n, d.nodes[id]? = some n ∧ n.data = .array vs := by
  simp only [items, bindOk, nodeOk]
  constructor
  · rintro ⟨n, there, ok⟩
    split at ok
    · rename_i found
      cases ok
      exact ⟨n, there, found⟩
    · cases ok
  · rintro ⟨n, there, found⟩
    exact ⟨n, there, by rw [found]; rfl⟩

theorem streamDataOk {d : Document} {id : Nat} {data : Bytes} :
    d.streamData id = .ok data ↔ ∃ n attrs, d.nodes[id]? = some n ∧ n.data = .stream attrs data := by
  simp only [streamData, bindOk, nodeOk]
  constructor
  · rintro ⟨n, there, ok⟩
    split at ok
    · rename_i attrs data' found
      cases ok
      exact ⟨n, attrs, there, found⟩
    · cases ok
  · rintro ⟨n, attrs, there, found⟩
    exact ⟨n, there, by rw [found]; rfl⟩

theorem propertyOk {d : Document} {id : Nat} {key : String} {v : Option Value} :
    d.property? id key = .ok v ↔ ∃ es, d.entries id = .ok es ∧ es.get? key = v := by
  simp only [property?, mapOk]

structure Sound (d : Document) : Prop where
  objects : ∀ (k m : Nat), d.objects[k]? = some (.node m) → ∃ n : Node, d.nodes[m]? = some n ∧
    (k + 1 < UInt32.size → n.ref = some ⟨UInt32.ofNat (k + 1), 0⟩)
  values : ∀ (i : Nat) (n : Node), d.nodes[i]? = some n → ∀ m, .node m ∈ n.data.values →
    m ≠ i ∧ ∃ inner : Node, d.nodes[m]? = some inner ∧ inner.ref = none
  keyed : ∀ (i : Nat) (n : Node) es, d.nodes[i]? = some n → n.data.entries? = some es → es.Distinct

theorem soundEmpty (id : Nat) : (empty id).Sound :=
  ⟨fun k m there => by simp [empty] at there, fun i n there => by simp [empty] at there,
    fun i n es there => by simp [empty] at there⟩

theorem Sound.indirect {d : Document} (sound : d.Sound) {r : Ref} {m : Nat}
    (ok : d.indirect r = .ok m) : ∃ n : Node, d.nodes[m]? = some n ∧ n.ref = some r := by
  unfold Document.indirect at ok
  by_cases usual : r.gen = 0 ∧ r.num ≠ 0
  · simp only [if_pos usual] at ok
    cases found : d.objects[r.num.toNat - 1]? with
    | none => simp [found] at ok
    | some v =>
      cases v with
      | node id =>
        simp only [found, Except.ok.injEq] at ok
        subst ok
        obtain ⟨n, there, numbered⟩ := sound.objects _ _ found
        obtain ⟨gen, num⟩ := usual
        have positive : r.num.toNat ≠ 0 := fun zero => num (UInt32.toNat_inj.mp (by simpa using zero))
        have number : r.num.toNat - 1 + 1 = r.num.toNat := by omega
        rw [number] at numbered
        refine ⟨n, there, (numbered r.num.toNat_lt).trans ?_⟩
        rw [UInt32.ofNat_toNat, ← gen]
      | ref r => simp [found] at ok
      | scalar s => simp [found] at ok
  · simp [if_neg usual] at ok

structure Revised (touched : Option Nat) (d d' : Document) : Prop where
  id : d'.id = d.id
  watches : d'.watches = d.watches
  sound : d'.Sound
  objects : ∀ (k : Nat) v, d.objects[k]? = some v → d'.objects[k]? = some v
  nodes : ∀ (i : Nat) (n : Node), d.nodes[i]? = some n → ∃ n' : Node, d'.nodes[i]? = some n' ∧ n'.ref = n.ref ∧
    n'.data.kind = n.data.kind ∧ (some i ≠ touched → n'.data = n.data)

theorem Revised.trans {touched : Option Nat} {d d' d'' : Document} (first : Revised none d d')
    (later : Revised touched d' d'') : Revised touched d d'' where
  id := later.id.trans first.id
  watches := later.watches.trans first.watches
  sound := later.sound
  objects k v there := later.objects k v (first.objects k v there)
  nodes i n there := by
    obtain ⟨n', there', ref, kind, same⟩ := first.nodes i n there
    obtain ⟨n'', there'', ref', kind', same'⟩ := later.nodes i n' there'
    exact ⟨n'', there'', ref'.trans ref, kind'.trans kind,
      fun other => (same' other).trans (same (by simp))⟩

theorem Revised.grows {touched : Option Nat} {d d' : Document} (revised : Revised touched d d') :
    d.nodes.size ≤ d'.nodes.size := by
  refine Nat.not_lt.mp fun shrinks => ?_
  obtain ⟨n, there, -⟩ := revised.nodes d'.nodes.size _ (Array.getElem?_eq_getElem shrinks)
  exact Nat.lt_irrefl _ (Array.getElem?_eq_some_iff.mp there).1

theorem Revised.untouched {touched : Option Nat} {d d' : Document} (revised : Revised touched d d')
    {i : Nat} {n : Node} (there : d.nodes[i]? = some n) (other : some i ≠ touched) :
    d'.nodes[i]? = some n := by
  obtain ⟨⟨data, ref⟩, there', rfl, -, same⟩ := revised.nodes i n there
  cases same other
  exact there'

theorem revisedStored {d : Document} (sound : d.Sound) {nodes : Array Node}
    (stored : Stored d.nodes nodes) : Revised none d { d with nodes } := by
  have old : ∀ {i : Nat} {n : Node}, d.nodes[i]? = some n → nodes[i]? = some n := by
    intro i n there
    obtain ⟨before, -⟩ := Array.getElem?_eq_some_iff.mp there
    exact (stored.kept i before).trans there
  refine ⟨rfl, rfl, ⟨?_, ?_, ?_⟩, fun _ _ there => there,
    fun i n there => ⟨n, old there, rfl, rfl, fun _ => rfl⟩⟩
  · intro k m there
    obtain ⟨n, found, numbered⟩ := sound.objects k m there
    exact ⟨n, old found, numbered⟩
  · intro i n there m held
    by_cases before : i < d.nodes.size
    · obtain ⟨other, inner, found, direct⟩ := sound.values i n ((stored.kept i before).symm.trans there)
        m held
      exact ⟨other, inner, old found, direct⟩
    · obtain ⟨low, high⟩ := stored.below i n (Nat.not_lt.mp before) there m held
      obtain ⟨inside, -⟩ := Array.getElem?_eq_some_iff.mp there
      have found := Array.getElem?_eq_getElem (Nat.lt_trans high inside)
      exact ⟨Nat.ne_of_lt high, _, found, stored.direct m _ low found⟩
  · intro i n es there found
    by_cases before : i < d.nodes.size
    · exact sound.keyed i n es ((stored.kept i before).symm.trans there) found
    · exact stored.keyed i n es (Nat.not_lt.mp before) there found

theorem setDataNode (d : Document) (id : Nat) (data : NodeData) (i : Nat) :
    (d.setData id data).nodes[i]? =
      d.nodes[i]?.map fun n => if id = i then { n with data } else n := by
  simp only [setData, Array.getElem?_modify]
  by_cases same : id = i
  · simp [same]
  · simp [same]

theorem revisedData {d : Document} (sound : d.Sound) {id : Nat} {n : Node} {data : NodeData}
    (there : d.nodes[id]? = some n) (kind : data.kind = n.data.kind)
    (held : ∀ m, .node m ∈ data.values → m ≠ id ∧ ∃ inner : Node, d.nodes[m]? = some inner ∧
      inner.ref = none)
    (keyed : ∀ es, data.entries? = some es → es.Distinct) :
    Revised (some id) d (d.setData id data) := by
  have each : ∀ {i : Nat} {n' : Node}, d.nodes[i]? = some n' → ∃ n'' : Node, (d.setData id data).nodes[i]? = some n'' ∧
      n''.ref = n'.ref ∧ n''.data.kind = n'.data.kind ∧ (some i ≠ some id → n''.data = n'.data) := by
    intro i n' found
    rw [setDataNode, found, Option.map_some]
    by_cases same : id = i
    · subst same
      rw [there] at found
      cases found
      exact ⟨_, rfl, by simp, by simpa using kind, fun other => absurd rfl other⟩
    · exact ⟨_, rfl, by simp [same], by simp [same], fun _ => by simp [same]⟩
  refine ⟨rfl, rfl, ⟨?_, ?_, ?_⟩, fun _ _ there => there, fun i n there => each there⟩
  · intro k m object
    obtain ⟨n', found, numbered⟩ := sound.objects k m object
    obtain ⟨n'', found', ref, -⟩ := each found
    exact ⟨n'', found', fun small => ref.trans (numbered small)⟩
  · intro i n'' found'' m member
    rw [setDataNode] at found''
    obtain ⟨n', found, same⟩ := Option.map_eq_some_iff.mp found''
    have whole : m ≠ i ∧ ∃ inner : Node, d.nodes[m]? = some inner ∧ inner.ref = none := by
      by_cases here : id = i
      · rw [if_pos here] at same
        subst same
        exact here ▸ held m member
      · rw [if_neg here] at same
        subst same
        exact sound.values i n' found m member
    obtain ⟨other, inner, found', direct⟩ := whole
    obtain ⟨inner', found''', ref, -⟩ := each found'
    exact ⟨other, inner', found''', ref.trans direct⟩
  · intro i n'' es found'' entries
    rw [setDataNode] at found''
    obtain ⟨n', found, same⟩ := Option.map_eq_some_iff.mp found''
    by_cases here : id = i
    · rw [if_pos here] at same
      subst same
      exact keyed es entries
    · rw [if_neg here] at same
      subst same
      exact sound.keyed i n' es found entries

theorem addDirectRevised {d d' : Document} (sound : d.Sound) {o : Object} (keyed : o.Keyed)
    {node : Option Nat} (added : d.addDirect o = (d', node)) : Revised none d d' := by
  obtain ⟨stored, -⟩ := storeStored d.nodes o keyed
  cases added
  exact revisedStored sound stored

theorem pushedObject {objects : Array Value} {v v' : Value} {k : Nat}
    (there : (objects.push v)[k]? = some v') :
    objects[k]? = some v' ∨ (k = objects.size ∧ v' = v) := by
  rw [Array.getElem?_push] at there
  split at there
  · rename_i last
    exact .inr ⟨last, (Option.some.inj there).symm⟩
  · exact .inl there

theorem keptObject {objects : Array Value} {v' : Value} {k : Nat} (there : objects[k]? = some v')
    (v : Value) : (objects.push v)[k]? = some v' := by
  obtain ⟨inside, -⟩ := Array.getElem?_eq_some_iff.mp there
  rw [Array.getElem?_push, if_neg (Nat.ne_of_lt inside)]
  exact there

theorem Revised.object {d d' : Document} (before : Revised none d d') {v : Value}
    (scalar : ∀ m, v ≠ .node m) : Revised none d { d' with objects := d'.objects.push v } where
  id := before.id
  watches := before.watches
  sound := by
    refine ⟨fun k m object => ?_, before.sound.values, before.sound.keyed⟩
    obtain old | ⟨-, same⟩ := pushedObject object
    · exact before.sound.objects k m old
    · exact absurd same.symm (scalar m)
  objects k v there := keptObject (before.objects k v there) _
  nodes := before.nodes

theorem Revised.number {d d' : Document} (before : Revised none d d') {id : Nat}
    (top : id < d'.nodes.size) (fresh : d.nodes.size ≤ id)
    (alone : ∀ (i : Nat) (n : Node), d'.nodes[i]? = some n → .node id ∉ n.data.values)
    (unlisted : ∀ k : Nat, d'.objects[k]? ≠ some (.node id)) :
    Revised none d ⟨d'.id, d'.nodes.modify id fun n =>
      { n with ref := some ⟨UInt32.ofNat (d'.objects.size + 1), 0⟩ },
      d'.objects.push (.node id), d'.watches⟩ := by
  have each : ∀ i : Nat, (d'.nodes.modify id fun n =>
      { n with ref := some ⟨UInt32.ofNat (d'.objects.size + 1), 0⟩ })[i]? = (d'.nodes[i]?).map fun n =>
        if id = i then { n with ref := some ⟨UInt32.ofNat (d'.objects.size + 1), 0⟩ } else n := by
    intro i
    rw [Array.getElem?_modify]
    by_cases same : id = i
    · simp [same]
    · simp [same]
  have data : ∀ (i : Nat) (n n' : Node), (if id = i then
      { n with ref := some ⟨UInt32.ofNat (d'.objects.size + 1), 0⟩ } else n) = n' →
      n'.data = n.data := by
    rintro i n _ rfl
    split <;> rfl
  refine ⟨before.id, before.watches, ⟨?_, ?_, ?_⟩, fun k v there => ?_, ?_⟩
  · intro k m object
    obtain old | ⟨rfl, same⟩ := pushedObject object
    · obtain ⟨n, found, numbered⟩ := before.sound.objects k m old
      have other : id ≠ m := fun same => unlisted k (same ▸ old)
      exact ⟨n, by rw [each, found, Option.map_some, if_neg other], numbered⟩
    · cases same
      refine ⟨_, by rw [each, Array.getElem?_eq_getElem top, Option.map_some, if_pos rfl], ?_⟩
      exact fun _ => rfl
  · intro i n' found' m member
    rw [each] at found'
    obtain ⟨n, found, same⟩ := Option.map_eq_some_iff.mp found'
    rw [data i n n' same] at member
    obtain ⟨other, inner, there, direct⟩ := before.sound.values i n found m member
    have apart : id ≠ m := fun same => alone i n found (same ▸ member)
    exact ⟨other, inner, by rw [each, there, Option.map_some, if_neg apart], direct⟩
  · intro i n' es found' entries
    rw [each] at found'
    obtain ⟨n, found, same⟩ := Option.map_eq_some_iff.mp found'
    exact before.sound.keyed i n es found (data i n n' same ▸ entries)
  · exact keptObject (before.objects k v there) _
  · intro i n there
    obtain ⟨inside, -⟩ := Array.getElem?_eq_some_iff.mp there
    obtain ⟨n', there', same⟩ := before.nodes i n there
    have other : id ≠ i := Ne.symm (Nat.ne_of_lt (Nat.lt_of_lt_of_le inside fresh))
    exact ⟨n', by rw [each, there', Option.map_some, if_neg other], same⟩

theorem addIndirectRevised {d d' : Document} (sound : d.Sound) {o : Object} (keyed : o.Keyed)
    {r : Ref} (added : d.addIndirect o = (d', r)) : Revised none d d' := by
  obtain ⟨stored, top⟩ := storeStored d.nodes o keyed
  have before := revisedStored sound stored
  unfold addIndirect at added
  cases value : (store d.nodes o).2 with
  | node id =>
    obtain ⟨low, high⟩ := top id value
    have unlisted : ∀ k : Nat, d.objects[k]? ≠ some (.node id) := by
      intro k object
      obtain ⟨n, found, -⟩ := sound.objects k id object
      obtain ⟨inside, -⟩ := Array.getElem?_eq_some_iff.mp found
      omega
    -- it is the last container, and those before it cannot hold it
    have alone : ∀ (i : Nat) (n : Node), (store d.nodes o).1[i]? = some n →
        .node id ∉ n.data.values := by
      intro i n there member
      obtain ⟨inside, -⟩ := Array.getElem?_eq_some_iff.mp there
      by_cases old : i < d.nodes.size
      · obtain ⟨-, inner, found, -⟩ := sound.values i n ((stored.kept i old).symm.trans there) id
          member
        obtain ⟨early, -⟩ := Array.getElem?_eq_some_iff.mp found
        omega
      · obtain ⟨-, below⟩ := stored.below i n (Nat.not_lt.mp old) there id member
        omega
    simp only [value] at added
    cases added
    exact before.number (by simp only; omega) low alone unlisted
  | ref r' =>
    simp only [value] at added
    cases added
    exact before.object fun m same => by cases same
  | scalar s =>
    simp only [value] at added
    cases added
    exact before.object fun m same => by cases same

end Document

end PageContent
