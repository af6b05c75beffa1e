import PageContent.Page
import PageContent.Proofs.ContentStream.Regrouped
import PageContent.Proofs.Document.Changed

/-! What `/Contents` resolves to, and that it stays as long as neither the entry nor its
container changes. -/
namespace PageContent

namespace Document
variable {touched : Option Nat} {d d' : Document}

theorem Revised.indirectSame (revised : Revised touched d d') {r : Ref}
    (present : d.indirect r ≠ .error (.noObject r)) : d'.indirect r = d.indirect r := by
  unfold indirect at present ⊢
  by_cases usual : r.gen = 0 ∧ r.num ≠ 0
  · simp only [if_pos usual] at present ⊢
    cases found : d.objects[r.num.toNat - 1]? with
    | none => exact absurd (by rw [found]) present
    | some v => rw [revised.objects _ v found]
  · simp [if_neg usual] at present

theorem Revised.indirect (revised : Revised touched d d') {r : Ref} {m : Nat}
    (ok : d.indirect r = .ok m) : d'.indirect r = .ok m := by
  rw [revised.indirectSame (by rw [ok]; exact fun same => by cases same), ok]

theorem Revised.resolve (revised : Revised touched d d') {v : Value} {m : Option Nat}
    (ok : d.resolve v = .ok m) : d'.resolve v = .ok m := by
  cases v with
  | ref r =>
    obtain ⟨id, found, same⟩ := mapOk.mp ok
    exact mapOk.mpr ⟨id, revised.indirect found, same⟩
  | node id => exact ok
  | scalar s => exact ok

theorem Revised.resolveAll (revised : Revised touched d d') {vs : List Value} {ns : List Nat}
    (each : vs.map d.resolve = ns.map fun n => .ok (some n)) :
    vs.map d'.resolve = ns.map fun n => .ok (some n) := by
  rw [← each]
  refine List.map_congr_left fun v member => ?_
  have resolved : d.resolve v ∈ ns.map fun n => Except.ok (some n) :=
    each ▸ List.mem_map_of_mem member
  obtain ⟨n, -, same⟩ := List.mem_map.mp resolved
  rw [← same]
  exact revised.resolve same.symm

theorem Revised.kind (revised : Revised touched d d') {id : Nat} {k : Kind}
    (ok : d.kind id = .ok k) : d'.kind id = .ok k := by
  obtain ⟨n, there, kind⟩ := kindOk.mp ok
  obtain ⟨n', there', -, kind', -⟩ := revised.nodes id n there
  exact kindOk.mpr ⟨n', there', kind'.trans kind⟩

theorem Revised.backing (revised : Revised touched d d') {id : Nat} {b : Backing}
    (ok : Backing.resolve d id = .ok b) : Backing.resolve d' id = .ok b := by
  obtain ⟨stream, ref, node⟩ := ContentStream.resolveOk.mp ok
  obtain ⟨n, there, -⟩ := kindOk.mp stream
  obtain ⟨n', there', same, -⟩ := revised.nodes id n there
  refine ContentStream.resolveOk.mpr ⟨revised.kind stream, ?_, node⟩
  rw [← ref, ref?, ref?, there, there', Option.bind_some, Option.bind_some, same]

theorem Revised.items (revised : Revised touched d d') {id : Nat} {vs : List Value}
    (ok : d.items id = .ok vs) (other : some id ≠ touched) : d'.items id = .ok vs := by
  obtain ⟨n, there, array⟩ := itemsOk.mp ok
  exact itemsOk.mpr ⟨n, revised.untouched there other, array⟩

theorem Sound.backed (sound : d.Sound) {i : Nat} {n : Node} (there : d.nodes[i]? = some n) {v : Value}
    (held : v ∈ n.data.values) {id : Nat} (resolved : d.resolve v = .ok (some id)) {b : Backing}
    (ok : Backing.resolve d id = .ok b) : v = .ref b.ref ∧ d.indirect b.ref = .ok b.node := by
  obtain ⟨-, ref, rfl⟩ := ContentStream.resolveOk.mp ok
  cases v with
  | ref r =>
    obtain ⟨m, found, same⟩ := mapOk.mp resolved
    cases same
    obtain ⟨n', there', ref'⟩ := sound.indirect found
    have same : b.ref = r := by simpa [ref?, there', ref'] using ref.symm
    rw [same]
    exact ⟨rfl, found⟩
  | node m =>
    cases resolved
    obtain ⟨-, inner, there', direct⟩ := sound.values i n there _ held
    simp [ref?, there', direct] at ref
  | scalar s => cases resolved

theorem getMember {es : Dict Value} {key : String} {v : Value} (found : es.get? key = some v) :
    v ∈ es.map Prod.snd := by
  induction es with
  | nil => cases found
  | cons entry rest ih =>
    obtain ⟨k, v'⟩ := entry
    rw [Dict.get?] at found
    split at found
    · cases found
      exact List.mem_cons_self
    · exact List.mem_cons_of_mem _ (ih found)

theorem propertyHeld {id : Nat} {key : String} {v : Value}
    (ok : d.property? id key = .ok (some v)) : ∃ n, d.nodes[id]? = some n ∧ v ∈ n.data.values := by
  obtain ⟨es, entries, found⟩ := propertyOk.mp ok
  obtain ⟨n, there, data⟩ := entriesOk.mp entries
  refine ⟨n, there, ?_⟩
  rw [NodeData.valuesEntries data]
  exact getMember found

end Document

namespace Page
open Document
variable {touched : Option Nat} {d d' : Document} {page : Nat}

theorem contentsNodeExact {c : Option Nat} : contentsNode? d page = .ok c ↔
    (d.property? page contents = .ok none ∧ c = none) ∨
      ∃ v, d.property? page contents = .ok (some v) ∧ d.resolve v = .ok c := by
  simp only [contentsNode?, bindOk]
  constructor
  · rintro ⟨entry, found, ok⟩
    cases entry with
    | none => exact .inl ⟨found, (pureOk.mp ok).symm⟩
    | some v => exact .inr ⟨v, found, ok⟩
  · rintro (⟨found, rfl⟩ | ⟨v, found, ok⟩)
    · exact ⟨none, found, rfl⟩
    · exact ⟨some v, found, ok⟩

theorem elementNodesExact {index : Nat} {vs : List Value} {ns : List Nat} :
    elementNodes d index vs = .ok ns ↔ vs.map d.resolve = ns.map fun n => .ok (some n) := by
  induction vs generalizing index ns with
  | nil => cases ns <;> simp [elementNodes]
  | cons v rest ih =>
    simp only [elementNodes, bindOk]
    constructor
    · rintro ⟨m, found, ok⟩
      cases m with
      | none => cases ok
      | some node =>
        obtain ⟨later, others, same⟩ := bindOk.mp ok
        cases same
        rw [List.map_cons, List.map_cons, found, ih.mp others]
    · intro same
      cases ns with
      | nil => cases same
      | cons node later =>
        simp only [List.map_cons, List.cons.injEq] at same
        exact ⟨some node, same.1, bindOk.mpr ⟨later, ih.mpr same.2, rfl⟩⟩

def Lists (d : Document) (node : Nat) (ns : List Nat) : Prop :=
  (d.kind node = .ok .stream ∧ ns = [node]) ∨ (d.kind node = .ok .array ∧
    ∃ vs, d.items node = .ok vs ∧ vs.map d.resolve = ns.map fun n => .ok (some n))

theorem contentNodesExact {ns : List Nat} : contentNodes d page = .ok ns ↔
    (d.property? page contents = .ok none ∧ ns = []) ∨ ∃ v node,
      d.property? page contents = .ok (some v) ∧ d.resolve v = .ok (some node) ∧
      Lists d node ns := by
  simp only [contentNodes, bindOk]
  constructor
  · rintro ⟨entry, found, ok⟩
    cases entry with
    | none => exact .inl ⟨found, (pureOk.mp ok).symm⟩
    | some v =>
      simp only [entryNode, bindOk] at ok
      obtain ⟨node, ⟨m, resolved, last⟩, kind, kindOk, ok⟩ := ok
      cases m with
      | none => cases last
      | some node' =>
        cases last
        refine .inr ⟨v, node, found, resolved, ?_⟩
        cases kind with
        | stream => exact .inl ⟨kindOk, (pureOk.mp ok).symm⟩
        | array =>
          obtain ⟨vs, items, ok⟩ := bindOk.mp ok
          exact .inr ⟨kindOk, vs, items, elementNodesExact.mp ok⟩
        | _ => cases ok
  · rintro (⟨found, rfl⟩ | ⟨v, node, found, resolved, lists⟩)
    · exact ⟨none, found, rfl⟩
    · refine ⟨some v, found, ?_⟩
      simp only [entryNode, bindOk]
      refine ⟨node, ⟨some node, resolved, rfl⟩, ?_⟩
      obtain ⟨kind, rfl⟩ | ⟨kind, vs, items, each⟩ := lists
      · exact ⟨.stream, kind, rfl⟩
      · exact ⟨.array, kind, bindOk.mpr ⟨vs, items, elementNodesExact.mpr each⟩⟩

theorem elementNodesWatches (ws : List Watch) (index : Nat) (vs : List Value) :
    elementNodes { d with watches := ws } index vs = elementNodes d index vs := by
  induction vs generalizing index with
  | nil => rfl
  | cons v rest ih =>
    simp only [elementNodes, ih]
    rfl

theorem contentNodesWatches (ws : List Watch) (page : Nat) :
    contentNodes { d with watches := ws } page = contentNodes d page := by
  simp only [contentNodes, elementNodesWatches]
  rfl

def Grounded (d : Document) (page : Nat) : Prop :=
  ∀ r, d.property? page contents = .ok (some (.ref r)) →
    d.indirect r ≠ .error (.noObject r) ∧ d.indirect r ≠ .ok page

instance (d : Document) (page : Nat) : Decidable (Grounded d page) :=
  match found : d.property? page contents with
  | .ok (some (.ref r)) =>
    decidable_of_iff (d.indirect r ≠ .error (.noObject r) ∧ d.indirect r ≠ .ok page)
      ⟨fun h r' same => by rw [found] at same; cases same; exact h, fun h => h r found⟩
  | .ok (some (.node m)) => isTrue fun r same => by rw [found] at same; cases same
  | .ok (some (.scalar s)) => isTrue fun r same => by rw [found] at same; cases same
  | .ok none => isTrue fun r same => by rw [found] at same; cases same
  | .error fault => isTrue fun r same => by rw [found] at same; cases same

theorem Grounded.revised (grounded : Grounded d page) (revised : Revised touched d d')
    (entry : d'.property? page contents = d.property? page contents) : Grounded d' page := by
  intro r found
  obtain ⟨present, apart⟩ := grounded r (entry.symm.trans found)
  rw [revised.indirectSame present]
  exact ⟨present, apart⟩

theorem Grounded.apart (grounded : Grounded d page) (sound : d.Sound) {node : Nat}
    (ok : contentsNode? d page = .ok (some node)) : node ≠ page ∧ ∃ k, d.kind node = .ok k := by
  obtain ⟨-, same⟩ | ⟨v, found, resolved⟩ := contentsNodeExact.mp ok
  · cases same
  · obtain ⟨n, there, held⟩ := propertyHeld found
    cases v with
    | ref r =>
      obtain ⟨m, object, same⟩ := mapOk.mp resolved
      cases same
      obtain ⟨n', there', -⟩ := sound.indirect object
      refine ⟨?_, _, kindOk.mpr ⟨n', there', rfl⟩⟩
      rintro rfl
      exact (grounded r found).2 object
    | node m =>
      cases resolved
      obtain ⟨other, inner, there', -⟩ := sound.values page n there _ held
      exact ⟨other, _, kindOk.mpr ⟨inner, there', rfl⟩⟩
    | scalar s => cases resolved

theorem revisedContentsNode (revised : Revised touched d d') (grounded : Grounded d page)
    (entry : d'.property? page contents = d.property? page contents) :
    contentsNode? d' page = contentsNode? d page := by
  unfold contentsNode?
  rw [entry]
  cases found : d.property? page contents with
  | error fault => rfl
  | ok v =>
    cases v with
    | none => rfl
    | some v =>
      cases v with
      | ref r =>
        have same := revised.indirectSame (grounded r found).1
        change (d'.indirect r).map some = (d.indirect r).map some
        rw [same]
      | node m => rfl
      | scalar s => rfl

theorem Lists.revised {node : Nat} {ns : List Nat} (h : Lists d node ns)
    (revised : Revised touched d d') (other : some node ≠ touched) : Lists d' node ns := by
  obtain ⟨kind, same⟩ | ⟨kind, vs, items, each⟩ := h
  · exact .inl ⟨revised.kind kind, same⟩
  · exact .inr ⟨revised.kind kind, vs, revised.items items other, revised.resolveAll each⟩

theorem revisedContentNodes (revised : Revised touched d d')
    (entry : d'.property? page contents = d.property? page contents) {ns : List Nat}
    (other : ∀ node, contentsNode? d page = .ok (some node) → some node ≠ touched)
    (ok : contentNodes d page = .ok ns) : contentNodes d' page = .ok ns := by
  refine contentNodesExact.mpr ?_
  rw [entry]
  obtain absent | ⟨v, node, found, resolved, lists⟩ := contentNodesExact.mp ok
  · exact .inl absent
  · have apart := other node (contentsNodeExact.mpr (.inr ⟨v, found, resolved⟩))
    exact .inr ⟨v, node, found, revised.resolve resolved, lists.revised revised apart⟩

theorem contentNodesBacked (sound : d.Sound) {ns : List Nat} (ok : contentNodes d page = .ok ns)
    {b : Backing} (member : b.node ∈ ns) (backing : Backing.resolve d b.node = .ok b) :
    d.indirect b.ref = .ok b.node := by
  obtain ⟨-, rfl⟩ | ⟨v, node, found, resolved, lists⟩ := contentNodesExact.mp ok
  · cases member
  · obtain ⟨-, rfl⟩ | ⟨-, vs, items, each⟩ := lists
    · obtain ⟨n, there, held⟩ := propertyHeld found
      rw [List.mem_singleton.mp member] at backing
      exact (sound.backed there held resolved backing).2
    · obtain ⟨n, there, array⟩ := itemsOk.mp items
      have resolved : Except.ok (some b.node) ∈ vs.map d.resolve :=
        each ▸ List.mem_map_of_mem member
      obtain ⟨v', held, same⟩ := List.mem_map.mp resolved
      exact (sound.backed there (by rw [array]; exact held) same backing).2

end Page

end PageContent
