import PageContent.Proofs.Page.Listed

/-! What a page owns and may edit: its dictionary and the array that `/Contents` resolves to. A new
stream adds nothing to it. -/
namespace PageContent

namespace Document
variable {d d' : Document} {r : Ref} {data : Bytes}

theorem indirectNumber {n : UInt32} {id : Nat} (positive : n ≠ 0)
    (there : d.objects[n.toNat - 1]? = some (.node id)) : d.indirect ⟨n, 0⟩ = .ok id := by
  simp [indirect, positive, there]

theorem addDataNode (added : d.addIndirect (.ofData data) = (d', r)) :
    d'.nodes[d.nodes.size]? = some
      ⟨.stream [("Length", .scalar (.int (Int64.ofNat data.length)))] data, some r⟩ := by
  cases added
  change ((d.nodes.push _).modify d.nodes.size _)[d.nodes.size]? = _
  rw [Array.getElem?_modify, if_pos rfl, Array.getElem?_push_size]
  rfl

theorem addDataObjects (added : d.addIndirect (.ofData data) = (d', r)) :
    d'.objects = d.objects.push (.node d.nodes.size) := by
  cases added
  rfl

theorem addDataThere (added : d.addIndirect (.ofData data) = (d', r)) :
    Backing.resolve d' d.nodes.size = .ok ⟨d.nodes.size, r⟩ ∧
      d'.streamData d.nodes.size = .ok data ∧
      (d.objects.size + 1 < UInt32.size → d'.indirect r = .ok d.nodes.size) := by
  have there := addDataNode added
  refine ⟨ContentStream.resolveOk.mpr ⟨kindOk.mpr ⟨_, there, rfl⟩, ?_, rfl⟩,
    streamDataOk.mpr ⟨_, _, there, rfl⟩, fun room => ?_⟩
  · rw [ref?, there, Option.bind_some]
  · cases added
    have small : (UInt32.ofNat (d.objects.size + 1)).toNat = d.objects.size + 1 :=
      UInt32.toNat_ofNat_of_lt' room
    refine indirectNumber (fun zero => ?_) ?_
    · rw [zero] at small
      cases small
    · rw [small]
      exact Array.getElem?_push_size

theorem addDataFresh (added : d.addIndirect (.ofData data) = (d', r))
    (room : d.objects.size + 1 < UInt32.size) : d.indirect r = .error (.noObject r) := by
  cases added
  have small : (UInt32.ofNat (d.objects.size + 1)).toNat = d.objects.size + 1 :=
    UInt32.toNat_ofNat_of_lt' room
  have none : d.objects[(UInt32.ofNat (d.objects.size + 1)).toNat - 1]? = none := by
    rw [small]
    exact Array.getElem?_size
  simp only [indirect, none, ite_self]

theorem addDataIndirect {data : Bytes} {r r' : Ref} {m : Nat}
    (added : d.addIndirect (.ofData data) = (d', r)) (found : d'.indirect r' = .ok m) :
    d.indirect r' = .ok m ∨ d'.kind m = .ok .stream := by
  have new : d'.kind d.nodes.size = .ok .stream :=
    (ContentStream.resolveOk.mp (addDataThere added).1).1
  have objects := addDataObjects added
  by_cases usual : r'.gen = 0 ∧ r'.num ≠ 0
  · simp only [indirect, if_pos usual, objects] at found
    cases there : (d.objects.push (.node d.nodes.size))[r'.num.toNat - 1]? with
    | none => simp [there] at found
    | some v =>
      obtain old | ⟨-, rfl⟩ := pushedObject there
      · refine .inl ?_
        simp only [indirect, if_pos usual, old]
        rwa [there] at found
      · rw [there] at found
        cases found
        exact .inr new
  · simp [indirect, if_neg usual] at found

end Document

namespace Page
open Document

variable {touched : Nat → Prop} {d d' : Document} {page : Nat} {r : Ref} {c : Change}
  {side : Action.Side}

structure Owns (touched : Nat → Prop) (d : Document) (page : Nat) : Prop where
  dict : touched page
  array : ∀ node, contentsNode? d page = .ok (some node) → d.kind node = .ok .array → touched node

structure Removes (touched : Nat → Prop) (d : Document) (page : Nat) : Prop where
  dict : touched page
  array : ∀ node v rest, contentsNode? d page = .ok (some node) → d.items node = .ok (v :: rest) →
    touched node

theorem Owns.removes (h : Owns touched d page) : Removes touched d page :=
  ⟨h.dict, fun node _ _ resolved items => h.array node resolved (itemsKind items)⟩

theorem contentsKind (sound : d.Sound) {node : Nat} (ok : contentsNode? d page = .ok (some node)) :
    ∃ k, d.kind node = .ok k := by
  obtain ⟨-, same⟩ | ⟨v, found, resolved⟩ := contentsNodeExact.mp ok
  · cases same
  · obtain ⟨n, there, held⟩ := propertyHeld found
    cases v with
    | ref r =>
      obtain ⟨m, object, same⟩ := mapOk.mp resolved
      cases same
      obtain ⟨n', there', -⟩ := sound.indirect object
      exact ⟨_, kindOk.mpr ⟨n', there', rfl⟩⟩
    | node m =>
      cases resolved
      obtain ⟨-, inner, there', -⟩ := sound.values page n there _ held
      exact ⟨_, kindOk.mpr ⟨inner, there', rfl⟩⟩
    | scalar s => cases resolved

theorem addedContents (sound : d.Sound) (dict : d.kind page = .ok .dict) {data : Bytes}
    (added : d.addIndirect (.ofData data) = (d', r)) {node : Nat}
    (resolved : contentsNode? d' page = .ok (some node)) (array : d'.kind node = .ok .array) :
    contentsNode? d page = .ok (some node) ∧ d.kind node = .ok .array := by
  have stored := addIndirectRevised sound (keyedData data) added
  have before : contentsNode? d page = .ok (some node) := by
    obtain ⟨-, same⟩ | ⟨v, found, resolves⟩ := contentsNodeExact.mp resolved
    · cases same
    · rw [revisedProperty stored dict (by simp)] at found
      refine contentsNodeExact.mpr (.inr ⟨v, found, ?_⟩)
      cases v with
      | ref r' =>
        obtain ⟨m, object, same⟩ := mapOk.mp resolves
        cases same
        obtain old | stream := addDataIndirect added object
        · exact mapOk.mpr ⟨node, old, rfl⟩
        · rw [array] at stream
          cases stream
      | node m => exact resolves
      | scalar s => cases resolves
  obtain ⟨k, kind⟩ := contentsKind sound before
  cases (stored.kind kind).symm.trans array
  exact ⟨before, kind⟩

theorem Owns.added (h : Owns touched d page) (sound : d.Sound) (dict : d.kind page = .ok .dict)
    {data : Bytes} (added : d.addIndirect (.ofData data) = (d', r)) : Owns touched d' page := by
  refine ⟨h.dict, fun node resolved array => ?_⟩
  obtain ⟨before, kind⟩ := addedContents sound dict added resolved array
  exact h.array node before kind

theorem Owns.listed (h : Owns touched d page) (ok : listed d page r side = .ok (d', c)) :
    touched c.node := by
  obtain ⟨-, ok⟩ | ⟨-, -, -, ok⟩ | ⟨found, resolved, held, ok⟩ := listedExact.mp ok
  · exact setPropertyNode ok ▸ h.dict
  · exact setPropertyNode ok ▸ h.dict
  · have own := contentsNodeExact.mpr (.inr ⟨_, found, resolved⟩)
    exact insertElementNode ok ▸ h.array _ own (itemsKind held)

theorem Removes.unlisted (h : Removes touched d page) (sound : d.Sound)
    (dict : d.kind page = .ok .dict) (ok : unlisted d page r = .ok (d', c)) :
    touched c.node ∧ Removes touched d' page := by
  have changed := (unlistedHarmless sound ok).changed
  obtain ok | ⟨node, v, rest, index, named, held, ok⟩ := unlistedShape ok
  · obtain ⟨d₁, c₁, m, written, entry', -, items', -⟩ := arrayWritten dict []
    cases ok.symm.trans written
    refine ⟨setPropertyNode ok ▸ h.dict, h.dict, fun node' v rest resolved' some => ?_⟩
    -- the array that was written is empty
    have here := contentsNodeExact.mpr (.inr ⟨_, entry', rfl⟩)
    cases here.symm.trans resolved'
    cases items'.symm.trans some
  · have own := h.array node v rest named held
    have here := removeElementNode ok
    have apart : some page ≠ some c.node := by
      rintro same
      rw [Option.some.inj same, here, itemsKind held] at dict
      cases dict
    refine ⟨here ▸ own, h.dict, fun node' v rest resolved' _ => ?_⟩
    obtain ⟨-, absent⟩ | ⟨entry, found, resolved⟩ := contentsNodeExact.mp named
    · cases absent
    · have still := (revisedProperty changed.toRevised dict apart contents).trans found
      have again := contentsNodeExact.mpr (.inr ⟨entry, still, changed.resolve resolved⟩)
      cases again.symm.trans resolved'
      exact own

end Page

end PageContent
