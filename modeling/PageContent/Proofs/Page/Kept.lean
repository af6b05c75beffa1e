import PageContent.Proofs.Page.Resolved

/-! What is kept of every open page: what it has read comes from streams that `/Contents` can
name, and unless it is invalid it has read what `/Contents` names now. -/
namespace PageContent

namespace Backing

def Holds (d : Document) (b : Backing) : Prop :=
  resolve d b.node = .ok b ∧ d.indirect b.ref = .ok b.node

theorem Holds.revised {touched : Option Nat} {d d' : Document} {b : Backing} (h : b.Holds d)
    (revised : d.Revised touched d') : b.Holds d' :=
  ⟨revised.backing h.1, revised.indirect h.2⟩

theorem Holds.stream {d : Document} {b : Backing} (h : b.Holds d) :
    ∃ data, d.streamData b.node = .ok data := by
  obtain ⟨kind, -, -⟩ := ContentStream.resolveOk.mp h.1
  obtain ⟨n, there, stream⟩ := Document.kindOk.mp kind
  cases found : n.data with
  | stream attrs data => exact ⟨data, Document.streamDataOk.mpr ⟨n, attrs, there, found⟩⟩
  | dict entries => rw [found] at stream; cases stream
  | array items => rw [found] at stream; cases stream

end Backing

structure Document.Keeps (d d' : Document) : Prop where
  id : d'.id = d.id
  holds : ∀ {b : Backing}, b.Holds d → b.Holds d'
  payloads : ∀ n data, d.streamData n = .ok data → d'.streamData n = .ok data

namespace Document
variable {d d' d'' : Document} {c : Change}

theorem Keeps.refl (d : Document) : d.Keeps d :=
  ⟨rfl, fun holds => holds, fun _ _ payload => payload⟩

theorem Keeps.trans (first : d.Keeps d') (later : d'.Keeps d'') : d.Keeps d'' :=
  ⟨later.id.trans first.id, fun holds => later.holds (first.holds holds),
    fun n data payload => later.payloads n data (first.payloads n data payload)⟩

theorem Keeps.watches (keeps : d.Keeps d') (ws : List Watch) : d.Keeps { d' with watches := ws } :=
  ⟨keeps.id, keeps.holds, keeps.payloads⟩

theorem Revised.keeps (revised : Revised none d d') : d.Keeps d' := by
  refine ⟨revised.id, fun holds => holds.revised revised, fun n data payload => ?_⟩
  obtain ⟨node, attrs, there, stream⟩ := streamDataOk.mp payload
  exact streamDataOk.mpr ⟨node, attrs, revised.untouched there (by simp), stream⟩

theorem Changed.keeps (changed : Changed d d' c) (quiet : c.kind ≠ .payload) : d.Keeps d' :=
  ⟨changed.id, fun holds => holds.revised changed.toRevised, changed.payloads quiet⟩

end Document

namespace ContentStream
variable {d d' : Document} {params : Params} {streams : List ContentStream}

def Whole (d : Document) (params : Params) (streams : List ContentStream) : Prop :=
  ∃ id gs, groups d id (nodes streams) params = .ok gs ∧
    gs.map unnumbered = streams.map unnumbered

theorem Whole.keeps (h : Whole d params streams) (keeps : d.Keeps d')
    (backed : ∀ s ∈ streams, ∀ b ∈ s.backing, b.Holds d) : Whole d' params streams := by
  obtain ⟨id, gs, ok, same⟩ := h
  refine ⟨id, gs, ?_, same⟩
  rw [← ok]
  refine groupsSame keeps.id fun n member => ?_
  obtain ⟨b, behind, rfl⟩ := List.mem_map.mp member
  obtain ⟨s, there, inside⟩ := List.mem_flatMap.mp behind
  have holds := backed s there b inside
  obtain ⟨data, payload⟩ := holds.stream
  exact ⟨(keeps.holds holds).1.trans holds.1.symm,
    (keeps.payloads _ _ payload).trans payload.symm⟩

theorem Whole.revised {touched : Option Nat} (h : Whole d params streams)
    (revised : d.Revised touched d') (backed : ∀ s ∈ streams, ∀ b ∈ s.backing, b.Holds d)
    (payloads : ∀ i data, d.streamData i = .ok data → d'.streamData i = .ok data) :
    Whole d' params streams :=
  h.keeps ⟨revised.id, fun holds => holds.revised revised, payloads⟩ backed

theorem Whole.watches (h : Whole d params streams) (ws : List Watch) :
    Whole { d with watches := ws } params streams := by
  obtain ⟨id, gs, ok, same⟩ := h
  refine ⟨id, gs, ?_, same⟩
  rw [← ok]
  exact groupsSame rfl fun n member => ⟨rfl, rfl⟩

end ContentStream

namespace Page
open Document ContentStream

variable {still : Prop} {d d' : Document} {i : Nat} {p : Page} {c : Change}

structure Attached (still : Prop) (d : Document) (i : Nat) (p : Page) : Prop where
  dict : d.kind p.node = .ok .dict
  own : ⟨p.node, .page i⟩ ∈ d.watches
  entry : ∀ n, p.watched = some n → n ≠ p.node ∧ ⟨n, .page i⟩ ∈ d.watches
  backed : ∀ s ∈ p.streams, ∀ b ∈ s.backing, b.Holds d
  whole : still → p.valid = true → Whole d p.params p.streams
  grounded : Grounded d p.node

def Following (d : Document) (p : Page) : Prop :=
  ∀ c, contentsNode? d p.node = .ok c → p.watched = c

def InStep (d : Document) (p : Page) : Prop :=
  p.valid = true → ∀ v, d.property? p.node contents = .ok (some v) →
    contentNodes d p.node = .ok (nodes p.streams)

def Touches (c : Change) (p : Page) : Prop :=
  c.node = p.node ∧ ∃ old, c.kind = .entry contents old

theorem Attached.revised {touched : Option Nat} (h : Attached still d i p)
    (revised : d.Revised touched d') (grounded : Grounded d' p.node)
    (payloads : still → ∀ i data, d.streamData i = .ok data → d'.streamData i = .ok data) :
    Attached still d' i p where
  dict := revised.kind h.dict
  own := by
    rw [revised.watches]
    exact h.own
  entry := by
    rw [revised.watches]
    exact h.entry
  backed s there b inside := (h.backed s there b inside).revised revised
  whole quiet valid := (h.whole quiet valid).revised revised h.backed (payloads quiet)
  grounded := grounded

theorem Attached.watches (h : Attached still d i p) {ws : List Watch}
    (same : ∀ n, ⟨n, .page i⟩ ∈ d.watches → ⟨n, .page i⟩ ∈ ws) :
    Attached still { d with watches := ws } i p where
  dict := h.dict
  own := same _ h.own
  entry n watched := ⟨(h.entry n watched).1, same n (h.entry n watched).2⟩
  backed := h.backed
  whole quiet valid := (h.whole quiet valid).watches ws
  grounded := h.grounded

theorem revisedProperty {touched : Option Nat} (revised : d.Revised touched d') {x : Nat} {k : Kind}
    (there : d.kind x = .ok k) (other : some x ≠ touched) (key : String) :
    d'.property? x key = d.property? x key := by
  obtain ⟨n, found, -⟩ := kindOk.mp there
  have found' := revised.untouched found other
  simp only [Document.property?, entries, nodeOk.mpr found, nodeOk.mpr found', bind, Except.bind]

theorem changedProperty (changed : d.Changed d' c) (h : d.kind p.node = .ok .dict)
    (untouched : ¬ Touches c p) : d'.property? p.node contents = d.property? p.node contents := by
  by_cases here : c.node = p.node
  · obtain ⟨key, old, told, -, others⟩ := changed.entries (here ▸ h)
    have other : contents ≠ key := by
      rintro rfl
      exact untouched ⟨here, old, told⟩
    have same := others contents other
    rwa [here] at same
  · exact revisedProperty changed.toRevised h (by simpa using Ne.symm here) contents

theorem touchedProperty (changed : d.Changed d' c) (h : d.kind p.node = .ok .dict)
    (touches : Touches c p) : d'.property? p.node contents = .ok c.value := by
  obtain ⟨here, old, told⟩ := touches
  obtain ⟨key, old', told', value, -⟩ := changed.entries (here ▸ h)
  rw [told] at told'
  cases told'
  rwa [here] at value

theorem Following.revised {touched : Option Nat} (h : Following d p) (revised : d.Revised touched d')
    (grounded : Grounded d p.node)
    (entry : d'.property? p.node contents = d.property? p.node contents) : Following d' p := by
  intro c ok
  rw [revisedContentsNode revised grounded entry] at ok
  exact h c ok

theorem InStep.revised {touched : Option Nat} (h : InStep d p) (following : Following d p)
    (revised : d.Revised touched d')
    (entry : d'.property? p.node contents = d.property? p.node contents)
    (other : ∀ n, p.watched = some n → some n ≠ touched) : InStep d' p := by
  intro valid v found
  rw [entry] at found
  exact revisedContentNodes revised entry (fun n ok => other n (following _ ok)) (h valid v found)

theorem readGroupsKept (sound : d.Sound) {next : Nat} {gs : List ContentStream}
    (ok : p.readGroups d next = .ok gs) :
    contentNodes d p.node = .ok (nodes gs) ∧ (∀ s ∈ gs, ∀ b ∈ s.backing, b.Holds d) ∧
    Whole d p.params gs ∧ gs.map ContentStream.id = List.range' next gs.length ∧
    ∀ s ∈ gs, read d s.id s.backing p.params = .ok s := by
  obtain ⟨ns, found, ok⟩ := bindOk.mp ok
  obtain ⟨same, resolved, numbers, each⟩ := groupsOf ok
  subst same
  refine ⟨found, fun s there b inside => ?_, ⟨next, gs, ok, rfl⟩, numbers, each⟩
  have behind : b ∈ gs.flatMap ContentStream.backing := List.mem_flatMap.mpr ⟨s, there, inside⟩
  have resolves := resolved b behind
  exact ⟨resolves, contentNodesBacked sound found (List.mem_map_of_mem behind) resolves⟩

end Page

end PageContent
