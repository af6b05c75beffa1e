import PageContent.Proofs.Workspace.Elsewhere
import PageContent.Proofs.Workspace.Leads

/-! Pages that share streams but neither dictionaries nor arrays are strangers: whatever one of
them is asked to do leaves the other as it was. -/
namespace PageContent

namespace Document
variable {d d' : Document} {id : Nat} {n n' : Node}

theorem propertySame (there : d.nodes[id]? = some n) (there' : d'.nodes[id]? = some n')
    (same : n'.data = n.data) (key : String) : d'.property? id key = d.property? id key := by
  simp only [property?, entries, nodeOk.mpr there, nodeOk.mpr there', bind, Except.bind, same]

theorem itemsSame (there : d.nodes[id]? = some n) (there' : d'.nodes[id]? = some n')
    (same : n'.data = n.data) : d'.items id = d.items id := by
  simp only [items, nodeOk.mpr there, nodeOk.mpr there', bind, Except.bind, same]

theorem resolveKept (objects : ∀ (k : Nat) v, d.objects[k]? = some v → d'.objects[k]? = some v)
    {v : Value} {m : Nat} (ok : d.resolve v = .ok (some m)) : d'.resolve v = .ok (some m) := by
  cases v with
  | ref r =>
    obtain ⟨k, found, same⟩ := mapOk.mp ok
    refine mapOk.mpr ⟨k, ?_, same⟩
    by_cases usual : r.gen = 0 ∧ r.num ≠ 0
    · simp only [indirect, if_pos usual] at found ⊢
      cases there : d.objects[r.num.toNat - 1]? with
      | none => simp [there] at found
      | some v =>
        rw [objects _ v there]
        rwa [there] at found
    · simp [indirect, if_neg usual] at found
  | node id => exact ok
  | scalar s => cases ok

end Document

namespace Page

def Own (d : Document) (p : Page) (n : Nat) : Prop :=
  n = p.node ∨ contentsNode? d p.node = .ok (some n)

instance (d : Document) (p : Page) (n : Nat) : Decidable (Own d p n) := inferInstanceAs (Decidable (_ ∨ _))

end Page

namespace Workspace
open Page

variable {w w' : Workspace} {touched : Nat → Prop} {j : Nat}

theorem Elsewhere.property (h : Elsewhere touched j w w') {n : Nat} {k : Kind}
    (there : w.home.kind n = .ok k) (other : ¬ touched n) (key : String) :
    w'.home.property? n key = w.home.property? n key := by
  obtain ⟨node, found, -⟩ := Document.kindOk.mp there
  obtain ⟨node', found', same⟩ := h.nodes n other node found
  exact Document.propertySame found found' same key

theorem Elsewhere.items (h : Elsewhere touched j w w') {n : Nat} {k : Kind}
    (there : w.home.kind n = .ok k) (other : ¬ touched n) : w'.home.items n = w.home.items n := by
  obtain ⟨node, found, -⟩ := Document.kindOk.mp there
  obtain ⟨node', found', same⟩ := h.nodes n other node found
  exact Document.itemsSame found found' same

theorem Elsewhere.contents (h : Elsewhere touched j w w') {page n : Nat} {k : Kind}
    (there : w.home.kind page = .ok k) (other : ¬ touched page)
    (ok : contentsNode? w.home page = .ok (some n)) : contentsNode? w'.home page = .ok (some n) := by
  obtain ⟨-, same⟩ | ⟨v, found, resolved⟩ := contentsNodeExact.mp ok
  · cases same
  · refine contentsNodeExact.mpr (.inr ⟨v, ?_, Document.resolveKept h.objects resolved⟩)
    rw [h.property there other, found]

end Workspace

namespace Session
open Workspace Page PageContent.Action

/-- A page that has neither its dictionary nor what `/Contents` resolves to in common with another
page, and is not registered on those of the other page, is left as it is by whatever the other page
is asked to do, whether that succeeds or not: all that it has read and whether it is valid, where it
is registered, the entries of its dictionary, and what is listed in what `/Contents` resolves to. -/
theorem strangersUntouched {calls : List Call} {s : Session} (ran : Ran calls s) {a b : Nat}
    (live : (s.workspace.page b).live = true)
    (apart : ∀ n, Own s.workspace.home (s.workspace.page a) n →
      ¬ Own s.workspace.home (s.workspace.page b) n ∧ ⟨n, .page b⟩ ∉ s.workspace.home.watches)
    (q : Request) {r : Except Fault Unit} {w : Workspace}
    (done : (q.run a).on s.workspace = (r, w)) :
    let d := s.workspace.home
    let p := s.workspace.page b
    w.page b = p ∧ w.registrations b = s.workspace.registrations b ∧
    (∀ key, w.home.property? p.node key = d.property? p.node key) ∧
    ∀ n, contentsNode? d p.node = .ok (some n) →
      contentsNode? w.home p.node = .ok (some n) ∧ w.home.items n = d.items n := by
  intro d p
  have rooted := ran.rooted
  have other : b ≠ a := by
    rintro rfl
    exact (apart _ (.inl rfl)).1 (.inl rfl)
  have deaf : Deaf (Own d (s.workspace.page a)) b s.workspace :=
    ⟨liveInside live, fun _ n own there => (apart n own).2 (List.mem_filter.mp there).1⟩
  have owns : Owns (Own d (s.workspace.page a)) d (s.workspace.page a).node :=
    ⟨.inl rfl, fun _ resolved _ => .inr resolved⟩
  let own : Scope := ⟨True, False, Own d (s.workspace.page a), fun k => k = a, False⟩
  have deeds : Deeds own s.workspace w := deedsAsked (Request.asked rooted.homed done) rfl rooted.homed
    fun _ live => .inr ⟨rooted.sound, rooted.dict a live, owns⟩
  have spared : Elsewhere own.touched b s.workspace w := .deeds deeds trivial other rooted deaf
  have mine (n : Nat) (own : Own d p n) : ¬ Own d (s.workspace.page a) n :=
    fun theirs => (apart n theirs).1 own
  have dict := rooted.dict b live
  refine ⟨spared.page, spared.registrations, spared.property dict (mine _ (.inl rfl)),
    fun n resolved => ?_⟩
  obtain ⟨k, kind⟩ := contentsKind rooted.sound resolved
  exact ⟨spared.contents dict (mine _ (.inl rfl)) resolved, spared.items kind (mine n (.inr resolved))⟩

def listing (r r' : Ref) : Object := .dict [("Contents", .array [.ref r, .ref r'])]

theorem listingKeyed (r r' : Ref) : (listing r r').Keyed :=
  ⟨by simp, ⟨trivial, trivial, trivial⟩, trivial⟩

def strangersCalls : List Call :=
  [.openPage 5 .default .latin1, .openPage 3 .default .latin1,
    .addIndirect (listing ⟨2, 0⟩ ⟨1, 0⟩), .addIndirect (listing ⟨1, 0⟩ ⟨2, 0⟩),
    .addIndirect (.ofData (ascii ['f'])), .addIndirect (.ofData (ascii ['n']))]

theorem strangersRan : Ran strangersCalls (afterAll strangersCalls) := by
  have streams := (Ran.start.call (.addIndirect (.ofData (ascii ['n']))) (keyedData _)).call
    (.addIndirect (.ofData (ascii ['f']))) (keyedData _)
  have dicts := (streams.call (.addIndirect (listing ⟨1, 0⟩ ⟨2, 0⟩)) (listingKeyed _ _)).call
    (.addIndirect (listing ⟨2, 0⟩ ⟨1, 0⟩)) (listingKeyed _ _)
  exact (dicts.call (.openPage 3 .default .latin1) trivial).call (.openPage 5 .default .latin1) trivial

theorem strangersUntouchedByRemoval : Ran strangersCalls (afterAll strangersCalls) ∧
    let before := (afterAll strangersCalls).workspace
    let removed := ((Request.removeAt 0).run 0).on before
    (before.page 1).live = true ∧
    (∀ n, Own before.home (before.page 0) n →
      ¬ Own before.home (before.page 1) n ∧ ⟨n, .page 1⟩ ∉ before.home.watches) ∧
    removed.1 = .ok () ∧ removed.2.page 1 = before.page 1 ∧
    removed.2.registrations 1 = before.registrations 1 ∧
    removed.2.home.items 4 = before.home.items 4 := by
  have named : contentsNode? (afterAll strangersCalls).workspace.home
      ((afterAll strangersCalls).workspace.page 0).node = .ok (some 2) := by decide +kernel
  have apart (n : Nat) (own : Own (afterAll strangersCalls).workspace.home
      ((afterAll strangersCalls).workspace.page 0) n) :
      ¬ Own (afterAll strangersCalls).workspace.home ((afterAll strangersCalls).workspace.page 1) n ∧
        ⟨n, .page 1⟩ ∉ (afterAll strangersCalls).workspace.home.watches := by
    obtain rfl | array := own
    · decide +kernel
    · cases named.symm.trans array
      decide +kernel
  have untouched := strangersUntouched strangersRan (a := 0) (b := 1) (by decide +kernel) apart
    (.removeAt 0) rfl
  exact ⟨strangersRan, by decide +kernel, apart, by decide +kernel, untouched.1, untouched.2.1,
    (untouched.2.2.2 4 (by decide +kernel)).2⟩

end Session

end PageContent
