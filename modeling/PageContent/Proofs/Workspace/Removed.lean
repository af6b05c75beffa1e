import Mathlib.Data.List.Basic
import PageContent.Proofs.ContentStream.Ended
import PageContent.Proofs.Workspace.Rewritten

/-! What is left when a content stream was removed. Each stream behind it is taken off the first
place in `/Contents` that lists it, which is another place where an earlier one lists it too. -/
namespace PageContent

namespace ContentStream

variable {d d' : Document} {params : Params} {id : Nat} {ns : List Nat} {g : ContentStream}
  {before after later streams : List ContentStream}

theorem groupsWithout (ok : groups d id ns params = .ok (before ++ g :: after)) :
    ∃ gs, groups d id (nodes (before ++ after)) params = .ok gs ∧
      gs.map unnumbered = (before ++ after).map unnumbered := by
  induction before generalizing id ns with
  | nil =>
    obtain ⟨mine, rest, -, tail, -⟩ := groupsHead (fun u same => by cases same) ok
    obtain ⟨rfl, -⟩ := groupsOf tail
    exact groupsRenumbered tail id
  | cons b others ih =>
    obtain ⟨mine, rest, rfl, tail, again⟩ := groupsHead (fun u same => by cases same) ok
    obtain ⟨gs, left, same⟩ := ih tail
    have split : nodes (b :: others ++ after) = mine ++ nodes (others ++ after) := by
      rw [headNodes ok tail]
      simp [nodes]
    refine ⟨_, by rw [split]; exact again (.inl (by simp)) id _ _ left, ?_⟩
    simp [same, unnumbered]

theorem groupsLeft (ok : groups d id ns params = .ok (before ++ g :: after)) (keeps : d.Keeps d')
    (backed : ∀ s ∈ before ++ after, ∀ b ∈ s.backing, b.Holds d) {id' : Nat}
    {gs : List ContentStream}
    (left : groups d' id' (nodes (before ++ after)) params = .ok gs) :
    gs.map ContentStream.backing = (before ++ after).map ContentStream.backing := by
  have whole : Whole d params (before ++ after) := ⟨id, groupsWithout ok⟩
  obtain ⟨id, gs', again, same⟩ := whole.keeps keeps backed
  obtain ⟨_, renumbered, same'⟩ := groupsRenumbered again id'
  cases left.symm.trans renumbered
  exact renumberedMap ContentStream.backing (fun _ => rfl) (same'.trans same)

theorem nodesMiddle (before after : List ContentStream) (g : ContentStream) :
    (nodes (before ++ g :: after)).Perm
      (g.backing.map Backing.node ++ nodes (before ++ after)) := by
  have moved : (before ++ g :: after).Perm (g :: (before ++ after)) := List.perm_middle
  simpa [nodes] using (moved.flatMap_right ContentStream.backing).map Backing.node

abbrev Held (d : Document) : Type := { b : Backing // b.Holds d }

namespace Held

def node (b : Held d) : Nat := b.1.node
def ref (b : Held d) : Ref := b.1.ref

theorem nodeInjective : Function.Injective (node (d := d)) := by
  intro b c same
  have first := b.2.1
  have second := c.2.1
  rw [show b.1.node = c.1.node from same, second] at first
  exact Subtype.ext (Except.ok.inj first).symm

theorem refInjective : Function.Injective (ref (d := d)) := by
  intro b c same
  have first := b.2.2
  have second := c.2.2
  rw [show b.1.ref = c.1.ref from same, second] at first
  exact nodeInjective (Except.ok.inj first).symm

theorem ofStreams (holds : ∀ s ∈ streams, ∀ b ∈ s.backing, b.Holds d) :
    ∃ bs : List (Held d), nodes streams = bs.map node ∧ refs streams = bs.map ref := by
  have all : ∀ b ∈ streams.flatMap ContentStream.backing, b.Holds d := fun b member => by
    obtain ⟨s, there, inside⟩ := List.mem_flatMap.mp member
    exact holds s there b inside
  obtain ⟨bs, same⟩ : ∃ bs : List (Held d), bs.map Subtype.val =
      streams.flatMap ContentStream.backing := ⟨_, List.attachWith_map_subtype_val all⟩
  unfold nodes refs
  rw [← same]
  exact ⟨bs, List.map_map, List.map_map⟩

end Held

theorem refsDiff {part gs : List ContentStream} (holds : ∀ s ∈ streams, ∀ b ∈ s.backing, b.Holds d)
    (some : part ⊆ streams) (holds' : ∀ s ∈ gs, ∀ b ∈ s.backing, b.Holds d)
    (left : nodes gs = (nodes streams).diff (nodes part)) :
    refs gs = (refs streams).diff (refs part) := by
  obtain ⟨all, allNodes, allRefs⟩ := Held.ofStreams holds
  obtain ⟨mine, mineNodes, mineRefs⟩ := Held.ofStreams fun s there => holds s (some there)
  obtain ⟨now, nowNodes, nowRefs⟩ := Held.ofStreams holds'
  have those : now = all.diff mine := by
    apply List.map_injective_iff.mpr Held.nodeInjective
    rw [List.map_diff Held.nodeInjective, ← nowNodes, ← allNodes, ← mineNodes, left]
  rw [nowRefs, those, List.map_diff Held.refInjective, ← allRefs, ← mineRefs]

theorem nodesOfRefs {gs : List ContentStream} (holds : ∀ s ∈ streams, ∀ b ∈ s.backing, b.Holds d)
    (holds' : ∀ s ∈ gs, ∀ b ∈ s.backing, b.Holds d) (same : refs gs = refs streams) :
    nodes gs = nodes streams := by
  obtain ⟨rest, restNodes, restRefs⟩ := Held.ofStreams holds
  obtain ⟨now, nowNodes, nowRefs⟩ := Held.ofStreams holds'
  have those : now = rest := by
    apply List.map_injective_iff.mpr Held.refInjective
    rw [← nowRefs, ← restRefs, same]
  rw [nowNodes, those, ← restNodes]

end ContentStream

theorem diffMiddle {α : Type} [DecidableEq α] {before middle after : List α}
    (apart : ∀ a ∈ middle, a ∉ before) :
    (before ++ (middle ++ after)).diff middle = before ++ after := by
  induction middle with
  | nil => rfl
  | cons a rest ih =>
    rw [List.diff_cons, List.erase_append_right _ (apart a List.mem_cons_self), List.cons_append,
      List.erase_cons_head]
    exact ih fun x member => apart x (List.mem_cons_of_mem _ member)

namespace Workspace
open Page PageContent.Action ContentStream

variable {w w' : Workspace} {i : Nat} {p : Page} {g : ContentStream}
  {before after : List ContentStream}

theorem unlistDone (rooted : Rooted w) (here : p.document = 0) {r : Ref} {d : Document} {c : Change}
    (ok : unlisted w.home p.node r = .ok (d, c)) : ∃ w' ws, (unlistRef p r).on w = (.ok (), w') ∧
      Rooted w' ∧ w'.home = { d with watches := ws } ∧ w.home.Keeps w'.home := by
  rw [unlistRefOn here]
  exact changeDone rooted
    (fun sound ok => ⟨(unlistedHarmless sound ok).changed, (unlistedHarmless sound ok).quiet⟩) ok

theorem unlistedAll (rooted : Rooted w) (here : p.document = 0)
    (dict : w.home.kind p.node = .ok .dict) {bs : List Backing} {ns rest : List Nat}
    (names : contentNodes w.home p.node = .ok ns) (some : ns.Perm (bs.map Backing.node ++ rest))
    (holds : ∀ b ∈ bs, b.Holds w.home) :
    ∃ w', (bs.forM fun b => unlistRef p b.ref : Action Unit).on w = (.ok (), w') ∧
      contentNodes w'.home p.node = .ok (ns.diff (bs.map Backing.node)) ∧ w.home.Keeps w'.home := by
  induction bs generalizing w ns with
  | nil => exact ⟨w, rfl, names, .refl _⟩
  | cons b others ih =>
    obtain ⟨d, c, taken, left⟩ := unlistedNodes rooted.sound dict names
      (some.mem_iff.mpr (by simp)) (holds b List.mem_cons_self).1
    obtain ⟨w₁, ws, first, rooted₁, home, keeps⟩ := unlistDone rooted here taken
    have names₁ : contentNodes w₁.home p.node = .ok (ns.erase b.node) := by
      rw [home, contentNodesWatches]
      exact left
    have dict₁ : w₁.home.kind p.node = .ok .dict := by
      rw [home]
      exact (unlistedHarmless rooted.sound taken).changed.kind dict
    have some₁ : (ns.erase b.node).Perm (others.map Backing.node ++ rest) := by
      have less := some.erase b.node
      rwa [List.map_cons, List.cons_append, List.erase_cons_head] at less
    obtain ⟨w', later, last, keeps'⟩ := ih rooted₁ dict₁ names₁ some₁
      fun b member => keeps.holds (holds b (List.mem_cons_of_mem _ member))
    refine ⟨w', (thenBound first _).trans later, ?_, keeps.trans keeps'⟩
    rw [last, List.map_cons, List.diff_cons]

theorem keptRefs (old streams : List ContentStream) :
    refs (streams.map (kept old)) = refs streams := by
  unfold refs
  rw [List.flatMap_map]
  simp only [keptBacking]

theorem removedRead (rooted : Rooted w) {next : Nat}
    (read : (w.page i).readGroups w.home next = .ok (w.page i).streams)
    (split : (w.page i).streams = before ++ g :: after)
    (done : (removeStream i g).on w = (.ok (), w')) :
    w.home.Keeps w'.home ∧ (w'.page i).params = (w.page i).params ∧ ∃ next' gs,
      (w'.page i).readGroups w'.home next' = .ok gs ∧
      (w'.page i).streams = gs.map (kept (w.page i).streams) ∧
      nodes gs = (nodes (w.page i).streams).diff (nodes [g]) := by
  cases Request.askedRemove (q := .removeStream g) rooted.homed (.inl rfl) done with
  | answered idle => cases idle
  | exchanged moves _ _ _ _ => cases moves
  | removed which live _ _ run ends =>
    cases Request.removesSame which
    have here := rooted.here i live
    obtain ⟨-, homed, live₁, page⟩ := (Leads.unlistAll here g.backing).done rooted.homed live run
    obtain ⟨rfl, ws, next', gs, home, remains, params, again, streams⟩ := ends.reads homed live₁
    have node := remains.node
    rw [page] at node params streams
    obtain ⟨names, holds, -⟩ := readGroupsKept rooted.sound read
    have some : (nodes (w.page i).streams).Perm
        (g.backing.map Backing.node ++ nodes (before ++ after)) := split ▸ nodesMiddle before after g
    obtain ⟨_, again', left, keeps⟩ := unlistedAll (rooted.hush i) here
      (rooted.dict i live) names some (holds g (by rw [split]; simp))
    cases run.symm.trans again'
    obtain ⟨ns, names', groups⟩ := bindOk.mp again
    obtain ⟨rfl, -⟩ := groupsOf groups
    refine ⟨home ▸ keeps.watches ws, params, next', gs, again, streams, ?_⟩
    rw [node, home, contentNodesWatches, left] at names'
    rw [← Except.ok.inj names']
    simp [nodes]

theorem removedStream (rooted : Rooted w) {next : Nat}
    (read : (w.page i).readGroups w.home next = .ok (w.page i).streams)
    (split : (w.page i).streams = before ++ g :: after)
    (done : (removeStream i g).on w = (.ok (), w')) :
    w'.references i = (refs (w.page i).streams).diff (refs [g]) ∧
    w'.references i = refs (w'.page i).streams ∧
    (w'.references i = refs (before ++ after) →
      (w'.page i).streams.map ContentStream.backing =
        (before ++ after).map ContentStream.backing) := by
  have asked := Request.askedRemove (q := .removeStream g) rooted.homed (.inl rfl) done
  have sound : w'.home.Sound := (rooted.asked asked).sound
  obtain ⟨-, holds, -⟩ := readGroupsKept rooted.sound read
  obtain ⟨keeps, params, next', gs, again, streams, left⟩ :=
    removedRead rooted read split done
  obtain ⟨names, holds', -⟩ := readGroupsKept sound again
  have listed : w'.references i = refs gs := referencesRead sound holds' names
  have stand : ∀ s ∈ (w.page i).streams, ∀ b ∈ s.backing, b.Holds w'.home :=
    fun s there b inside => keeps.holds (holds s there b inside)
  refine ⟨?_, ?_, fun cut => ?_⟩
  · rw [listed, refsDiff stand (by rw [split]; simp) holds' left]
  · rw [listed, streams, keptRefs]
  · have part : before ++ after ⊆ (w.page i).streams := by rw [split]; simp
    have same := nodesOfRefs (fun s there => stand s (part there)) holds' (listed ▸ cut)
    obtain ⟨_, _, groups⟩ := bindOk.mp read
    obtain ⟨_, _, groups'⟩ := bindOk.mp again
    obtain ⟨rfl, -⟩ := groupsOf groups'
    rw [split] at groups
    rw [params, same] at groups'
    have those := groupsLeft groups keeps (fun s there => holds s (part there)) groups'
    rw [streams, List.map_map, ← those]
    exact List.map_congr_left fun g _ => keptBacking _ g

theorem removedAt {index : Nat} (done : (removeAt i index).on w = (.ok (), w')) : ∃ before g after,
    (w.page i).streams = before ++ g :: after ∧ before.length = index ∧
    (removeStream i g).on w = (.ok (), w') := by
  obtain ⟨g, w₁, first, done⟩ := boundOk done
  obtain ⟨-, first⟩ := boundLiveOk first
  split at first
  · rename_i s there
    cases first
    obtain ⟨inside, rfl⟩ := List.getElem?_eq_some_iff.mp there
    refine ⟨(w.page i).streams.take index, _, (w.page i).streams.drop (index + 1), ?_, ?_, done⟩
    · rw [← List.drop_eq_getElem_cons inside, List.take_append_drop]
    · rw [List.length_take]
      omega
  · cases first

theorem loadDone (rooted : Rooted w) (done : (Action.load i).on w = (.ok (), w')) : Rooted w' ∧
    ∃ next, (w'.page i).readGroups w'.home next = .ok (w'.page i).streams := by
  refine ⟨rooted.asked (Request.askedLoad done), w.nextStream, ?_⟩
  obtain ⟨_, failed, -⟩ | ⟨gs, -, read, home, page⟩ := loadCases rooted done
  · cases failed
  · rw [home, page]
    exact read

end Workspace

namespace Session
open Workspace Page ContentStream PageContent.Action

/-- When a content stream is removed right after the page was read, each stream behind it is taken
off the first place where `/Contents` listed it, nothing else is, and the page holds what is listed
then. Exactly that content stream is cut out if no earlier one has a stream in common with it, and
where the list is the one with it cut out, so is what the page holds. -/
theorem removedByReference {calls : List Call} {s : Session} (ran : Ran calls s) {i index : Nat}
    {w w' : Workspace} (loaded : (Action.load i).on s.workspace = (.ok (), w))
    (done : (removeAt i index).on w = (.ok (), w')) : ∃ before g after,
    (w.page i).streams = before ++ g :: after ∧ before.length = index ∧
    w.references i = refs before ++ refs [g] ++ refs after ∧
    w'.references i = (w.references i).diff (refs [g]) ∧
    w'.references i = refs (w'.page i).streams ∧
    ((∀ r ∈ refs [g], r ∉ refs before) → w'.references i = refs before ++ refs after) ∧
    (w'.references i = refs before ++ refs after →
      (w'.page i).streams.map ContentStream.backing =
        (before ++ after).map ContentStream.backing) := by
  obtain ⟨rooted, next, read⟩ := loadDone ran.rooted loaded
  obtain ⟨before, g, after, split, place, done⟩ := removedAt done
  obtain ⟨taken, listed, others⟩ := removedStream rooted read split done
  obtain ⟨names, holds, -⟩ := readGroupsKept rooted.sound read
  have all : w.references i = refs (w.page i).streams := referencesRead rooted.sound holds names
  have parts : refs (w.page i).streams = refs before ++ (refs [g] ++ refs after) := by
    rw [split]
    simp [refs]
  have left : refs (before ++ after) = refs before ++ refs after := by simp [refs]
  refine ⟨before, g, after, split, place, ?_, ?_, listed, fun apart => ?_, fun cut => ?_⟩
  · rw [all, parts, List.append_assoc]
  · rw [all, taken]
  · rw [taken, parts, diffMiddle apart]
  · exact others (left ▸ cut)

def repeatedCalls : List Call :=
  [.openPage 3 .default .latin1,
    .addIndirect (.dict [("Contents", .array [.ref ⟨1, 0⟩, .ref ⟨2, 0⟩, .ref ⟨1, 0⟩])]),
    .addIndirect (.ofData (ascii ['f'])), .addIndirect (.ofData (ascii ['n']))]

theorem repeatedRan : Ran repeatedCalls (afterAll repeatedCalls) := by
  have keyed : (Object.dict [("Contents", .array [.ref ⟨1, 0⟩, .ref ⟨2, 0⟩, .ref ⟨1, 0⟩])]).Keyed :=
    ⟨by simp, ⟨trivial, trivial, trivial, trivial⟩, trivial⟩
  have streams := (Ran.start.call (.addIndirect (.ofData (ascii ['n']))) (keyedData _)).call
    (.addIndirect (.ofData (ascii ['f']))) (keyedData _)
  exact (streams.call (.addIndirect (.dict [("Contents", .array [.ref ⟨1, 0⟩, .ref ⟨2, 0⟩,
    .ref ⟨1, 0⟩])])) keyed).call (.openPage 3 .default .latin1) trivial

theorem firstRemoved : Ran repeatedCalls (afterAll repeatedCalls) ∧
    let loaded := (Action.load 0).on (afterAll repeatedCalls).workspace
    let removed := (removeAt 0 0).on loaded.2
    loaded.1 = .ok () ∧ removed.1 = .ok () ∧ ∃ g after,
      (loaded.2.page 0).streams = g :: after ∧ removed.2.references 0 = refs after ∧
      (removed.2.page 0).streams.map ContentStream.backing = after.map ContentStream.backing := by
  have loaded : ((Action.load 0).on (afterAll repeatedCalls).workspace).1 = .ok () := by
    decide +kernel
  have removed : ((removeAt 0 0).on
      ((Action.load 0).on (afterAll repeatedCalls).workspace).2).1 = .ok () := by decide +kernel
  obtain ⟨before, g, after, split, place, -, -, -, apart, others⟩ :=
    removedByReference repeatedRan (Prod.ext loaded rfl) (Prod.ext removed rfl)
  obtain rfl := List.length_eq_zero_iff.mp place
  have cut := apart fun r _ there => by cases there
  exact ⟨repeatedRan, loaded, removed, g, after, split, cut, others cut⟩

theorem firstRemovedForLast : Ran repeatedCalls (afterAll repeatedCalls) ∧
    let loaded := (Action.load 0).on (afterAll repeatedCalls).workspace
    let removed := (removeAt 0 2).on loaded.2
    loaded.1 = .ok () ∧ removed.1 = .ok () ∧
    (loaded.2.page 0).streams.map (fun s => refs [s]) = [[⟨1, 0⟩], [⟨2, 0⟩], [⟨1, 0⟩]] ∧
    loaded.2.references 0 = [⟨1, 0⟩, ⟨2, 0⟩, ⟨1, 0⟩] ∧
    removed.2.references 0 = [⟨2, 0⟩, ⟨1, 0⟩] ∧
    (removed.2.page 0).streams.map (fun s => refs [s]) = [[⟨2, 0⟩], [⟨1, 0⟩]] :=
  ⟨repeatedRan, by decide +kernel, by decide +kernel, by decide +kernel, by decide +kernel,
    by decide +kernel, by decide +kernel⟩

end Session

end PageContent
