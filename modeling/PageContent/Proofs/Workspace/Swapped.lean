import PageContent.Proofs.Workspace.UpToDate

/-! A move and the move back. The list is written anew in another order and read again from the
start; what comes of it is the list in that order if no content stream leaves a block open. -/
namespace PageContent

theorem Action.exchangedMiddle {α : Type} (before after : List α) (x y : α) :
    exchanged (before ++ x :: y :: after) before.length (before.length + 1) =
      before ++ y :: x :: after := by
  simp [exchanged]

theorem splitTwo {α : Type} (l : List α) {k : Nat} (inside : k + 1 < l.length) :
    ∃ before x y after, before.length = k ∧ l = before ++ x :: y :: after := by
  refine ⟨l.take k, l[k], l[k + 1], l.drop (k + 2), by simp; omega, ?_⟩
  rw [← List.drop_eq_getElem_cons inside, ← List.drop_eq_getElem_cons, List.take_append_drop]

namespace Workspace
open Page PageContent.Action ContentStream

variable {w w' : Workspace} {i : Nat} {p : Page} {streams : List ContentStream}

theorem clearedDone (rooted : Rooted w) (here : p.document = 0)
    (dict : w.home.kind p.node = .ok .dict) : ∃ w' found,
    w.home.property? p.node contents = .ok found ∧
    (if found.isSome then delProperty p.document p.node contents else pure () : Action Unit).on w =
      (.ok (), w') ∧ Rooted w' ∧ w'.home.kind p.node = .ok .dict ∧ w.home.Keeps w'.home := by
  obtain ⟨n, es, there, data⟩ := Document.dictOk.mp dict
  have entries := Document.entriesOk.mpr ⟨n, there, show n.data.entries? = some es by rw [data]; rfl⟩
  have entry : w.home.property? p.node contents = .ok (es.get? contents) :=
    Document.propertyOk.mpr ⟨es, entries, rfl⟩
  rw [here]
  cases found : es.get? contents with
  | none => exact ⟨w, none, found ▸ entry, rfl, rooted, dict, .refl _⟩
  | some v =>
    rw [found] at entry
    obtain ⟨d, c, gone⟩ := delPropertyThere entry
    obtain ⟨w', ws, done, rooted', home, keeps⟩ := changeDone rooted
      (fun sound ok => Document.delPropertyChanged sound ok) gone
    refine ⟨w', some v, entry, done, rooted', ?_, keeps⟩
    rw [home]
    exact (delHarmless rooted.sound gone).changed.kind dict

theorem writtenDone (rooted : Rooted w) (here : p.document = 0)
    (dict : w.home.kind p.node = .ok .dict) (holds : ∀ s ∈ streams, ∀ b ∈ s.backing, b.Holds w.home) :
    ∃ w' m, (writeList p streams).on w = (.ok (), w') ∧ w.home.Keeps w'.home ∧
      contentNodes w'.home p.node = .ok (nodes streams) ∧
      w'.home.property? p.node contents = .ok (some (.node m)) ∧
      w'.home.items m = .ok ((refs streams).map .ref) := by
  obtain ⟨w₁, found, entry, cleared, rooted₁, dict₁, keeps₁⟩ := clearedDone rooted here dict
  obtain ⟨d, c, m, written, entry', -, items, -⟩ := arrayWritten dict₁ (refs streams)
  obtain ⟨_, _, again, names⟩ := arrayNodes dict₁ (streams.flatMap ContentStream.backing)
    fun b member => by
      obtain ⟨s, there, inside⟩ := List.mem_flatMap.mp member
      exact (keeps₁.holds (holds s there b inside)).2
  cases written.symm.trans again
  obtain ⟨w', ws, done, -, home, keeps⟩ := changeDone rooted₁
    (fun sound ok => Document.setPropertyChanged sound (keyedRefs (refs streams)) ok) written
  refine ⟨w', m, ?_, keeps₁.trans keeps, ?_, ?_, ?_⟩
  · unfold writeList
    rw [documentBound here, liftBound, entry, refsObjects]
    dsimp only
    split
    · rename_i there
      rw [if_pos there] at cleared
      rw [thenBound cleared, here]
      exact done
    · rename_i absent
      rw [if_neg absent] at cleared
      cases cleared
      rw [here]
      exact done
  · rw [home, contentNodesWatches]
    exact names
  · rw [home]
    exact entry'
  · rw [home]
    exact items

theorem exchangeDone (rooted : Rooted w) (h : UpToDate i w) (distinct : (w.references i).Nodup)
    (ended : ∀ g ∈ (w.page i).streams, g.tree.Ended) (a b : Nat) :
    ∃ w', (exchange i a b).on w = (.ok (), w') ∧ Rooted w' ∧ UpToDate i w' ∧
      (w'.page i).streams = exchanged (w.page i).streams a b ∧
      ∃ m, w'.home.property? (w'.page i).node contents = .ok (some (.node m)) ∧
        w'.home.items m = .ok ((refs (w'.page i).streams).map .ref) := by
  have here := rooted.here i h.live
  have named := h.named rooted
  have part : exchanged (w.page i).streams a b ⊆ (w.page i).streams :=
    (exchangedPerm _ a b).subset
  obtain ⟨w₁, m, run, keeps, names, entry, items⟩ := writtenDone (rooted.hush i) here
    (rooted.dict i h.live) fun s there => named.holds s (part there)
  obtain ⟨w₂, w₃, w₄, quiet, read, counted, rooted₄, fresh, ⟨ws, home⟩, node, streams⟩ :=
    h.rearranged rooted distinct ended (Leads.writeList here _) run keeps part names
  refine ⟨w₄, ?_, rooted₄, fresh, streams, m, ?_, ?_⟩
  · unfold exchange
    rw [liveBound h.live, thenBound quiet, thenBound read, counted]
  · rw [node, home]
    exact entry
  · rw [streams, home]
    exact items

theorem raiseAtInside {k : Nat} (inside : k + 1 < (w.page i).streams.length) :
    (raiseAt i k).on w = (exchange i k (k + 1)).on w := by
  unfold raiseAt
  rw [getBound]
  dsimp only
  rw [if_neg (by omega)]

theorem lowerAtInside {k : Nat} (inside : k + 1 < (w.page i).streams.length) :
    (lowerAt i (k + 1)).on w = (exchange i k (k + 1)).on w := by
  unfold lowerAt
  rw [getBound]
  dsimp only
  rw [if_neg (by simp; omega)]
  rfl

end Workspace

namespace Session
open Workspace Page ContentStream PageContent.Action

/-- What a page holds was just read, `/Contents` names each stream once, and no content stream
leaves a block open. Then a move up exchanges two content streams and changes nothing of them,
`/Contents` is an array of the references behind the list, and the move down brings the list and
the references back. A move past an end is refused and nothing changes. -/
theorem movedAndBack {calls : List Call} {s : Session} (ran : Ran calls s) {i : Nat}
    (fresh : UpToDate i s.workspace) (distinct : (s.workspace.references i).Nodup)
    (ended : ∀ g ∈ (s.workspace.page i).streams, g.tree.Ended) :
    let w := s.workspace
    let n := (w.page i).streams.length
    (∀ k, k + 1 < n → ∃ before g h after w' w'', before.length = k ∧
      (w.page i).streams = before ++ g :: h :: after ∧
      (raiseAt i k).on w = (.ok (), w') ∧
      (w'.page i).streams = before ++ h :: g :: after ∧
      (∃ m, w'.home.property? (w'.page i).node contents = .ok (some (.node m)) ∧
        w'.home.items m = .ok ((refs (before ++ h :: g :: after)).map .ref)) ∧
      (lowerAt i (k + 1)).on w' = (.ok (), w'') ∧
      (w''.page i).streams = (w.page i).streams ∧ w''.references i = w.references i) ∧
    (∀ k, n ≤ k + 1 → (raiseAt i k).on w = (.error (.outOfRange k n), w)) ∧
    ∀ k, k = 0 ∨ n ≤ k → (lowerAt i k).on w = (.error (.outOfRange k n), w) := by
  intro w n
  refine ⟨fun k inside => ?_, fun _ => Request.raiseAtPast, fun _ => Request.lowerAtPast⟩
  obtain ⟨before, g, h, after, rfl, split⟩ := splitTwo _ inside
  obtain ⟨w', done, rooted', fresh', streams', m, entry, items⟩ :=
    exchangeDone ran.rooted fresh distinct ended before.length (before.length + 1)
  rw [split, exchangedMiddle] at streams'
  have moved : ((w'.page i).streams).Perm (w.page i).streams := by
    rw [streams', split]
    exact .append_left _ (.swap g h after)
  have distinct' : (w'.references i).Nodup := by
    rw [fresh'.references rooted', (refsPerm moved).nodup_iff, ← fresh.references ran.rooted]
    exact distinct
  obtain ⟨w'', done', rooted'', fresh'', streams'', -⟩ := exchangeDone rooted' fresh' distinct'
    (fun g there => ended g (moved.mem_iff.mp there)) before.length (before.length + 1)
  rw [streams', exchangedMiddle, ← split] at streams''
  refine ⟨before, g, h, after, w', w'', rfl, split, ?_, streams', ⟨m, entry, streams' ▸ items⟩, ?_,
    streams'', ?_⟩
  · rw [raiseAtInside inside]
    exact done
  · rw [lowerAtInside (by rw [moved.length_eq]; exact inside)]
    exact done'
  · rw [fresh''.references rooted'', streams'', ← fresh.references ran.rooted]

def groupedCalls : List Call :=
  [.openPage 4 .default .latin1,
    .addIndirect (.dict [("Contents", .array [.ref ⟨1, 0⟩, .ref ⟨2, 0⟩, .ref ⟨3, 0⟩])]),
    .addIndirect (.ofData (ascii ['n'])), .addIndirect (.ofData (ascii ['E', 'T'])),
    .addIndirect (.ofData (ascii ['B', 'T']))]

theorem groupedRan : Ran groupedCalls (afterAll groupedCalls) := by
  have keyed : (Object.dict [("Contents", .array [.ref ⟨1, 0⟩, .ref ⟨2, 0⟩, .ref ⟨3, 0⟩])]).Keyed :=
    ⟨by simp, ⟨trivial, trivial, trivial, trivial⟩, trivial⟩
  have streams := ((Ran.start.call (.addIndirect (.ofData (ascii ['B', 'T']))) (keyedData _)).call
    (.addIndirect (.ofData (ascii ['E', 'T']))) (keyedData _)).call
    (.addIndirect (.ofData (ascii ['n']))) (keyedData _)
  exact (streams.call (.addIndirect (.dict [("Contents", .array [.ref ⟨1, 0⟩, .ref ⟨2, 0⟩,
    .ref ⟨3, 0⟩])])) keyed).call (.openPage 4 .default .latin1) trivial

theorem movedAndBackOfGroup : Ran groupedCalls (afterAll groupedCalls) ∧
    let w := (afterAll (.load 0 :: groupedCalls)).workspace
    UpToDate 0 w ∧ (w.page 0).streams.map (fun s => refs [s]) = [[⟨1, 0⟩, ⟨2, 0⟩], [⟨3, 0⟩]] ∧
    ∃ w' w'', (raiseAt 0 0).on w = (.ok (), w') ∧ (lowerAt 0 1).on w' = (.ok (), w'') ∧
      (w''.page 0).streams = (w.page 0).streams := by
  have ran : Ran (.load 0 :: groupedCalls) (afterAll (.load 0 :: groupedCalls)) :=
    groupedRan.call (.load 0) trivial
  have fresh : UpToDate 0 (afterAll (.load 0 :: groupedCalls)).workspace :=
    groupedRan.upToDate (by decide +kernel)
  have groups : ((afterAll (.load 0 :: groupedCalls)).workspace.page 0).streams.map
      (fun s => refs [s]) = [[⟨1, 0⟩, ⟨2, 0⟩], [⟨3, 0⟩]] := by decide +kernel
  have two := congrArg List.length groups
  rw [List.length_map] at two
  obtain ⟨moves, -⟩ := movedAndBack ran fresh (by decide +kernel) (by decide +kernel)
  obtain ⟨_, _, _, _, w', w'', _, _, done, _, _, back, streams, -⟩ := moves 0 (by rw [two]; decide)
  exact ⟨groupedRan, fresh, groups, w', w'', done, back, streams⟩

end Session

end PageContent
