import PageContent.Proofs.Workspace.Signalled

/-! What an edit adds to a page is one new stream and one reference to it. All else stays, in the
page's dictionary, in other containers and among the objects of the document. -/
namespace PageContent

namespace Page
open Document

variable {d d' : Document} {page n m : Nat} {r : Ref} {c : Change} {side : Action.Side}

def Edits (d : Document) (page n : Nat) : Prop :=
  n = page ∨ contentsNode? d page = .ok (some n) ∧ d.kind n = .ok .array

theorem ownEdits (d : Document) (page : Nat) : Owns (Edits d page) d page :=
  ⟨.inl rfl, fun _ resolved array => .inr ⟨resolved, array⟩⟩

theorem Edits.inside (h : Edits d page n) (dict : d.kind page = .ok .dict) : n < d.nodes.size := by
  have there {k : Kind} (kind : d.kind n = .ok k) : n < d.nodes.size := by
    obtain ⟨node, there, -⟩ := kindOk.mp kind
    exact (Array.getElem?_eq_some_iff.mp there).1
  obtain rfl | ⟨-, array⟩ := h
  · exact there dict
  · exact there array

theorem addedReferences (sound : d.Sound) (dict : d.kind page = .ok .dict) {data : Bytes}
    (added : d.addIndirect (.ofData data) = (d', r)) : references d' page = references d page := by
  have stored := addIndirectRevised sound (keyedData data) added
  have entry := revisedProperty stored dict (by simp) contents
  cases found : d.property? page contents with
  | error fault => rw [references, references, entry, found]
  | ok v =>
    cases v with
    | none => rw [references, references, entry, found]
    | some v =>
      have same : itemsOf? d' v = itemsOf? d v := by
        refine Option.ext fun items => ⟨fun now => ?_, fun before => ?_⟩
        · obtain ⟨node, resolved, array⟩ := arrayOfItems now
          have named := contentsNodeExact.mpr (.inr ⟨v, entry.trans found, resolved⟩)
          obtain ⟨before, kind⟩ := addedContents sound dict added named (itemsKind array)
          obtain ⟨x, there, -⟩ := kindOk.mp kind
          obtain ⟨-, absent⟩ | ⟨_, again, resolved'⟩ := contentsNodeExact.mp before
          · cases absent
          · cases found.symm.trans again
            obtain ⟨x', there', data⟩ := itemsOk.mp array
            cases (stored.untouched there (by simp)).symm.trans there'
            exact itemsOfArray resolved' (itemsOk.mpr ⟨x, there, data⟩)
        · obtain ⟨node, resolved, array⟩ := arrayOfItems before
          exact itemsOfArray (stored.resolve resolved) (stored.items array (by simp))
      rw [referencesOf found, referencesOf (entry.trans found), same]

theorem listedReferences (sound : d.Sound) (dict : d.kind page = .ok .dict)
    (found : d.indirect r = .ok m) (stream : d.kind m = .ok .stream)
    (ok : listed d page r side = .ok (d', c)) :
    references d' page = side.put r (references d page) := by
  have changed := (listedChanged sound ok).1
  obtain ⟨bare, ok⟩ | ⟨entry, resolved, alone, ok⟩ | ⟨entry, resolved, held, ok⟩ := listedExact.mp ok
  · have none : references d page = [] := by rw [references, bare]
    have now : d'.resolve (.ref r) = .ok (some m) := mapOk.mpr ⟨m, changed.indirect found, rfl⟩
    rw [referencesOf (entrySet sound dict ok), itemsOfStream now (changed.kind stream), none]
    cases side <;> rfl
  · have before : d.resolve (.ref _) = .ok (some _) := mapOk.mpr ⟨_, resolved, rfl⟩
    rw [arrayReferences dict ok, referencesOf entry, itemsOfStream before alone]
    rfl
  · obtain ⟨_, _, again, items⟩ := insertedItems held r side
    cases ok.symm.trans again
    have entry' := (insertedEntry dict sound held ok contents).trans entry
    rw [referencesOf entry, itemsOfArray resolved held, referencesOf entry',
      itemsOfArray (changed.resolve resolved) items]
    cases side <;> simp [Action.Side.put, Value.ref?]

end Page

namespace Workspace
open Page PageContent.Action ContentStream

variable {w w' : Workspace} {i : Nat} {side : Side} {pieces : List Bytes} {g : ContentStream}

theorem addOpened (rooted : Rooted w) (room : w.home.objects.size + 1 < UInt32.size)
    (done : (add i side pieces).on w = (.ok g, w')) : (w.page i).live = true ∧
    ∃ d₁ r d₂ c ws next gs, w.home.addIndirect (.ofData (composed (w.page i).params pieces)) = (d₁, r) ∧
      listed d₁ (w.page i).node r side = .ok (d₂, c) ∧ w'.home = { d₂ with watches := ws } ∧
      (w'.page i).node = (w.page i).node ∧ (w.page i).readGroups w'.home next = .ok gs ∧
      (gs.map (kept (w.page i).streams)).find? (fun s => s.backing.any (·.node = w.home.nodes.size)) =
        some g := by
  obtain ⟨live, done⟩ := boundLiveOk done
  have here := rooted.here i live
  obtain ⟨_, _, done⟩ := boundLiftOk done
  rw [here] at done
  obtain ⟨r, w₁, first, done⟩ := boundOk done
  cases added : w.home.addIndirect (.ofData (composed (w.page i).params pieces)) with
  | mk d₁ r' =>
    obtain ⟨again, rooted₁, home₁⟩ := rooted.dataAdded added
    cases again.symm.trans first
    obtain ⟨-, -, numbered⟩ := Document.addDataThere added
    rw [documentBound here, home₁, numbered room, okBound] at done
    obtain ⟨w₂, w₃, ws, next, gs, watched, run, home, read, page, last⟩ :=
      quietlyRenewed rooted₁ live (Leads.listRef here r side) done
    have told {d' c} (ok : listed ((w.setDocument d₁).hush i).home (w.page i).node r side =
        .ok (d', c)) := (listedChanged (rooted₁.hush i).sound ok).1
    rw [listRefOn here] at run
    obtain ⟨d₂, c, ws', ok, home₂⟩ := changedHome (rooted₁.hush i) told run
    change listed (w.setDocument d₁).home _ _ _ = _ at ok
    rw [home₁] at ok
    rw [getBound, page] at last
    split at last
    · rename_i s there
      cases last
      have counted := pageModified (liveInside (by rw [page]; exact live))
        fun p => { p with revision := p.revision + 1 }
      refine ⟨live, d₁, r, d₂, c, ws, next, gs, rfl, ok, ?_, ?_, read, there⟩
      · change w₃.home = _
        rw [home, home₂]
      · rw [counted, page]
        rfl
    · cases last

theorem foundBacking {d : Document} {p : Page} {next : Nat} {gs old : List ContentStream}
    (sound : d.Sound) (read : p.readGroups d next = .ok gs) {b : Backing}
    (stands : Backing.resolve d b.node = .ok b)
    (found : (gs.map (kept old)).find? (fun s => s.backing.any (·.node = b.node)) = some g) :
    b ∈ g.backing := by
  obtain ⟨-, holds, -⟩ := readGroupsKept sound read
  obtain ⟨fresh, there, rfl⟩ := List.mem_map.mp (List.mem_of_find?_eq_some found)
  have some : ((kept old fresh).backing.any (·.node = b.node)) = true := by
    simpa using List.find?_some found
  obtain ⟨early, behind, same⟩ := List.any_eq_true.mp some
  have resolved := (holds fresh there early (keptBacking old fresh ▸ behind)).1
  rw [show early.node = b.node by simpa using same, stands] at resolved
  cases resolved
  exact behind

end Workspace

namespace Session
open Workspace Page ContentStream PageContent.Action

/-- While numbers for objects last, an edit that adds to a page and succeeds lists one reference more
under `/Contents`, first or last, that named nothing before. It names a new stream, which holds the
lines written and their length and is behind the content stream that is given back. No other object
comes or goes, no other entry of the page changes, and no other container does but the array that
`/Contents` resolved to. -/
theorem addedAlone {calls : List Call} {s : Session} (ran : Ran calls s) {i : Nat} {side : Side}
    {pieces : List Bytes} (room : s.workspace.home.objects.size + 1 < UInt32.size)
    {g : ContentStream} {w : Workspace} (done : (add i side pieces).on s.workspace = (.ok g, w)) :
    let d := s.workspace.home
    let p := s.workspace.page i
    let lines := p.params.marks.map Instruction.written ++ pieces
    let data := lines.flatMap fun line => line ++ [Octet.lineFeed]
    ∃ r m, d.indirect r = .error (.noObject r) ∧
      w.references i = side.put r (s.workspace.references i) ∧
      d.nodes[m]? = none ∧ w.home.indirect r = .ok m ∧ w.home.nodes[m]? = some
        ⟨.stream [("Length", .scalar (.int (Int64.ofNat data.length)))] data, some r⟩ ∧
      ⟨m, r⟩ ∈ g.backing ∧ w.home.objects = d.objects.push (.node m) ∧
      (∀ key, key ≠ contents → w.home.property? p.node key = d.property? p.node key) ∧
      ∀ n node, d.nodes[n]? = some node → ¬ Edits d p.node n → w.home.nodes[n]? = some node := by
  intro d p lines data
  have rooted := ran.rooted
  obtain ⟨live, d₁, r, d₂, c, ws, next, gs, added, ok, home, same, read, found⟩ :=
    addOpened rooted room done
  have dict := rooted.dict i live
  have stored := Document.addIndirectRevised rooted.sound (keyedData _) added
  obtain ⟨stands, -, numbered⟩ := Document.addDataThere added
  have changed := (listedChanged stored.sound ok).1
  have within : Edits d p.node c.node := ((ownEdits d p.node).added rooted.sound dict added).listed ok
  have still {n : Nat} {node : Node} (there : d₁.nodes[n]? = some node) (other : ¬ Edits d p.node n) :
      w.home.nodes[n]? = some node := by
    rw [home]
    exact changed.untouched there fun here => other (Option.some.inj here ▸ within)
  refine ⟨r, d.nodes.size, Document.addDataFresh added room, ?_, Array.getElem?_size, ?_, ?_, ?_, ?_,
    fun key other => ?_, fun n node there other => still (stored.untouched there (by simp)) other⟩
  · rw [Workspace.references, same, home]
    change Page.references d₂ p.node = _
    rw [listedReferences stored.sound (stored.kind dict) (numbered room)
      (ContentStream.resolveOk.mp stands).1 ok, addedReferences rooted.sound dict added]
    rfl
  · rw [home]
    exact changed.indirect (numbered room)
  · have there := still (Document.addDataNode added) fun own => Nat.lt_irrefl _ (own.inside dict)
    rwa [Params.composedPieces] at there
  · have rooted' := rooted.asked (Request.askedAdd rooted.homed done)
    have stands' : Backing.resolve w.home d.nodes.size = .ok ⟨d.nodes.size, r⟩ := by
      rw [home]
      exact changed.backing stands
    exact foundBacking rooted'.sound read stands' found
  · rw [home]
    exact (listedObjects ok).trans (Document.addDataObjects added)
  · rw [home]
    exact (listedOthers stored.sound (stored.kind dict) ok other).trans
      (revisedProperty stored dict (by simp) key)

theorem addedAloneToTwo : Ran listedCalls (afterAll listedCalls) ∧
    let before := (afterAll listedCalls).workspace
    before.home.objects.size + 1 < UInt32.size ∧ ∃ g w,
      (add 0 .front [ascii ['h']]).on before = (.ok g, w) ∧
      ∃ r, before.home.indirect r = .error (.noObject r) ∧ w.references 0 = [r, ⟨1, 0⟩, ⟨2, 0⟩] := by
  have room : (afterAll listedCalls).workspace.home.objects.size + 1 < UInt32.size := by
    decide +kernel
  have listed : (afterAll listedCalls).workspace.references 0 = [⟨1, 0⟩, ⟨2, 0⟩] := by decide +kernel
  have added : ((add 0 .front [ascii ['h']]).on (afterAll listedCalls).workspace).1.isOk = true := by
    decide +kernel
  cases done : (add 0 .front [ascii ['h']]).on (afterAll listedCalls).workspace with
  | mk res w =>
    rw [done] at added
    cases res with
    | error e => cases added
    | ok g =>
      obtain ⟨r, _, fresh, references, -⟩ := addedAlone listedReached.ran room done
      rw [listed] at references
      exact ⟨listedReached.ran, room, g, w, done, r, fresh, references⟩

end Session

end PageContent
