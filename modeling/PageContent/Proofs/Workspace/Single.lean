import PageContent.Proofs.Workspace.Removed

/-! Numbers of content streams. On a page one number is that of one content stream, which can
stand at several places: an edit that reads a stream twice finds it both times among those kept. -/
namespace PageContent

namespace Workspace
open Page PageContent.Action ContentStream

variable {w w' : Workspace} {i j : Nat} {σ : Scope}

structure Single (w : Workspace) : Prop where
  below : ∀ i, ∀ s ∈ (w.page i).streams, s.id < w.nextStream
  same : ∀ i, ∀ s ∈ (w.page i).streams, ∀ t ∈ (w.page i).streams, s.id = t.id → s = t

namespace Single

theorem renewed (h : Single w) {gs : List ContentStream}
    (numbers : gs.map ContentStream.id = List.range' w.nextStream gs.length)
    (next : w.nextStream + gs.length ≤ w'.nextStream)
    (known : ∀ j, ∀ s ∈ (w'.page j).streams, s ∈ gs ∨ s ∈ (w.page j).streams) : Single w' := by
  obtain ⟨fresh, distinct⟩ := numberedApart numbers
  refine ⟨fun j s there => ?_, fun j s there t there' same => ?_⟩
  · obtain new | old := known j s there
    · have := fresh s new
      omega
    · have := h.below j s old
      omega
  · obtain new | old := known j s there
    · obtain new' | old' := known j t there'
      · exact distinct s new t new' same
      · have := fresh s new
        have := h.below j t old'
        omega
    · obtain new' | old' := known j t there'
      · have := fresh t new'
        have := h.below j s old
        omega
      · exact h.same j s old t old' same

theorem fewer (h : Single w) (next : w.nextStream ≤ w'.nextStream)
    (known : ∀ j, ∀ s ∈ (w'.page j).streams, s ∈ (w.page j).streams) : Single w' := by
  have none : ([] : List ContentStream).map ContentStream.id = List.range' w.nextStream 0 := rfl
  exact h.renewed none next fun j s there => .inr (known j s there)

theorem aside (h : Single w) (pages : w'.pages = w.pages)
    (next : w.nextStream ≤ w'.nextStream) : Single w' := by
  refine h.fewer next fun j s there => ?_
  rwa [page, pages] at there

theorem replaced (h : Single w) (d : Document) : Single (w.setDocument d) :=
  h.aside rfl (Nat.le_refl _)

theorem modify (h : Single w) {f : Page → Page}
    (less : ∀ p, ∀ s ∈ (f p).streams, s ∈ p.streams) : Single (w.modifyPage i f) := by
  refine h.fewer (Nat.le_refl _) fun j s there => ?_
  obtain same | ⟨-, same⟩ := modifiedCases w i j f
  · rwa [same] at there
  · rw [same] at there
    exact less _ s there

theorem read (h : Single w) {d : Document} {gs : List ContentStream} {f : Page → Page}
    (ok : (w.page i).readGroups d w.nextStream = .ok gs)
    (streams : ∀ s ∈ (f (w.page i)).streams, s ∈ gs ∨ s ∈ (w.page i).streams) :
    Single ({ w with nextStream := w.nextStream + gs.length }.modifyPage i f) := by
  obtain ⟨ns, -, groups⟩ := bindOk.mp ok
  obtain ⟨-, -, numbers, -⟩ := groupsOf groups
  refine h.renewed numbers (Nat.le_refl _) fun j s there => ?_
  obtain same | ⟨rfl, same⟩ :=
    modifiedCases { w with nextStream := w.nextStream + gs.length } i j f
  · rw [same] at there
    exact .inr there
  · rw [same] at there
    exact streams s there

theorem reread (h : Single w) {d : Document} {streams : List ContentStream}
    (ok : (w.page i).streams.mapM (·.reread d (w.page i).params) = .ok streams) :
    Single (w.modifyPage i fun p => { p with streams }) := by
  have each := fun s there => mapMember ok s there
  refine ⟨fun j s there => ?_, fun j s there t there' same => ?_⟩
  · obtain other | ⟨rfl, own⟩ := modifiedCases w i j fun p => { p with streams }
    · exact h.below j s (other ▸ there)
    · rw [own] at there
      obtain ⟨s₀, before, again⟩ := each s there
      rw [(rereadKept again).1]
      exact h.below j s₀ before
  · obtain other | ⟨rfl, own⟩ := modifiedCases w i j fun p => { p with streams }
    · rw [other] at there there'
      exact h.same j s there t there' same
    · rw [own] at there there'
      obtain ⟨s₀, before, again⟩ := each s there
      obtain ⟨t₀, before', again'⟩ := each t there'
      rw [(rereadKept again).1, (rereadKept again').1] at same
      rw [h.same j s₀ before t₀ before' same, again'] at again
      exact (Except.ok.inj again).symm

theorem pushed (h : Single w) (document node : Nat) (params : Params) (encoding : Encoding) :
    Single { w with pages := w.pages.push (.new document node params encoding) } := by
  refine h.fewer (Nat.le_refl _) fun j s there => ?_
  simp only [page, Array.getD_eq_getD_getElem?, Array.getElem?_push] at there ⊢
  split at there
  · cases there
  · exact there

theorem popped (h : Single w) : Single { w with pages := w.pages.pop } := by
  refine h.fewer (Nat.le_refl _) fun j s there => ?_
  simp only [page, Array.getD_eq_getD_getElem?, Array.getElem?_pop] at there ⊢
  split at there
  · exact there
  · cases there

theorem doing (h : Single w) (doing : Doing i w w') : Single w' := by
  cases doing with
  | turned _ c => exact (h.replaced _).modify fun _ _ there => there
  | read ok _ _ streams => exact h.read ok streams
  | reread ok => exact h.reread ok
  | marked _ _ same => exact h.modify fun p s there => same p ▸ there

theorem notify (h : Single w) (homed : Homed w) (c : Change) : Single (w.notify 0 c) := by
  refine ((notifyHears homed c).keeps homed h fun _ hearing h => ?_).2
  cases hearing with
  | noted _ => exact h.aside rfl (Nat.le_refl _)
  | page _ _ doing => exact h.doing doing

theorem closed (h : Single w) (homed : Homed w) (live : (w.page i).live = true) :
    Single (w.closed i) := by
  have left : Single (w.leaving i) := h.replaced _
  exact closedKeeps (homed.here i live) left ((left.replaced _).modify fun _ _ there => there)
    fun before => before.modify fun _ _ there => by cases there

theorem deed (h : Single w) (homed : Homed w) (deed : Deed σ w w') : Single w' := by
  cases deed with
  | doing _ doing => exact h.doing doing
  | hushed _ _ => exact h.modify fun _ _ there => there
  | numbered further => exact h.aside rfl further
  | stored _ => exact h.replaced _
  | changed allows => exact (h.replaced _).notify (homed.put allows.patches.id).2 _
  | opened _ _ params encoding => exact (h.replaced _).pushed 0 _ params encoding
  | closed _ live => exact h.closed homed live
  | forgotten _ _ _ => exact h.popped
  | held _ _ => exact h.aside rfl (Nat.le_refl _)
  | watched _ _ => exact h.replaced _

theorem call (h : Single w) (homed : Homed w) {c : Call} {res : Except Fault (List ContentStream)}
    (done : c.run.on w = (res, w')) : Single w' :=
  ((c.freely homed done).keeps homed h fun homed deed h => h.deed homed deed).2

end Single

end Workspace

namespace ContentStream
variable {old : List ContentStream} {s t : ContentStream}

theorem keptAlike (same : s.backing = t.backing)
    (there : s.backing ∈ old.map ContentStream.backing) : kept old s = kept old t := by
  obtain ⟨u, member, backing⟩ := List.mem_map.mp there
  have found : (old.find? (·.backing = s.backing)).isSome :=
    List.find?_isSome.mpr ⟨u, member, by simpa using backing⟩
  obtain ⟨v, found⟩ := Option.isSome_iff_exists.mp found
  rw [kept, kept, ← same, found]
  rfl

theorem keptNone (none : s.backing ∉ old.map ContentStream.backing) : kept old s = s := by
  obtain same | ⟨member, backing⟩ := keptCases old s
  · exact same
  · exact absurd (List.mem_map.mpr ⟨_, member, backing⟩) none

end ContentStream

namespace Workspace
open Page PageContent.Action ContentStream

variable {w : Workspace} {i k : Nat} {g h : ContentStream} {old : List ContentStream}

theorem Refreshed.numbers (single : Single w) (refreshed : Refreshed i old w) {a b : Nat}
    (apart : a ≠ b) (here : (w.page i).streams[a]? = some g)
    (there : (w.page i).streams[b]? = some h) :
    g.id = h.id ↔ g.backing = h.backing ∧ g.backing ∈ old.map ContentStream.backing := by
  obtain ⟨next, gs, ok, streams⟩ := refreshed.read
  obtain ⟨ns, -, groups⟩ := bindOk.mp ok
  obtain ⟨-, -, numbers, -⟩ := groupsOf groups
  have number : ∀ {k : Nat} {s : ContentStream}, gs[k]? = some s → s.id = next + k := by
    intro k s place
    obtain ⟨inside, rfl⟩ := List.getElem?_eq_some_iff.mp place
    simpa [inside] using congrArg (·[k]?) numbers
  have member := List.mem_of_getElem? here
  have member' := List.mem_of_getElem? there
  rw [streams, List.getElem?_map, Option.map_eq_some_iff] at here there
  obtain ⟨g₀, first, rfl⟩ := here
  obtain ⟨h₀, second, rfl⟩ := there
  constructor
  · intro same
    have one := single.same i _ member _ member' same
    refine ⟨congrArg ContentStream.backing one, ?_⟩
    rw [keptBacking]
    by_contra none
    have none' : h₀.backing ∉ old.map ContentStream.backing := by
      rwa [← keptBacking old h₀, ← one, keptBacking]
    rw [keptNone none, keptNone none', number first, number second] at same
    omega
  · rintro ⟨same, before⟩
    rw [keptBacking] at before
    rw [keptBacking, keptBacking] at same
    rw [keptAlike same before]

theorem placeFirst {p : Page} (there : p.streams[k]? = some g)
    (first : ∀ h ∈ p.streams.take k, h.id ≠ g.id) : p.place g.id = .ok k := by
  obtain ⟨inside, same⟩ := List.getElem?_eq_some_iff.mp there
  have found : p.streams.findIdx? (·.id = g.id) = some k := by
    refine List.findIdx?_eq_some_iff_getElem.mpr ⟨inside, by simp [same], fun j before => ?_⟩
    simpa using first _ (List.mem_take_iff_getElem.mpr ⟨j, by omega, rfl⟩)
  rw [place, found]

theorem placeOfOn (live : (w.page i).live = true) {stream : Nat}
    (place : (w.page i).place stream = .ok k) : (placeOf i stream).on w = (.ok k, w) := by
  unfold placeOf
  rw [liveBound live, onLift, place]

theorem streamAtOn (live : (w.page i).live = true) (there : (w.page i).streams[k]? = some g) :
    (streamAt i k).on w = (.ok g, w) := by
  unfold streamAt
  rw [liveBound live]
  simp only [there]
  rfl

theorem Single.placed (single : Single w) (live : (w.page i).live = true)
    (there : (w.page i).streams[k]? = some g) (first : g ∉ (w.page i).streams.take k) :
    (raise i g.id).on w = (raiseAt i k).on w ∧ (lower i g.id).on w = (lowerAt i k).on w ∧
      (removeStream i g).on w = (removeAt i k).on w := by
  have member := List.mem_of_getElem? there
  have place := placeFirst there fun h before same =>
    first (single.same i h (List.mem_of_mem_take before) g member same ▸ before)
  unfold raise lower removeAt
  rw [thenBound (placeOfOn live place), thenBound (placeOfOn live place),
    thenBound (streamAtOn live there)]
  exact ⟨rfl, rfl, rfl⟩

theorem Single.apart (single : Single w) (once : (w.page i).streams.Nodup) :
    ((w.page i).streams.map ContentStream.id).Nodup :=
  once.map_on fun s there t there' => single.same i s there t there'

theorem loadedApart (rooted : Rooted w) {w' : Workspace} (done : (Action.load i).on w = (.ok (), w')) :
    ((w'.page i).streams.map ContentStream.id).Nodup := by
  obtain ⟨-, next, ok⟩ := loadDone rooted done
  obtain ⟨ns, -, groups⟩ := bindOk.mp ok
  obtain ⟨-, -, numbers, -⟩ := groupsOf groups
  rw [numbers]
  exact List.nodup_range'

end Workspace

namespace Session
open Workspace Page ContentStream PageContent.Action

theorem Ran.single {calls : List Call} {s : Session} (ran : Ran calls s) : Single s.workspace := by
  induction ran with
  | start => exact ⟨fun _ _ there => (by cases there), fun _ _ there => by cases there⟩
  | call before c fits ih => exact ih.call before.rooted.homed rfl

/-- Numbers of the content streams that a page holds, at any time. One number is that of one content
stream; where none is held twice the numbers are distinct, so they are after the page was loaded. A
content stream that is asked for by its number is taken at the first place that holds it. After an
edit two places have one number exactly if the same streams are behind them, and were behind a
content stream that the page held before. -/
theorem numbersApart {calls : List Call} {s : Session} (ran : Ran calls s) (i : Nat) :
    let p := s.workspace.page i
    (∀ g ∈ p.streams, ∀ h ∈ p.streams, g.id = h.id → g = h) ∧
    (p.streams.Nodup → (p.streams.map ContentStream.id).Nodup) ∧
    (p.live = true → ∀ k g, p.streams[k]? = some g → g ∉ p.streams.take k →
      (raise i g.id).on s.workspace = (raiseAt i k).on s.workspace ∧
      (lower i g.id).on s.workspace = (lowerAt i k).on s.workspace ∧
      (removeStream i g).on s.workspace = (removeAt i k).on s.workspace) ∧
    (∀ w, (Action.load i).on s.workspace = (.ok (), w) →
      ((w.page i).streams.map ContentStream.id).Nodup) ∧
    ∀ c : Call, c.Fits s.held → c.edits? = some i →
      ∀ given w, c.run.on s.workspace = (.ok given, w) →
        ∀ (a b : Nat) (g h : ContentStream), a ≠ b →
        (w.page i).streams[a]? = some g → (w.page i).streams[b]? = some h →
        (g.id = h.id ↔
          g.backing = h.backing ∧ g.backing ∈ p.streams.map ContentStream.backing) := by
  have single := ran.single
  refine ⟨single.same i, single.apart, fun live k g there first => single.placed live there first,
    fun w done => loadedApart ran.rooted done, fun c fits edits given w done a b g h apart => ?_⟩
  exact (c.refreshed ran.rooted edits done).numbers (single.call ran.rooted.homed done) apart

theorem numbersApartOfTwice : Ran repeatedCalls (afterAll repeatedCalls) ∧
    let w := (afterAll repeatedCalls).workspace
    let added := (Call.add 0 .back [ascii ['h']]).run.on w
    (∃ third, (w.page 0).streams[2]? = some third ∧
      (raise 0 third.id).on w = (raiseAt 0 2).on w) ∧
    added.1.isOk = true ∧ ∃ g h, (added.2.page 0).streams[0]? = some g ∧
      (added.2.page 0).streams[1]? = some h ∧ g.id ≠ h.id := by
  refine ⟨repeatedRan, ?_⟩
  intro w added
  obtain ⟨-, -, acts, -, edited⟩ := numbersApart repeatedRan 0
  have live : (w.page 0).live = true := by decide +kernel
  have number : (w.page 0).streams[2]?.map ContentStream.id = some 2 := by decide +kernel
  have others : ((w.page 0).streams.take 2).map ContentStream.id = [0, 1] := by decide +kernel
  have ok : added.1.isOk = true := by decide +kernel
  have first : (added.2.page 0).streams[0]?.map ContentStream.backing = some [⟨0, ⟨1, 0⟩⟩] := by
    decide +kernel
  have second : (added.2.page 0).streams[1]?.map ContentStream.backing = some [⟨1, ⟨2, 0⟩⟩] := by
    decide +kernel
  refine ⟨?_, ok, ?_⟩
  · obtain ⟨g, there, number⟩ := Option.map_eq_some_iff.mp number
    refine ⟨g, there, (acts live 2 g there fun before => ?_).1⟩
    have among : g.id ∈ [0, 1] := others ▸ List.mem_map_of_mem before
    simp [number] at among
  · obtain ⟨g, there, behind⟩ := Option.map_eq_some_iff.mp first
    obtain ⟨h, there', behind'⟩ := Option.map_eq_some_iff.mp second
    have run : (Call.add 0 .back [ascii ['h']]).run.on w = added := rfl
    clear_value added
    obtain ⟨_ | given, w'⟩ := added
    · cases ok
    refine ⟨g, h, there, there', fun same => ?_⟩
    have alike := (edited (.add 0 .back [ascii ['h']]) trivial rfl given w' run 0 1 g h (by decide)
      there there').mp same
    rw [behind, behind'] at alike
    cases alike.1

-- Moved up by its number, the third content stream stays and the first one moves.
def doubledCalls : List Call := .add 0 .back [ascii ['h']] :: repeatedCalls

theorem thirdTakenForFirst : Ran doubledCalls (afterAll doubledCalls) ∧
    let w := (afterAll doubledCalls).workspace
    (w.page 0).streams.map ContentStream.id = [0, 1, 0, 6] ∧
    ¬ ((w.page 0).streams.map ContentStream.id).Nodup ∧
    w.references 0 = [⟨1, 0⟩, ⟨2, 0⟩, ⟨1, 0⟩, ⟨4, 0⟩] ∧
    ((w.page 0).streams[2]?).map (fun third => ((raise 0 third.id).on w).2.references 0) =
      some [⟨2, 0⟩, ⟨1, 0⟩, ⟨1, 0⟩, ⟨4, 0⟩] ∧
    ((raiseAt 0 2).on w).2.references 0 = [⟨1, 0⟩, ⟨2, 0⟩, ⟨4, 0⟩, ⟨1, 0⟩] :=
  ⟨repeatedRan.call (.add 0 .back [ascii ['h']]) trivial, by decide +kernel, by decide +kernel,
    by decide +kernel, by decide +kernel, by decide +kernel⟩

end Session

end PageContent
