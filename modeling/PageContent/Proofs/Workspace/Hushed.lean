import PageContent.Proofs.Workspace.Opened

/-! While a page edits it hears nothing. What the steps did is read afterwards, and until then
nothing is said of what the page has read. -/
namespace PageContent

namespace ContentStream

def kept (old : List ContentStream) (s : ContentStream) : ContentStream :=
  (old.find? (·.backing = s.backing)).getD s

variable {old : List ContentStream} {s : ContentStream}

theorem keptCases (old : List ContentStream) (s : ContentStream) :
    kept old s = s ∨ (kept old s ∈ old ∧ (kept old s).backing = s.backing) := by
  unfold kept
  cases found : old.find? (·.backing = s.backing) with
  | none => exact .inl rfl
  | some t =>
    have same := List.find?_some found
    exact .inr ⟨List.mem_of_find?_eq_some found, by simpa using same⟩

theorem keptBacking (old : List ContentStream) (s : ContentStream) :
    (kept old s).backing = s.backing := by
  obtain same | ⟨-, same⟩ := keptCases old s
  · rw [same]
  · exact same

theorem keptNodes (old streams : List ContentStream) : nodes (streams.map (kept old)) = nodes streams := by
  unfold nodes
  rw [List.flatMap_map]
  simp only [keptBacking]

theorem keptRead {d : Document} {params : Params} (before : ∀ t ∈ old, t.reread d params = .ok t)
    (ok : s.reread d params = .ok s) : (kept old s).unnumbered = s.unnumbered := by
  obtain same | ⟨member, backing⟩ := keptCases old s
  · rw [same]
  · have again := before _ member
    unfold reread at again ok
    rw [backing, readRenumbered ok] at again
    rw [← Except.ok.inj again]
    rfl

end ContentStream

namespace Workspace
open Page PageContent.Action ContentStream

variable {w w' w'' : Workspace} {i : Nat} {still : Prop} {held held' : List ContentStream}
  {loose : Option Nat}

def hush (w : Workspace) (i : Nat) : Workspace := w.modifyPage i fun p => { p with quiet := true }

def wake (w : Workspace) (i : Nat) : Workspace :=
  let w := w.modifyPage i fun p => { p with quiet := false }
  match w.follow i with
  | .ok w => w
  | .error _ => w

theorem quietlyOn {α : Type} (steps : Action α) : (quietly i steps).on w =
    ((steps.on (w.hush i)).1, (steps.on (w.hush i)).2.wake i) := rfl

theorem Homed.onward (h : Homed w) (onward : Onward i w w') : Homed w' :=
  h.apart onward.toApart fun live =>
    onward.remains.document.trans (h.here i (onward.remains.live.symm.trans live))

theorem quietOnward (w : Workspace) (i : Nat) (quiet : Bool) :
    Onward i w (w.modifyPage i fun p => { p with quiet }) := .ofPage fun _ => ⟨rfl, rfl, rfl⟩

theorem wakeDoes (h : Homed w) (i : Nat) :
    Doings i (w.modifyPage i fun p => { p with quiet := false }) (w.wake i) := by
  unfold wake
  dsimp only
  split
  · rename_i ok
    exact followDoes (h.onward (quietOnward w i false)) ok
  · exact .refl

theorem wakeOnward (h : Homed w) (i : Nat) : Onward i w (w.wake i) := by
  have awake := quietOnward w i false
  exact awake.trans ((wakeDoes h i).only (h.onward awake)).onward

def regrouped (w : Workspace) (i : Nat) (gs : List ContentStream) : Workspace :=
  { w with nextStream := w.nextStream + gs.length }.modifyPage i
    fun p => { p with streams := gs.map (kept (w.page i).streams) }

theorem regroupedPage (live : (w.page i).live = true) (gs : List ContentStream) :
    (w.regrouped i gs).page i =
      { w.page i with streams := gs.map (kept (w.page i).streams) } :=
  pageModified (w := { w with nextStream := w.nextStream + gs.length }) (liveInside live) _

def reading (w : Workspace) (i : Nat) : Except Fault (List ContentStream) :=
  (w.page i).readGroups (w.document (w.page i).document) w.nextStream

theorem readingHere (here : (w.page i).document = 0) :
    w.reading i = (w.page i).readGroups w.home w.nextStream := by
  rw [reading, here]

theorem refreshDone {r : Except Fault Unit} (done : (refresh i).on w = (r, w')) :
    (∃ e, r = .error e ∧ w' = w.markInvalid i) ∨
    ∃ gs, r = .ok () ∧ w.reading i = .ok gs ∧ w' = w.regrouped i gs := by
  unfold refresh at done
  rw [getBound] at done
  dsimp only at done
  split at done
  · rename_i e _
    rw [modifyBound] at done
    cases done
    exact .inl ⟨e, rfl, rfl⟩
  · rename_i gs ok
    rw [setBound] at done
    cases done
    exact .inr ⟨gs, rfl, ok, rfl⟩

theorem invalidOnward (w : Workspace) (i : Nat) : Onward i w (w.markInvalid i) :=
  .ofPage fun _ => ⟨rfl, rfl, rfl⟩

theorem regroupedOnward (w : Workspace) (i : Nat) (gs : List ContentStream) :
    Onward i w (w.regrouped i gs) :=
  (Only.read (w.nextStream + gs.length)).onward.trans (.ofPage fun _ => ⟨rfl, rfl, rfl⟩)

structure Editing (still : Prop) (held : List ContentStream) (i : Nat) (w : Workspace) : Prop where
  good : Good still held (some i) w
  hushed : Hushed (some i) w
  live : (w.page i).live = true

theorem attachedQuiet {d : Document} {p : Page} (h : Attached still d i p) (quiet : Bool) :
    Attached still d i { p with quiet } :=
  ⟨h.dict, h.own, h.entry, h.backed, h.whole, h.grounded⟩

theorem hushPage (live : (w.page i).live = true) :
    (w.hush i).page i = { w.page i with quiet := true } := pageModified (liveInside live) _

theorem hushEditing (h : InOrder still held w) (live : (w.page i).live = true) :
    Editing still held i (w.hush i) := by
  have page := hushPage live
  have apart : Apart i w (w.hush i) := .ofPage _
  have numbered : Numbered held (w.hush i) := h.good.numbered.only apart (by rw [page]) rfl
  refine ⟨h.good.apart apart numbered (fun j same => by cases same) fun _ => ?_, fun j there => ?_, ?_⟩
  · rw [page]
    exact ⟨h.good.here i live, attachedQuiet (h.good.attached i live) true⟩
  · by_cases own : j = i
    · subst own
      rw [page]
      exact ⟨fun _ => rfl, fun _ => rfl⟩
    · rw [apart.others j own] at there ⊢
      rw [h.awake there]
      exact ⟨fun same => (by cases same), fun same => absurd (Option.some.inj same).symm own⟩
  · rw [page]
    exact live

structure Awake (still : Prop) (held : List ContentStream) (i : Nat) (w w' : Workspace) : Prop
    extends Onward i w w' where
  good : Good still held (some i) w'
  loud : ∀ j, (w'.page j).live = true → (w'.page j).quiet = false
  following : Following w'.home (w'.page i)
  read : (w'.page i).streams = (w.page i).streams ∧ (w'.page i).valid = (w.page i).valid

theorem Editing.wake (h : Editing still held i w) : Awake still held i w (w.wake i) := by
  have live := h.live
  have here := h.good.here i live
  have inside := liveInside live
  have page := pageModified inside fun p => { p with quiet := false }
  have apart : Apart i w (w.modifyPage i fun p => { p with quiet := false }) := .ofPage _
  have attached : Attached still (w.modifyPage i fun p => { p with quiet := false }).home i
      ((w.modifyPage i fun p => { p with quiet := false }).page i) := by
    rw [page]
    exact attachedQuiet (h.good.attached i live) false
  have numbered : Numbered held (w.modifyPage i fun p => { p with quiet := false }) :=
    h.good.numbered.only apart (by rw [page]) rfl
  have loud {w₁ : Workspace} (apart : Apart i w w₁) (own : (w₁.page i).quiet = false) (j : Nat)
      (there : (w₁.page j).live = true) : (w₁.page j).quiet = false := by
    by_cases same : j = i
    · exact same ▸ own
    · rw [apart.others j same] at there ⊢
      cases quiet : (w.page j).quiet with
      | false => rfl
      | true => exact absurd (Option.some.inj ((h.hushed j there).mp quiet)).symm same
  have onward := wakeOnward h.good.homed i
  unfold Workspace.wake at onward ⊢
  obtain ⟨w', c, ok, only, watched, next, attached', follows⟩ | ⟨fault, failed, follows⟩ :=
    followKept (apart.housed h.good.housed) (apart.sound h.good.sound) (by rw [page]; exact live)
      (by rw [page]; exact here) attached
  · simp only [ok] at onward ⊢
    rw [page] at watched
    refine ⟨onward, h.good.apart onward.toApart ?_ (fun j same => (Option.some.inj same).symm)
      fun _ => ⟨?_, attached'⟩, loud onward.toApart (by rw [watched]), follows, ?_⟩
    · exact numbered.only only.toApart (by rw [watched, page]) next
    · rw [watched]
      exact here
    · rw [watched]
      exact ⟨rfl, rfl⟩
  · simp only [failed] at onward ⊢
    refine ⟨onward, h.good.apart apart numbered (fun j same => (Option.some.inj same).symm)
      fun _ => ⟨?_, attached⟩, loud apart (by rw [page]), follows, ?_⟩
    · rw [page]
      exact here
    · rw [page]
      exact ⟨rfl, rfl⟩

theorem Awake.inOrder (h : Awake still held i w w') (inStep : InStep w'.home (w'.page i)) :
    InOrder still held w' := by
  refine h.good.settle (fun j _ live => h.loud j live) (fun j same => (Option.some.inj same).symm)
    (.refl i w') h.good.numbered fun live => ?_
  exact ⟨h.good.here i live, h.loud i live, h.good.attached i live, h.following, inStep⟩

theorem keptAttached {d : Document} {p : Page} (h : Attached still d i p) (sound : d.Sound)
    {next : Nat} {gs : List ContentStream} (ok : p.readGroups d next = .ok gs) :
    Attached still d i { p with streams := gs.map (kept p.streams) } ∧
    InStep d { p with streams := gs.map (kept p.streams) } := by
  obtain ⟨found, backed, ⟨id, gs', groups, same⟩, -, each⟩ := readGroupsKept sound ok
  refine ⟨⟨h.dict, h.own, h.entry, fun s member b inside => ?_, fun quiet valid => ?_, h.grounded⟩,
    fun _ _ _ => ?_⟩
  · obtain ⟨t, fresh, rfl⟩ := List.mem_map.mp member
    rw [keptBacking] at inside
    exact backed t fresh b inside
  · refine ⟨id, gs', by rw [keptNodes]; exact groups, ?_⟩
    rw [same, List.map_map]
    have before := (h.whole quiet valid).reread
    exact List.map_congr_left fun t fresh => (keptRead before (each t fresh)).symm
  · rw [keptNodes]
    exact found

theorem keptNumbered (h : Numbered held w) (onward : Onward i w w') {gs : List ContentStream}
    (page : (w'.page i).streams = gs.map (kept (w.page i).streams))
    (numbers : gs.map ContentStream.id = List.range' w.nextStream gs.length)
    (next : w'.nextStream = w.nextStream + gs.length) : Numbered held w' := by
  refine h.renewed gs numbers (Nat.le_of_eq next.symm) fun s seen => ?_
  obtain there | ⟨j, there⟩ := seen
  · exact .inr ⟨s, .inl there, rfl, rfl⟩
  · by_cases own : j = i
    · subst own
      rw [page] at there
      obtain ⟨t, fresh, rfl⟩ := List.mem_map.mp there
      obtain same | ⟨old, -⟩ := keptCases (w.page j).streams t
      · rw [same]
        exact .inl fresh
      · exact .inr ⟨_, .inr ⟨j, old⟩, rfl, rfl⟩
    · rw [onward.others j own] at there
      exact .inr ⟨s, .inr ⟨j, there⟩, rfl, rfl⟩

theorem invalidInOrder (good : Good still held (some i) w)
    (loud : ∀ j, (w.page j).live = true → (w.page j).quiet = false) (live : (w.page i).live = true)
    (following : Following w.home (w.page i)) : InOrder still held (w.markInvalid i) := by
  obtain ⟨only, attached, following', inStep, numbered⟩ :=
    invalidSettled live (good.attached i live) following good.numbered
  obtain ⟨document, -, -, -, quiet⟩ := only.placed
  exact good.settle (fun j _ => loud j) (fun j same => (Option.some.inj same).symm) only.toApart
    numbered fun _ => ⟨document.trans (good.here i live), quiet.trans (loud i live), attached,
      following', inStep⟩

theorem regroupedInOrder (good : Good still held (some i) w)
    (loud : ∀ j, (w.page j).live = true → (w.page j).quiet = false) (live : (w.page i).live = true)
    (following : Following w.home (w.page i)) {gs : List ContentStream}
    (ok : w.reading i = .ok gs) : InOrder still held (w.regrouped i gs) := by
  have here := good.here i live
  rw [readingHere here] at ok
  obtain ⟨-, -, -, numbers, -⟩ := readGroupsKept good.sound ok
  obtain ⟨attached, inStep⟩ := keptAttached (good.attached i live) good.sound ok
  have page := regroupedPage live gs
  have onward := regroupedOnward w i gs
  have numbered := keptNumbered good.numbered onward (by rw [page]) numbers rfl
  refine good.settle (fun j _ => loud j) (fun j same => (Option.some.inj same).symm) onward.toApart
    numbered fun _ => ?_
  rw [page]
  exact ⟨here, loud i live, attached, following, inStep⟩

end Workspace

end PageContent
