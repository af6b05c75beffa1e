import PageContent.Proofs.Workspace.Doing

/-! A change that is told to those who watch a container leaves every page in order. -/
namespace PageContent.Workspace
open Page

variable {w w' : Workspace} {i j : Nat} {still : Prop} {held : List ContentStream}
  {loose : Option Nat} {c : Change}

structure Settled (still : Prop) (held : List ContentStream) (i : Nat) (w w' : Workspace) :
    Prop where
  only : Only i w w'
  attached : Attached still w'.home i (w'.page i)
  following : Following w'.home (w'.page i)
  inStep : InStep w'.home (w'.page i)
  numbered : Numbered held w'

theorem knownModified {f : Page → Page} {gs : List ContentStream} {s : ContentStream}
    (inside : i < w.pages.size) (streams : (f (w.page i)).streams = gs)
    (member : s ∈ ((w.modifyPage i f).page j).streams) :
    (j = i ∧ s ∈ gs) ∨ s ∈ (w.page j).streams := by
  by_cases same : j = i
  · subst same
    rw [pageModified inside, streams] at member
    exact .inl ⟨rfl, member⟩
  · rw [pageOther same] at member
    exact .inr member

theorem loadSettled (sound : w.home.Sound) (live : (w.page i).live = true)
    (here : (w.page i).document = 0) (h : Attached still w.home i (w.page i))
    (following : Following w.home (w.page i)) (numbered : Numbered held w)
    (ok : w.load i = .ok w') : Settled still held i w w' := by
  rw [loadExact live here] at ok
  obtain ⟨gs, read, rfl⟩ := mapOk.mp ok
  obtain ⟨found, backed, whole, numbers, -⟩ := readGroupsKept sound read
  have inside := liveInside live
  have page := pageModified (w := { w with nextStream := w.nextStream + gs.length }) inside
    fun p => { p with streams := gs, valid := true, revision := p.revision + 1 }
  refine ⟨⟨⟨⟨_, rfl, fun _ _ _ => Iff.rfl⟩, rfl, fun j apart => pageOther apart _⟩, ?_⟩, ?_, ?_, ?_, ?_⟩
  · rw [page]
    exact ⟨rfl, rfl, rfl, rfl, rfl⟩
  · rw [page]
    exact ⟨h.dict, h.own, h.entry, backed, fun _ _ => whole, h.grounded⟩
  · rw [page]
    exact following
  · rw [page]
    exact fun _ _ _ => found
  · refine numbered.renewed gs numbers (Nat.le_refl _) fun s seen => ?_
    obtain there | ⟨j, there⟩ := seen
    · exact .inr ⟨s, .inl there, rfl, rfl⟩
    · obtain ⟨-, new⟩ | old := knownModified inside rfl there
      · exact .inl new
      · exact .inr ⟨s, .inr ⟨j, old⟩, rfl, rfl⟩

theorem invalidSettled (live : (w.page i).live = true) (h : Attached still w.home i (w.page i))
    (following : Following w.home (w.page i)) (numbered : Numbered held w) :
    Settled still held i w (w.markInvalid i) := by
  have inside := liveInside live
  have page : (w.markInvalid i).page i = { w.page i with valid := false } := pageModified inside _
  refine ⟨.ofPage fun _ => ⟨rfl, rfl, rfl, rfl, rfl⟩, ?_, ?_, ?_, ?_⟩
  · rw [page]
    exact ⟨h.dict, h.own, h.entry, h.backed, (fun _ valid => by cases valid), h.grounded⟩
  · rw [page]
    exact following
  · rw [page]
    exact fun valid => by cases valid
  · exact numbered.only (.ofPage _) (by rw [page]) rfl

theorem Settled.after {w₀ : Workspace} (h : Settled still held i w w') (only : Only i w₀ w) :
    Settled still held i w₀ w' :=
  { h with only := only.trans h.only }

theorem loadOrMarkSettled (sound : w.home.Sound) (live : (w.page i).live = true)
    (here : (w.page i).document = 0) (h : Attached still w.home i (w.page i))
    (following : Following w.home (w.page i)) (numbered : Numbered held w) :
    Settled still held i w (w.loadOrMark i) := by
  unfold loadOrMark
  cases ok : w.load i with
  | ok w' => exact loadSettled sound live here h following numbered ok
  | error fault => exact invalidSettled live h following numbered

theorem letGoSettled (housed : w.Housed) (live : (w.page i).live = true)
    (here : (w.page i).document = 0) (h : Attached still w.home i (w.page i))
    (numbered : Numbered held w) (gone : w.home.property? (w.page i).node contents = .ok none) :
    Settled still held i w (w.letGo i) := by
  obtain ⟨only, page, next, attached⟩ := letGoKept housed live here h
  refine ⟨only, attached, ?_, ?_, numbered.only only.toApart (by rw [page]) next⟩
  · rw [page]
    intro c ok
    rw [(only.contents _).1] at ok
    obtain ⟨-, same⟩ | ⟨v, found, -⟩ := contentsNodeExact.mp ok
    · exact same.symm
    · rw [gone] at found
      cases found
  · rw [page]
    intro _ v found
    rw [(only.contents _).2.2, gone] at found
    cases found

theorem followSettled (housed : w.Housed) (sound : w.home.Sound) (live : (w.page i).live = true)
    (here : (w.page i).document = 0) (h : Attached still w.home i (w.page i))
    (numbered : Numbered held w) : Settled still held i w (match w.follow i with
      | .ok w => w.loadOrMark i
      | .error _ => w.markInvalid i) := by
  obtain ⟨w', c, ok, only, page, next, attached, follows⟩ | ⟨fault, failed, follows⟩ :=
    followKept housed sound live here h
  · rw [ok]
    have numbered' : Numbered held w' := numbered.only only.toApart (by rw [page]) next
    have live' : (w'.page i).live = true := by rw [page]; exact live
    have here' : (w'.page i).document = 0 := by rw [page]; exact here
    exact (loadOrMarkSettled (only.sound sound) live' here' attached follows numbered').after only
  · rw [failed]
    exact invalidSettled live h follows numbered

theorem reactSettled (housed : w.Housed) (sound : w.home.Sound) (live : (w.page i).live = true)
    (here : (w.page i).document = 0) (loud : (w.page i).quiet = false)
    (h : Attached still w.home i (w.page i)) (numbered : Numbered held w)
    (told : Touches c (w.page i) → w.home.property? (w.page i).node contents = .ok c.value)
    (following : ¬ Touches c (w.page i) → Following w.home (w.page i))
    (inStep : ¬ Touches c (w.page i) → (w.page i).watched ≠ some c.node →
      InStep w.home (w.page i)) : Settled still held i w (w.react i c) := by
  have unchanged (untouched : ¬ Touches c (w.page i)) (other : (w.page i).watched ≠ some c.node) :
      Settled still held i w w :=
    ⟨.refl i w, h, following untouched, inStep untouched other, numbered⟩
  unfold react
  simp only [loud, live, Bool.not_true, Bool.or_self, Bool.false_eq_true, if_false]
  by_cases own : c.node = (w.page i).node
  · rw [if_pos own]
    have elsewhere : (w.page i).watched ≠ some c.node := fun watched => (h.entry _ watched).1 own
    have idle (other : ∀ old, c.kind ≠ .entry contents old) : Settled still held i w w :=
      unchanged (fun ⟨_, old, same⟩ => other old same) elsewhere
    cases kind : c.kind with
    | payload => exact idle fun old same => by rw [kind] at same; cases same
    | element index old => exact idle fun old' same => by rw [kind] at same; cases same
    | entry key old =>
      simp only
      by_cases other : key = contents
      · subst other
        have entry := told ⟨own, old, kind⟩
        rw [if_neg (fun other => other rfl)]
        cases value : c.value with
        | none =>
          rw [value] at entry
          exact letGoSettled housed live here h numbered entry
        | some v => exact followSettled housed sound live here h numbered
      · rw [if_pos other]
        refine idle fun old' same => other ?_
        rw [kind] at same
        cases same
        rfl
  · rw [if_neg own]
    have untouched : ¬ Touches c (w.page i) := fun touches => own touches.1
    by_cases watched : some c.node = (w.page i).watched
    · rw [if_pos watched]
      exact loadOrMarkSettled sound live here h (following untouched) numbered
    · rw [if_neg watched]
      exact unchanged untouched (Ne.symm watched)

/-- Every page is registered and, but for one that edits, follows `/Contents` and is in step
with it. -/
structure Good (still : Prop) (held : List ContentStream) (loose : Option Nat) (w : Workspace) :
    Prop where
  housed : w.Housed
  sound : w.home.Sound
  numbered : Numbered held w
  here : ∀ i, (w.page i).live = true → (w.page i).document = 0
  attached : ∀ i, (w.page i).live = true → Attached still w.home i (w.page i)
  following : ∀ i, (w.page i).live = true → loose ≠ some i → Following w.home (w.page i)
  inStep : ∀ i, (w.page i).live = true → loose ≠ some i → InStep w.home (w.page i)

def Hushed (loose : Option Nat) (w : Workspace) : Prop :=
  ∀ i, (w.page i).live = true → ((w.page i).quiet = true ↔ loose = some i)

structure Telling (still : Prop) (held : List ContentStream) (loose : Option Nat) (c : Change)
    (w₀ : Workspace) (told : List Nat) (w : Workspace) : Prop where
  housed : w.Housed
  sound : w.home.Sound
  numbered : Numbered held w
  hushed : Hushed loose w
  heard : Heard loose w₀ w
  here : ∀ i, (w.page i).live = true → (w.page i).document = 0
  attached : ∀ i, (w.page i).live = true → Attached still w.home i (w.page i)
  unheard : ∀ i, i ∉ told → w.page i = w₀.page i
  truth : ∀ i, (w.page i).live = true → Touches c (w.page i) →
    w.home.property? (w.page i).node contents = .ok c.value
  following : ∀ i, (w.page i).live = true → loose ≠ some i →
    i ∈ told ∨ ¬ Touches c (w₀.page i) → Following w.home (w.page i)
  inStep : ∀ i, (w.page i).live = true → loose ≠ some i →
    i ∈ told ∨ (¬ Touches c (w₀.page i) ∧ (w₀.page i).watched ≠ some c.node) →
      InStep w.home (w.page i)

theorem Placed.touches {p p' : Page} (placed : Placed p p') : Touches c p' ↔ Touches c p := by
  obtain ⟨-, node, -⟩ := placed
  rw [Touches, Touches, node]

theorem Telling.same {w₀ : Workspace} {told : List Nat} (h : Telling still held loose c w₀ told w)
    (apart : ∀ j, (w.page j).live = true → loose ≠ some j → j ≠ i) :
    Telling still held loose c w₀ (i :: told) w := by
  refine { h with unheard := ?_, following := ?_, inStep := ?_ }
  · exact fun j fresh => h.unheard j fun there => fresh (List.mem_cons_of_mem _ there)
  · intro j live other cause
    refine h.following j live other (cause.imp_left fun there => ?_)
    exact (List.mem_cons.mp there).resolve_left (apart j live other)
  · intro j live other cause
    refine h.inStep j live other (cause.imp_left fun there => ?_)
    exact (List.mem_cons.mp there).resolve_left (apart j live other)

theorem Telling.settled {w₀ : Workspace} {told : List Nat}
    (h : Telling still held loose c w₀ told w) (live : (w.page i).live = true)
    (loud : loose ≠ some i) (settled : Settled still held i w w') :
    Telling still held loose c w₀ (i :: told) w' := by
  have only := settled.only
  have live' {j : Nat} (there : (w'.page j).live = true) : (w.page j).live = true := by
    by_cases own : j = i
    · exact own ▸ live
    · rwa [only.others j own] at there
  refine ⟨only.housed h.housed, only.sound h.sound, settled.numbered, ?_, h.heard.only only loud,
    ?_, ?_, ?_, ?_, ?_, ?_⟩
  · intro j there
    by_cases own : j = i
    · subst own
      rw [only.placed.2.2.2.2]
      exact h.hushed j live
    · rw [only.others j own]
      exact h.hushed j (live' there)
  · intro j there
    by_cases own : j = i
    · subst own
      rw [only.placed.1]
      exact h.here j live
    · rw [only.others j own]
      exact h.here j (live' there)
  · intro j there
    by_cases own : j = i
    · exact own ▸ settled.attached
    · exact only.attached own (h.attached j (live' there))
  · intro j fresh
    rw [List.mem_cons, not_or] at fresh
    rw [only.others j fresh.1]
    exact h.unheard j fresh.2
  · intro j there touches
    rw [(only.contents _).2.2]
    by_cases own : j = i
    · subst own
      rw [only.placed.2.1]
      exact h.truth j live (only.placed.touches.mp touches)
    · rw [only.others j own] at touches ⊢
      exact h.truth j (live' there) touches
  · intro j there other cause
    by_cases own : j = i
    · exact own ▸ settled.following
    · rw [only.others j own]
      refine only.following (h.following j (live' there) other (cause.imp_left fun before => ?_))
      exact (List.mem_cons.mp before).resolve_left own
  · intro j there other cause
    by_cases own : j = i
    · exact own ▸ settled.inStep
    · rw [only.others j own]
      refine only.inStep (h.inStep j (live' there) other (cause.imp_left fun before => ?_))
      exact (List.mem_cons.mp before).resolve_left own

theorem Telling.page {w₀ : Workspace} {told : List Nat}
    (h : Telling still held loose c w₀ told w) (i : Nat) :
    Telling still held loose c w₀ (i :: told) (w.react i c) := by
  cases live : (w.page i).live with
  | false =>
    have same : w.react i c = w := by simp [react, live]
    rw [same]
    refine h.same fun j there _ own => ?_
    rw [own, live] at there
    cases there
  | true =>
    by_cases editing : loose = some i
    · have quiet := (h.hushed i live).mpr editing
      have same : w.react i c = w := by simp [react, quiet]
      rw [same]
      exact h.same fun j _ other own => other (own ▸ editing)
    · have loud : (w.page i).quiet = false := by
        cases quiet : (w.page i).quiet with
        | false => rfl
        | true => exact absurd ((h.hushed i live).mp quiet) editing
      have placed := h.heard.placed i
      refine h.settled live editing (reactSettled h.housed h.sound live (h.here i live) loud
        (h.attached i live) h.numbered (h.truth i live) (fun untouched => ?_)
        fun untouched other => ?_)
      · exact h.following i live editing (.inr fun touches => untouched (placed.touches.mpr touches))
      · -- a page that was told before is in step whatever it watches
        by_cases before : i ∈ told
        · exact h.inStep i live editing (.inl before)
        · rw [h.unheard i before] at untouched other
          exact h.inStep i live editing (.inr ⟨untouched, other⟩)

theorem Telling.fold {w₀ : Workspace} {told : List Nat} (h : Telling still held loose c w₀ told w)
    (watchers : List Watcher) : ∃ told',
    Telling still held loose c w₀ told' (watchers.foldl (fun w watcher => w.tell watcher c) w) ∧
    (∀ i, i ∈ told → i ∈ told') ∧ ∀ i, .page i ∈ watchers → i ∈ told' := by
  induction watchers generalizing told w with
  | nil => exact ⟨told, h, fun _ there => there, fun _ member => by cases member⟩
  | cons watcher rest ih =>
    cases watcher with
    | recorder id =>
      have noted : Telling still held loose c w₀ told (w.tell (.recorder id) c) :=
        ⟨h.housed, h.sound, ⟨h.numbered.below, h.numbered.same⟩, h.hushed,
          ⟨h.heard.home, h.heard.size, h.heard.placed, h.heard.kept⟩, h.here, h.attached, h.unheard, h.truth,
          h.following, h.inStep⟩
      obtain ⟨told', done, before, here⟩ := ih noted
      refine ⟨told', done, before, fun i member => here i ?_⟩
      exact (List.mem_cons.mp member).resolve_left fun same => by cases same
    | page j =>
      obtain ⟨told', done, before, here⟩ := ih (h.page j)
      refine ⟨told', done, fun i there => before i (List.mem_cons_of_mem _ there), fun i member => ?_⟩
      obtain same | later := List.mem_cons.mp member
      · cases same
        exact before j List.mem_cons_self
      · exact here i later

-- Before anyone is told, only pages that the change does not concern are known to be in order.
theorem changeTelling (good : Good still held loose w) (hushed : Hushed loose w) {d' : Document}
    (changed : w.home.Changed d' c) (payload : still → c.kind ≠ .payload)
    (grounded : ∀ i, (w.page i).live = true → Grounded d' (w.page i).node) :
    Telling still held loose c (w.setDocument d') [] (w.setDocument d') := by
  have id : d'.id = 0 := changed.id.trans good.housed.2
  have home : (w.setDocument d').home = d' := homeSet good.housed id
  have housed : (w.setDocument d').Housed :=
    ⟨by simpa [setDocument] using good.housed.1, by rw [home, id]⟩
  have dict (i : Nat) (live : (w.page i).live = true) := (good.attached i live).dict
  refine ⟨housed, by rw [home]; exact changed.sound, ⟨good.numbered.below, good.numbered.same⟩,
    hushed, .refl _ _, good.here, fun i live => ?_, fun _ _ => rfl, fun i live touches => ?_,
    fun i live other cause => ?_, fun i live other cause => ?_⟩
  · rw [home]
    exact (good.attached i live).revised changed.toRevised (grounded i live)
      fun quiet => changed.payloads (payload quiet)
  · rw [home]
    exact touchedProperty changed (dict i live) touches
  · have untouched := cause.resolve_left fun member => by cases member
    rw [home]
    exact (good.following i live other).revised changed.toRevised (good.attached i live).grounded
      (changedProperty changed (dict i live) untouched)
  · obtain ⟨untouched, elsewhere⟩ := cause.resolve_left fun member => by cases member
    rw [home]
    refine (good.inStep i live other).revised (good.following i live other) changed.toRevised
      (changedProperty changed (dict i live) untouched) fun n watched same => ?_
    exact elsewhere (watched.trans same)

theorem changeGood (good : Good still held loose w) (hushed : Hushed loose w) {d' : Document}
    (changed : w.home.Changed d' c) (payload : still → c.kind ≠ .payload)
    (grounded : ∀ i, (w.page i).live = true → Grounded d' (w.page i).node) :
    Good still held loose ((w.setDocument d').notify 0 c) ∧
    Hushed loose ((w.setDocument d').notify 0 c) ∧
    Heard loose (w.setDocument d') ((w.setDocument d').notify 0 c) := by
  have home := homeRevised good.housed changed.toRevised
  obtain ⟨told, done, -, all⟩ := (changeTelling good hushed changed payload grounded).fold
    (((w.setDocument d').home.watchers c.node).filter (w.setDocument d').hears)
  have hears (i : Nat) (live : (w.page i).live = true)
      (registered : ⟨c.node, .page i⟩ ∈ w.home.watches) : i ∈ told := by
    refine all i (List.mem_filter.mpr ⟨?_, live⟩)
    rw [home, Document.watchers, changed.watches]
    exact List.mem_map.mpr ⟨_, List.mem_filter.mpr ⟨registered, by simp⟩, rfl⟩
  have live {i : Nat} (there : ((w.setDocument d').notify 0 c |>.page i).live = true) :
      (w.page i).live = true := (done.heard.placed i).2.2.2.1.symm.trans there
  have touched (i : Nat) (there : (w.page i).live = true) (touches : Touches c (w.page i)) :
      i ∈ told := by
    refine hears i there ?_
    rw [touches.1]
    exact (good.attached i there).own
  -- a change of its entry or of what it watches is told to every page that it concerns
  refine ⟨⟨done.housed, done.sound, done.numbered, done.here, done.attached, fun i there other => ?_,
    fun i there other => ?_⟩, done.hushed, done.heard⟩
  · refine done.following i there other ?_
    by_cases touches : Touches c (w.page i)
    · exact .inl (touched i (live there) touches)
    · exact .inr touches
  · refine done.inStep i there other ?_
    by_cases touches : Touches c (w.page i)
    · exact .inl (touched i (live there) touches)
    · by_cases watched : (w.page i).watched = some c.node
      · exact .inl (hears i (live there) ((good.attached i (live there)).entry _ watched).2)
      · exact .inr ⟨touches, watched⟩

end PageContent.Workspace
