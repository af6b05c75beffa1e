import PageContent.Proofs.Workspace.Deeds

/-! The steps that deeds amount to in a sound document. Nothing is asked of the references under
`/Contents`. -/
namespace PageContent

namespace ContentStream

theorem rereadAgain {d : Document} {params : Params} {streams streams' : List ContentStream}
    (ok : streams.mapM (·.reread d params) = .ok streams') :
    ∀ s ∈ streams', s.reread d params = .ok s := by
  intro s there
  obtain ⟨t, -, again⟩ := mapMember ok s there
  obtain ⟨id, backing⟩ := rereadKept again
  unfold reread at again ⊢
  rw [id, backing, again]

end ContentStream

namespace Workspace
open Page Relation PageContent.Action ContentStream

inductive Step (still : Prop) : Workspace → Workspace → Prop where
  | revised {w : Workspace} {touched : Option Nat} {d : Document}
      (revised : w.home.Revised touched d)
      (payloads : still → ∀ n data, w.home.streamData n = .ok data → d.streamData n = .ok data) :
      Step still w (w.setDocument d)
  | turned {w : Workspace} {i : Nat} (live : (w.page i).live = true) (c : Option Nat) :
      Step still w (w.turn i c)
  | paged {w : Workspace} {i : Nat} {f : Page → Page} (stays : ∀ p, Stays p (f p))
      (fresh : (w.page i).live = true → ∀ s ∈ (f (w.page i)).streams,
        s ∈ (w.page i).streams ∨ s.reread w.home (w.page i).params = .ok s) :
      Step still w (w.modifyPage i f)
  | opened {w : Workspace} {node : Nat} (dict : w.home.kind node = .ok .dict) (params : Params)
      (encoding : Encoding) : Step still w (w.opened node params encoding)
  | closed {w : Workspace} {i : Nat} (live : (w.page i).live = true) : Step still w (w.closed i)
  | aside {w w' : Workspace} {ws : List Watch} (home : w'.home = { w.home with watches := ws })
      (counts : ∀ n j, ws.count ⟨n, .page j⟩ = w.home.watches.count ⟨n, .page j⟩)
      (size : w'.documents.size = w.documents.size)
      (pages : ∀ j, (w'.page j).live = true ∨ (w.page j).live = true → w'.page j = w.page j) :
      Step still w w'

def Steps (still : Prop) : Workspace → Workspace → Prop := ReflTransGen (Step still)

variable {w w' : Workspace} {i j : Nat} {still : Prop} {σ : Scope}

structure Rooted (w : Workspace) : Prop where
  housed : w.Housed
  sound : w.home.Sound
  here : ∀ i, (w.page i).live = true → (w.page i).document = 0
  dict : ∀ i, (w.page i).live = true → w.home.kind (w.page i).node = .ok .dict

theorem Rooted.homed (h : Rooted w) : Homed w := ⟨h.housed, h.here⟩

theorem Rooted.moved (h : Rooted w) {ws : List Watch} (home : w'.home = { w.home with watches := ws })
    (size : w'.documents.size = w.documents.size)
    (pages : ∀ j, (w'.page j).live = true →
      (w'.page j).document = 0 ∧ w.home.kind (w'.page j).node = .ok .dict) : Rooted w' := by
  refine ⟨⟨size ▸ h.housed.1, ?_⟩, ?_, fun j live => (pages j live).1, fun j live => ?_⟩
  · rw [home]
    exact h.housed.2
  · rw [home]
    exact ⟨h.sound.objects, h.sound.values, h.sound.keyed⟩
  · rw [home]
    exact (pages j live).2

theorem Rooted.apart (h : Rooted w) (apart : Apart i w w') (page : (w'.page i).live = true →
    (w'.page i).document = 0 ∧ w.home.kind (w'.page i).node = .ok .dict) : Rooted w' := by
  obtain ⟨ws, home, -⟩ := apart.home
  refine h.moved home apart.size fun j live => ?_
  by_cases own : j = i
  · subst own
    exact page live
  · rw [apart.others j own] at live ⊢
    exact ⟨h.here j live, h.dict j live⟩

theorem pageStays (w : Workspace) (i : Nat) {f : Page → Page} (stays : ∀ p, Stays p (f p)) :
    Stays (w.page i) ((w.modifyPage i f).page i) := by
  obtain same | ⟨-, same⟩ := modifiedCases w i i f
  · rw [same]
    exact ⟨rfl, rfl, rfl, rfl, rfl⟩
  · rw [same]
    exact stays _

theorem Step.rooted (step : Step still w w') (h : Rooted w) : Rooted w' := by
  cases step with
  | @revised touched d revised payloads =>
    have home := homeRevised h.housed revised
    refine ⟨⟨by simpa [setDocument] using h.housed.1, ?_⟩, ?_, h.here, fun i live => ?_⟩
    · rw [home]
      exact revised.id.trans h.housed.2
    · rw [home]
      exact revised.sound
    · rw [home]
      exact revised.kind (h.dict i live)
  | @turned i live c =>
    refine h.apart (turnApart h.housed c) fun _ => ?_
    rw [turnPage live]
    exact ⟨h.here i live, h.dict i live⟩
  | @paged i f stays fresh =>
    refine h.apart (.ofPage f) fun live => ?_
    have same := pageStays w i stays
    rw [same.live] at live
    rw [same.document, same.node]
    exact ⟨h.here i live, h.dict i live⟩
  | @opened node dict params encoding =>
    refine h.apart (openedApart h.housed node params encoding) fun _ => ?_
    rw [openedPage]
    exact ⟨rfl, dict⟩
  | @closed i live =>
    obtain ⟨apart, gone, -⟩ := closedApart h.housed (h.here i live) live
    refine h.apart apart fun live' => ?_
    rw [gone] at live'
    cases live'
  | aside home counts size pages =>
    refine h.moved home size fun j live => ?_
    have same := pages j (.inl live)
    rw [same] at live ⊢
    exact ⟨h.here j live, h.dict j live⟩

def Throughout (P : Document → Params → ContentStream → Prop) (w : Workspace) : Prop :=
  ∀ i, (w.page i).live = true → ∀ s ∈ (w.page i).streams, P w.home (w.page i).params s

section Throughout
variable {P : Document → Params → ContentStream → Prop}

theorem Throughout.apart (h : Throughout P w)
    (watches : ∀ {d params s} ws, P d params s → P { d with watches := ws } params s)
    (apart : Apart i w w') (own : (w'.page i).live = true → ∀ s ∈ (w'.page i).streams,
      P w.home (w'.page i).params s) : Throughout P w' := by
  obtain ⟨ws, home, -⟩ := apart.home
  intro j live s there
  rw [home]
  refine watches ws ?_
  by_cases same : j = i
  · subst same
    exact own live s there
  · rw [apart.others j same] at live there ⊢
    exact h j live s there

theorem Step.throughout (step : Step still w w') (rooted : Rooted w) (h : Throughout P w)
    (watches : ∀ {d params s} ws, P d params s → P { d with watches := ws } params s)
    (grows : ∀ {touched d params s}, w.home.Revised touched d →
      (still → ∀ n data, w.home.streamData n = .ok data → d.streamData n = .ok data) →
      P w.home params s → P d params s)
    (read : ∀ {params s}, s.reread w.home params = .ok s → P w.home params s) :
    Throughout P w' := by
  cases step with
  | @revised touched d revised payloads =>
    have home := homeRevised rooted.housed revised
    intro i live s there
    rw [home]
    exact grows revised payloads (h i live s there)
  | @turned i live c =>
    refine h.apart watches (turnApart rooted.housed c) fun _ => ?_
    rw [turnPage live]
    exact h i live
  | @paged i f stays fresh =>
    refine h.apart watches (.ofPage f) fun live' s there => ?_
    have same := pageStays w i stays
    have live := same.live.symm.trans live'
    rw [pageModified (liveInside live)] at there
    rw [same.params]
    exact (fresh live s there).elim (h i live s) read
  | @opened node dict params encoding =>
    refine h.apart watches (openedApart rooted.housed node params encoding) fun _ => ?_
    rw [openedPage]
    exact fun s there => by cases there
  | @closed i live =>
    obtain ⟨apart, gone, -⟩ := closedApart rooted.housed (rooted.here i live) live
    refine h.apart watches apart fun live' => ?_
    rw [gone] at live'
    cases live'
  | aside home counts size pages =>
    intro j live s there
    have same := pages j (.inl live)
    rw [same] at live there ⊢
    rw [home]
    exact watches _ (h j live s there)

end Throughout

namespace Steps

theorem keeps {motive : Workspace → Prop} (steps : Steps still w w') (h : Rooted w) (before : motive w)
    (step : ∀ {w w'}, Rooted w → Step still w w' → motive w → motive w') :
    Rooted w' ∧ motive w' := by
  induction steps with
  | refl => exact ⟨h, before⟩
  | tail _ last ih => exact ⟨last.rooted ih.1, step ih.1 last ih.2⟩

theorem weaken {still' : Prop} (steps : Steps still w w') (less : still' → still) :
    Steps still' w w' := by
  refine ReflTransGen.mono (fun w w' step => ?_) w w' steps
  cases step with
  | revised revised payloads => exact .revised revised fun quiet => payloads (less quiet)
  | turned live c => exact .turned live c
  | paged stays fresh => exact .paged stays fresh
  | opened dict params encoding => exact .opened dict params encoding
  | closed live => exact .closed live
  | aside home counts size pages => exact .aside home counts size pages

theorem rooted (steps : Steps still w w') (h : Rooted w) : Rooted w' :=
  (steps.keeps (motive := fun _ => True) h trivial fun _ _ _ => trivial).1

theorem read (w : Workspace) (n : Nat) : Steps still w { w with nextStream := n } :=
  .single (.aside rfl (fun _ _ => rfl) rfl fun _ _ => rfl)

theorem page {f : Page → Page} (stays : ∀ p, Stays p (f p)) (same : (f (w.page i)).streams =
    (w.page i).streams) : Steps still w (w.modifyPage i f) :=
  .single (.paged stays fun _ _ there => .inl (same ▸ there))

end Steps

theorem Doing.steps (doing : Doing i w w') : Steps still w w' := by
  cases doing with
  | turned live c => exact .single (.turned live c)
  | @read gs f ok stays _ streams =>
    refine (Steps.read w (w.nextStream + gs.length)).tail (.paged stays fun _ s there => ?_)
    obtain ⟨ns, -, ok⟩ := bindOk.mp ok
    obtain ⟨-, -, -, each⟩ := groupsOf ok
    exact (streams s there).symm.imp_right (each s)
  | reread ok =>
    exact .single (.paged (fun _ => ⟨rfl, rfl, rfl, rfl, rfl⟩) fun _ s there =>
      .inr (rereadAgain ok s there))
  | marked stays _ same => exact .page stays (same _)

theorem Hearing.steps {told : Nat → Prop} (hearing : Hearing told w w') : Steps still w w' := by
  cases hearing with
  | noted _ => exact .single (.aside rfl (fun _ _ => rfl) rfl fun _ _ => rfl)
  | page _ _ doing => exact doing.steps

theorem notifySteps (h : Homed w) (c : Change) : Steps still w (w.notify 0 c) := by
  have none : Steps still w w := .refl
  exact ((notifyHears h c).keeps h none fun _ hearing before => before.trans hearing.steps).2

theorem changedSteps (h : Rooted w) {d : Document} {c : Change} (changed : w.home.Changed d c)
    (payload : still → c.kind ≠ .payload) : Steps still w ((w.setDocument d).notify 0 c) := by
  have stored : Step still w (w.setDocument d) :=
    .revised changed.toRevised fun quiet => changed.payloads (payload quiet)
  exact .head stored (notifySteps (stored.rooted h).homed c)

theorem Deed.steps (deed : Deed σ w w') (keyed : σ.keyed) (h : Rooted w) : Steps σ.still w w' := by
  cases deed with
  | doing _ doing => exact doing.steps
  | hushed _ quiet => exact .page (fun _ => ⟨rfl, rfl, rfl, rfl, rfl⟩) rfl
  | numbered _ => exact .read w _
  | stored stores =>
    have revised := stores.revised keyed h.sound
    exact .single (.revised revised fun _ => revised.keeps.payloads)
  | changed allows =>
    obtain ⟨changed, payload⟩ := allows.changed keyed h.sound
    exact changedSteps h changed payload
  | opened _ dict params encoding => exact .single (.opened dict params encoding)
  | closed _ live => exact .single (.closed live)
  | forgotten _ last gone =>
    exact .single (.aside rfl (fun _ _ => rfl) rfl (h.homed.forget last gone).2)
  | held _ _ => exact .single (.aside rfl (fun _ _ => rfl) rfl fun _ _ => rfl)
  | @watched _ ws _ same =>
    refine .single (.aside (homeSet h.housed h.housed.2) (fun n j => ?_) ?_ fun _ _ => rfl)
    · have counts (ws : List Watch) : (ws.filter (·.watcher = .page j)).count ⟨n, .page j⟩ =
          ws.count ⟨n, .page j⟩ := List.count_filter (by simp)
      rw [← counts, same, counts]
    · simp [setDocument]

theorem Deeds.steps (deeds : Deeds σ w w') (keyed : σ.keyed) (h : Rooted w) :
    Steps σ.still w w' := by
  induction deeds with
  | refl => exact .refl
  | tail _ last ih => exact ih.trans (last.steps keyed (ih.rooted h))

theorem Deeds.rooted (deeds : Deeds σ w w') (keyed : σ.keyed) (h : Rooted w) : Rooted w' :=
  (deeds.steps keyed h).rooted h

namespace Rooted

theorem hush (h : Rooted w) (i : Nat) : Rooted (w.hush i) := by
  have hushed : Steps True w (w.hush i) := .page (fun _ => ⟨rfl, rfl, rfl, rfl, rfl⟩) rfl
  exact hushed.rooted h

theorem deed (h : Rooted w) (deeds : Deeds (.everywhere True True) w w') : Rooted w' :=
  deeds.rooted trivial h

theorem wake (h : Rooted w) (i : Nat) : Rooted (w.wake i) := h.deed (deedsWake trivial h.homed)

theorem does (h : Rooted w) (doing : Doing i w w') : Rooted w' := h.deed (doing.deeds trivial)

theorem asked {q : Request} {r : Except Fault Unit} (h : Rooted w)
    (asked : Request.Asked i w q r w') : Rooted w' :=
  h.deed (deedsAsked asked trivial h.homed fun _ _ => .inl fun _ => trivial)

end Rooted

end Workspace

end PageContent
