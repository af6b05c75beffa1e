import PageContent.Proofs.Document.Patched
import PageContent.Proofs.Page.Owned
import PageContent.Proofs.Workspace.Sessions

/-! The deeds that any call is made of, whether it succeeds or not. What lasts through each deed
lasts through every call. -/
namespace PageContent
open Document

/-- What may be done: dictionaries that are stored have distinct keys, no payload is replaced, these
containers are changed at most, these pages act at most, and recorders come and go. -/
structure Scope where
  keyed : Prop
  still : Prop
  touched : Nat → Prop
  pages : Nat → Prop
  recorders : Prop

namespace Scope

structure Stores (σ : Scope) (d d' : Document) : Prop where
  grown : d.Grown d'
  revised : σ.keyed → d.Sound → d.Revised none d'

structure Allows (σ : Scope) (d d' : Document) (c : Change) : Prop where
  patches : d.Patches d' c
  changed : σ.keyed → d.Sound → d.Changed d' c ∧ (σ.still → c.kind ≠ .payload)
  touched : σ.touched c.node

def everywhere (keyed still : Prop) : Scope := ⟨keyed, still, fun _ => True, fun _ => True, True⟩

def steps (σ : Scope) : Scope := { σ with pages := fun _ => False, recorders := False }

def Grants (σ : Scope) (owns : (Nat → Prop) → Document → Nat → Prop) (d : Document) (page : Nat) :
    Prop :=
  (∀ n, σ.touched n) ∨ d.Sound ∧ d.kind page = .ok .dict ∧ owns σ.touched d page

end Scope

namespace Scope
open Page

variable {σ : Scope} {d d' : Document} {page : Nat} {ref : Ref}

theorem stores {o : Object} (keyed : σ.keyed → o.Keyed) (added : d.addIndirect o = (d', ref)) :
    σ.Stores d d' := by
  refine ⟨?_, fun all sound => addIndirectRevised sound (keyed all) added⟩
  have grown := addIndirectGrown d o
  rwa [added] at grown

namespace Grants

theorem touches (grants : σ.Grants Owns d page) : σ.touched page := by
  obtain all | ⟨-, -, owns⟩ := grants
  · exact all _
  · exact owns.dict

theorem removes (grants : σ.Grants Owns d page) : σ.Grants Removes d page :=
  grants.imp_right fun ⟨sound, dict, owns⟩ => ⟨sound, dict, owns.removes⟩

theorem added {data : Bytes} (grants : σ.Grants Owns d page)
    (added : d.addIndirect (.ofData data) = (d', ref)) : σ.Grants Owns d' page := by
  refine grants.imp_right fun ⟨sound, dict, owns⟩ => ?_
  have stored := addIndirectRevised sound (keyedData data) added
  exact ⟨stored.sound, stored.kind dict, owns.added sound dict added⟩

theorem unlisted {c : Change} (grants : σ.Grants Removes d page)
    (ok : Page.unlisted d page ref = .ok (d', c)) :
    σ.Allows d d' c ∧ ∀ ws, σ.Grants Removes { d' with watches := ws } page := by
  have patches : Patches d d' c := by
    obtain ok | ⟨_, _, _, _, -, -, ok⟩ := unlistedShape ok
    · exact setPropertyPatches ok
    · exact removeElementPatches ok
  have harmless (sound : d.Sound) := unlistedHarmless sound ok
  have allows (touched : σ.touched c.node) : σ.Allows d d' c :=
    ⟨patches, fun _ sound => ⟨(harmless sound).changed, fun _ => (harmless sound).quiet⟩, touched⟩
  obtain all | ⟨sound, dict, owns⟩ := grants
  · exact ⟨allows (all _), fun _ => .inl all⟩
  · obtain ⟨within, owns'⟩ := owns.unlisted sound dict ok
    obtain ⟨objects, values, keyed⟩ := (harmless sound).changed.sound
    exact ⟨allows within, fun ws => .inr ⟨⟨objects, values, keyed⟩,
      (harmless sound).changed.kind dict, owns'.dict, owns'.array⟩⟩

end Grants

end Scope

namespace Workspace
open Page Relation PageContent.Action ContentStream

variable {σ : Scope} {w w' w₁ : Workspace} {i j : Nat} {p : Page} {q : Request}
  {res r : Except Fault Unit}

inductive Deed (σ : Scope) : Workspace → Workspace → Prop where
  | doing {i : Nat} {w w' : Workspace} (may : σ.pages i) (does : Doing i w w') : Deed σ w w'
  | hushed {w : Workspace} {i : Nat} (may : σ.pages i) (quiet : Bool) :
      Deed σ w (w.modifyPage i fun p => { p with quiet })
  | numbered {w : Workspace} {next : Nat} (further : w.nextStream ≤ next) :
      Deed σ w { w with nextStream := next }
  | stored {w : Workspace} {d : Document} (stores : σ.Stores w.home d) : Deed σ w (w.setDocument d)
  | changed {w : Workspace} {d : Document} {c : Change} (allows : σ.Allows w.home d c) :
      Deed σ w ((w.setDocument d).notify 0 c)
  | opened {w : Workspace} {node : Nat} (may : σ.pages w.pages.size)
      (dict : w.home.kind node = .ok .dict) (params : Params) (encoding : Encoding) :
      Deed σ w (w.opened node params encoding)
  | closed {w : Workspace} {i : Nat} (may : σ.pages i) (live : (w.page i).live = true) :
      Deed σ w (w.closed i)
  | forgotten {w : Workspace} {i : Nat} (may : σ.pages i) (last : w.pages.size = i + 1)
      (gone : (w.page i).live = false) : Deed σ w w.forget
  | held {w : Workspace} (may : σ.recorders) (recorders : Array Bool) :
      Deed σ w { w with recorders }
  | watched {w : Workspace} {ws : List Watch} (may : σ.recorders)
      (same : ∀ i, ws.filter (·.watcher = .page i) = w.home.watches.filter (·.watcher = .page i)) :
      Deed σ w (w.setDocument { w.home with watches := ws })

abbrev Deeds (σ : Scope) : Workspace → Workspace → Prop := ReflTransGen (Deed σ)

theorem Homed.forget (h : Homed w) (last : w.pages.size = i + 1) (gone : (w.page i).live = false) :
    Homed w.forget ∧ ∀ j, (w.forget.page j).live = true ∨ (w.page j).live = true →
      w.forget.page j = w.page j := by
  have same (j : Nat) (open' : (w.forget.page j).live = true ∨ (w.page j).live = true) :
      w.forget.page j = w.page j := by
    refine pagePop w fun out => ?_
    obtain rfl : j = i := by omega
    obtain there | there := open'
    · simp [Workspace.forget, Workspace.page, last, Page.absent] at there
    · rw [gone] at there
      cases there
  refine ⟨⟨h.housed, fun j live => ?_⟩, same⟩
  have before := same j (.inl live)
  rw [before] at live ⊢
  exact h.here j live

theorem Deed.homed (deed : Deed σ w w') (h : Homed w) : Homed w' := by
  cases deed with
  | doing _ does => exact h.only (does.only h.housed)
  | hushed _ quiet => exact h.onward (quietOnward w _ quiet)
  | numbered _ | held _ _ => exact ⟨h.housed, h.here⟩
  | stored stores => exact (h.put stores.grown.id).2
  | changed allows =>
    have homed := (h.put allows.patches.id).2
    exact (notifyHeard homed _).homed homed
  | opened _ _ params encoding => exact openedHomed h _ params encoding
  | closed _ live =>
    obtain ⟨apart, gone, -⟩ := closedApart h.housed (h.here _ live) live
    refine h.apart apart fun live' => ?_
    rw [gone] at live'
    cases live'
  | forgotten _ last gone => exact (h.forget last gone).1
  | @watched w ws _ _ => exact (h.put (d := { w.home with watches := ws }) rfl).2

theorem Deeds.keeps {P : Workspace → Prop} (deeds : Deeds σ w w') (h : Homed w) (before : P w)
    (each : ∀ {w w'}, Homed w → Deed σ w w' → P w → P w') : Homed w' ∧ P w' := by
  induction deeds with
  | refl => exact ⟨h, before⟩
  | tail _ last ih => exact ⟨last.homed ih.1, each ih.1 last ih.2⟩

theorem Deeds.homed (deeds : Deeds σ w w') (h : Homed w) : Homed w' :=
  (deeds.keeps (P := fun _ => True) h trivial fun _ _ _ => trivial).1

theorem Deeds.ofSteps (deeds : Deeds σ.steps w w') : Deeds σ w w' := by
  refine ReflTransGen.mono (fun w w' deed => ?_) w w' deeds
  cases deed with
  | doing may _ | hushed may _ | opened may _ _ _ | closed may _ | forgotten may _ _ | held may _
  | watched may _ => cases may
  | numbered further => exact .numbered further
  | stored stores => exact .stored ⟨stores.grown, stores.revised⟩
  | changed allows => exact .changed ⟨allows.patches, allows.changed, allows.touched⟩

theorem Deeds.placed (deeds : Deeds σ.steps w w') (h : Homed w) (j : Nat) :
    Placed (w.page j) (w'.page j) ∧ ((w.page j).quiet = true → w'.page j = w.page j) := by
  refine (deeds.keeps (P := fun w' => Placed (w.page j) (w'.page j) ∧
    ((w.page j).quiet = true → w'.page j = w.page j)) h ⟨.refl _, fun _ => rfl⟩
    fun {w₁ w₂} homed deed before => ?_).2
  cases deed with
  | doing may _ | hushed may _ | opened may _ _ _ | closed may _ | forgotten may _ _ | held may _
  | watched may _ => cases may
  | numbered _ | stored _ => exact before
  | @changed _ d c allows =>
    have homed' := (homed.put allows.patches.id).2
    refine ⟨before.1.trans ((notifyHeard homed' c).placed j), fun quiet => ?_⟩
    have same := before.2 quiet
    exact (notifySpared homed' c (by rw [← same] at quiet; exact quiet)).trans same

theorem Doing.deeds (doing : Doing i w w') (may : σ.pages i) : Deeds σ w w' :=
  .single (.doing may doing)

theorem Doings.deeds (does : Doings i w w') (may : σ.pages i) : Deeds σ w w' :=
  ReflTransGen.mono (fun _ _ each => Deed.doing may each) w w' does

theorem deedsChange {f : Document → Except Fault (Document × Change)} {r : Except Fault Unit}
    (allows : ∀ {d c}, f w.home = .ok (d, c) → σ.Allows w.home d c)
    (done : (change 0 f).on w = (r, w')) : Deeds σ w w' := by
  rw [changeOn] at done
  split at done
  · rename_i ok
    cases done
    exact .single (.changed (allows ok))
  · cases done
    exact .refl

theorem deedsListRef (grants : σ.Grants Owns w.home p.node) (here : p.document = 0) {ref : Ref}
    {side : Side} (done : (listRef p ref side).on w = (res, w')) : Deeds σ w w' := by
  rw [listRefOn here] at done
  refine deedsChange (fun ok => ⟨?_, fun _ sound => ?_, ?_⟩) done
  · obtain ⟨-, ok⟩ | ⟨-, -, -, ok⟩ | ⟨-, -, -, ok⟩ := listedExact.mp ok
    · exact setPropertyPatches ok
    · exact setPropertyPatches ok
    · exact insertElementPatches ok
  · obtain ⟨changed, quiet, -⟩ := listedChanged sound ok
    exact ⟨changed, fun _ => quiet⟩
  · obtain all | ⟨-, -, owns⟩ := grants
    · exact all _
    · exact owns.listed ok

theorem deedsUnlistAll (grants : σ.Grants Removes w.home p.node) (here : p.document = 0)
    (h : Homed w) {bs : List Backing}
    (done : (bs.forM fun b => unlistRef p b.ref : Action Unit).on w = (res, w')) : Deeds σ w w' := by
  induction bs generalizing w with
  | nil =>
    cases done
    exact .refl
  | cons b rest ih =>
    have first {r : Except Fault Unit} {w₁ : Workspace} (run : (unlistRef p b.ref).on w = (r, w₁)) :
        Deeds σ w w₁ := by
      rw [unlistRefOn here] at run
      exact deedsChange (fun ok => (grants.unlisted ok).1) run
    change (unlistRef p b.ref >>= fun _ => rest.forM fun b => unlistRef p b.ref : Action Unit).on w =
      _ at done
    obtain ⟨_, w₁, run, later⟩ | ⟨_, run, _⟩ := bound done
    · refine (first run).trans (ih ?_ ((first run).homed h) later)
      rw [unlistRefOn here] at run
      cases ok : unlisted w.home p.node b.ref with
      | error fault =>
        rw [changeOn, ok] at run
        cases run
      | ok both =>
        obtain ⟨d, c⟩ := both
        obtain ⟨allows, after⟩ := grants.unlisted ok
        obtain ⟨heard, home, -⟩ := changeHeard h run ok allows.patches.id
        obtain ⟨ws, same⟩ := heard.home
        rw [same, home]
        exact after ws
    · exact first run

theorem deedsMutate {node : Nat} {f : Document → Except Fault (Document × Change)}
    (mutator : Mutator node f) (touched : σ.touched node)
    (changed : σ.keyed → w.home.Sound → ∀ {d c}, f w.home = .ok (d, c) →
      w.home.Changed d c ∧ (σ.still → c.kind ≠ .payload))
    (done : (change 0 f).on w = (res, w')) : Deeds σ w w' :=
  deedsChange (fun ok => ⟨mutator.patches ok, fun all sound => changed all sound ok,
    mutator.node ok ▸ touched⟩) done

theorem deedsDelete {node : Nat} (touched : σ.touched node) (key : String)
    (done : (delProperty 0 node key).on w = (res, w')) : Deeds σ w w' :=
  deedsMutate (.delProperty node key) touched
    (fun _ sound _ _ ok => (delPropertyChanged sound ok).imp_right fun quiet _ => quiet) done

theorem deedsSet {node : Nat} (touched : σ.touched node) (key : String) {o : Object}
    (keyed : σ.keyed → o.Keyed) (done : (setProperty 0 node key o).on w = (res, w')) :
    Deeds σ w w' :=
  deedsMutate (.setProperty node key o) touched
    (fun all sound _ _ ok => (setPropertyChanged sound (keyed all) ok).imp_right fun quiet _ => quiet)
    done

theorem deedsWriteList (touched : σ.touched p.node) (here : p.document = 0)
    {streams : List ContentStream} (done : (writeList p streams).on w = (res, w')) :
    Deeds σ w w' := by
  have keyed := keyedRefs (refs streams)
  unfold writeList at done
  rw [documentBound here, refsObjects, here] at done
  obtain ⟨entry, -, done⟩ | ⟨-, -, -, rfl⟩ := boundLift done
  · split at done
    · obtain ⟨_, w₁, first, later⟩ | ⟨_, first, -⟩ := bound done
      · exact (deedsDelete touched _ first).trans (deedsSet touched _ (fun _ => keyed) later)
      · exact deedsDelete touched _ first
    · exact deedsSet touched _ (fun _ => keyed) done
  · exact .refl

theorem deedsEdited (may : σ.pages i) (h : Homed w) (live : (w.page i).live = true)
    (steps : Deeds σ.steps (w.hush i) w₁) :
    Deeds σ w w₁ ∧ Homed w₁ ∧ w₁.page i = { w.page i with quiet := true } := by
  have hushed : Deed σ w (w.hush i) := .hushed may true
  have page := hushPage live
  refine ⟨.head hushed steps.ofSteps, steps.homed (hushed.homed h), ?_⟩
  rw [(steps.placed (hushed.homed h) i).2 (by rw [page]), page]

theorem deedsWake (may : σ.pages i) (h : Homed w) : Deeds σ w (w.wake i) :=
  .head (.hushed may false) ((wakeDoes h i).deeds may)

theorem regroupedDoes (h : Homed w) (live : (w.page i).live = true) {gs : List ContentStream}
    (read : w.reading i = .ok gs) : Doing i w (w.regrouped i gs) := by
  rw [readingHere (h.here i live)] at read
  refine .read read (fun _ => ⟨rfl, rfl, rfl, rfl, rfl⟩) (fun _ => rfl) fun s there => ?_
  obtain ⟨fresh, new, rfl⟩ := List.mem_map.mp there
  obtain same | ⟨old, -⟩ := keptCases (w.page i).streams fresh
  · rw [same]
    exact .inl new
  · exact .inr old

theorem countedDoes (w : Workspace) (i : Nat) :
    Doing i w (w.modifyPage i fun p => { p with revision := p.revision + 1 }) :=
  .marked (fun _ => ⟨rfl, rfl, rfl, rfl, rfl⟩) (fun _ => rfl) fun _ => rfl

theorem deedsEnds {finds : List ContentStream → Prop} (may : σ.pages i) (h : Homed w)
    (live : (w.page i).live = true) (ends : Request.Ends i w finds res r w') : Deeds σ w w' := by
  have awake : Deeds σ w (w.wake i) := deedsWake may h
  have homed := awake.homed h
  have live' := (wakeOnward h i).remains.live.trans live
  cases ends with
  | failed fault => exact awake
  | unread fault => exact awake.trans ((invalidDoes _ i).deeds may)
  | lost fault read _ => exact awake.trans ((regroupedDoes homed live' read).deeds may)
  | renewed read _ =>
    exact (awake.trans ((regroupedDoes homed live' read).deeds may)).trans
      ((countedDoes _ i).deeds may)

theorem deedsAsked (asked : Request.Asked i w q r w') (may : σ.pages i) (h : Homed w)
    (grants : q.writes = true → (w.page i).live = true → σ.Grants Owns w.home (w.page i).node) :
    Deeds σ w w' := by
  have ended {finds : List ContentStream → Prop} {res : Except Fault Unit} {w₀ w₁ : Workspace}
      (h : Homed w₀) (live : (w₀.page i).live = true) (steps : Deeds σ.steps (w₀.hush i) w₁)
      (ends : Request.Ends i w₁ finds res r w') : Deeds σ w₀ w' := by
    obtain ⟨deeds, homed, page⟩ := deedsEdited may h live steps
    exact deeds.trans (deedsEnds may homed (by rw [page]; exact live) ends)
  cases asked with
  | refused _ | answered _ => exact .refl
  | loaded live ok => exact (loadDoes h live ok).deeds may
  | reread live ok => exact (Doing.deeds (.reread ok) may).trans ((countedDoes _ i).deeds may)
  | stored fault live new _ => exact .single (.stored (Scope.stores (fun _ => keyedData _) new))
  | @added side pieces d ref node res r w₁ w' live new found run ends =>
    have stores : σ.Stores w.home d := Scope.stores (fun _ => keyedData _) new
    obtain ⟨home, homed⟩ := h.put stores.grown.id
    have owns := (grants rfl live).added new
    rw [← home] at owns
    have steps : Deeds σ.steps ((w.setDocument d).hush i) w₁ :=
      deedsListRef (σ := σ.steps) owns (h.here i live) run
    exact .head (.stored stores) (ended homed live steps ends)
  | removed which live _ _ run ends =>
    have writes : q.writes = true := by
      obtain rfl | ⟨_, rfl, -⟩ := which
      · rfl
      · rfl
    exact ended h live (deedsUnlistAll (σ := σ.steps) (grants writes live).removes (h.here i live)
      (h.onward (quietOnward w i true)) run) ends
  | exchanged moves _ live run ends =>
    have own := (grants (Request.moved moves).1 live).touches
    exact ended h live (deedsWriteList (σ := σ.steps) own (h.here i live) run) ends
  | listed live run =>
    obtain ⟨deeds, homed, -⟩ := deedsEdited may h live
      (deedsWriteList (σ := σ.steps) (grants rfl live).touches (h.here i live) run)
    exact deeds.trans (deedsWake may homed)
  | closed live => exact .single (.closed may live)

theorem registrationsKept (ws : List Watch) {p : Watch → Bool} (kept : ∀ n, p ⟨n, .page j⟩ = true) :
    (ws.filter p).filter (·.watcher = .page j) = ws.filter (·.watcher = .page j) := by
  rw [List.filter_filter]
  refine List.filter_congr fun ⟨n, x⟩ _ => ?_
  by_cases own : x = .page j
  · subst own
    rw [kept n]
    exact Bool.and_true _
  · simp [own]

theorem deedsOpen {node : Nat} {params : Params} {encoding : Encoding} {r : Except Fault Nat}
    (may : σ.pages w.pages.size) (h : Homed w)
    (done : (openPage 0 node params encoding).on w = (r, w')) : Deeds σ w w' := by
  obtain rfl | ⟨dict, ending⟩ := openCases done
  · exact .refl
  · have opened : Deed σ w (w.opened node params encoding) := .opened may dict params encoding
    have homed := opened.homed h
    have page := openedPage w node params encoding
    have live : ((w.opened node params encoding).page w.pages.size).live = true := by rw [page]; rfl
    obtain ⟨w₂, follows, rfl⟩ | rfl := ending
    · exact .head opened ((followLoadDoes homed live follows).deeds may)
    · obtain ⟨-, gone, -, -, size⟩ := closedApart homed.housed (homed.here _ live) live
      exact ((ReflTransGen.single opened).tail (.closed may live)).tail
        (.forgotten may (size.trans (openedSize w node params encoding)) gone)

theorem deedsRegister {d : Document} {node recorder : Nat} (may : σ.recorders)
    (ok : w.home.register node (.recorder recorder) = .ok d) : Deeds σ w (w.setDocument d) := by
  obtain rfl := registerOk ok
  exact .single (.watched may fun i => by simp)

end Workspace

namespace Call
open PageContent.Action Workspace Document Relation

variable {σ : Scope} {c : Call} {w w' : Workspace} {i : Nat} {held : List ContentStream}
  {res : Except Fault (List ContentStream)}

def records : Call → Bool
  | observe _ | observeAgain _ _ | unobserve _ _ | dropRecorder _ => true
  | _ => false

structure Within (σ : Scope) (held : List ContentStream) (w : Workspace) (c : Call) : Prop where
  fits : σ.keyed → c.Fits held
  still : σ.still → ∀ node data, c ≠ .setStreamData node data
  target : ∀ node, c.target? = some node → σ.touched node
  pages : ∀ i q, c.request? = some (i, q) → σ.pages i ∧ (q.writes = true →
    (w.page i).live = true → σ.Grants Page.Owns w.home (w.page i).node)
  opens : σ.pages w.pages.size
  records : c.records = true → σ.recorders

theorem deedsOutside (none : c.request? = none) (h : Homed w) (within : c.Within σ held w)
    (done : c.run.on w = (res, w')) : Deeds σ w w' := by
  obtain ⟨fits, still, target, -, opens, records⟩ := within
  cases c.outside none done with
  | failed _ | reread _ _ _ _ | streams _ => exact .refl
  | indirect o => exact .single (.stored (Scope.stores fits rfl))
  | direct o =>
    exact .single (.stored ⟨addDirectGrown _ o, fun all sound => addDirectRevised sound (fits all) rfl⟩)
  | changed alters ok =>
    have mutator := alters.mutator
    refine .single (.changed ⟨mutator.patches ok, fun all sound => ?_, ?_⟩)
    · exact (alters.changed sound (fits all) ok).imp_right fun quiet may => quiet (still may)
    · rw [mutator.node ok]
      exact target _ alters.target
  | held _ _ => exact .single (.held (records rfl) _)
  | observed ok => exact .head (.held (records rfl) _) (deedsRegister (records rfl) ok)
  | observedAgain ok => exact deedsRegister (records rfl) ok
  | unobserved _ _ =>
    exact .single (.watched (records rfl) fun i => registrationsKept _ fun n => by simp)
  | dropped _ => exact .single (.held (records rfl) _)
  | madeStream _ _ _ => exact .single (.numbered (Nat.le_succ _))
  | madeGroups _ _ _ => exact .single (.numbered (Nat.le_add_right _ _))
  | opens run => exact deedsOpen opens h run

theorem deeds (h : Homed w) (within : c.Within σ held w) (done : c.run.on w = (res, w')) :
    Deeds σ w w' := by
  cases asks : c.request? with
  | none => exact deedsOutside asks h within done
  | some both =>
    obtain ⟨i, q⟩ := both
    obtain ⟨may, grants⟩ := within.pages i q asks
    exact deedsAsked (c.asked asks h done) may h grants

end Call

end PageContent
