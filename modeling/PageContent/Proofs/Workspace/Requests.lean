import PageContent.Proofs.Workspace.Hushed

/-! All that may be asked of a page, what becomes of it, and what a page that was reset answers. -/
namespace PageContent

inductive Request where
  | load
  | rereadAll
  | streamAt (index : Nat)
  | add (side : Action.Side) (pieces : List Bytes)
  | removeAt (index : Nat)
  | removeStream (s : ContentStream)
  | raise (stream : Nat)
  | lower (stream : Nat)
  | raiseAt (index : Nat)
  | lowerAt (index : Nat)
  | listAll
  | textOf (encoding : Option String) (region : Option Rect)
  | matchesOf (needle : String) (caseSensitive : Bool)
  | reset

namespace Request
open Workspace Page ContentStream PageContent.Action

variable {w w₁ w' : Workspace} {i : Nat} {q : Request} {r : Except Fault Unit}

def silent {α : Type} (act : Action α) : Action Unit := do
  let _ ← act
  return

def run (i : Nat) : Request → Action Unit
  | load => Action.load i
  | rereadAll => Action.rereadAll i
  | streamAt index => silent (Action.streamAt i index)
  | add side pieces => silent (Action.add i side pieces)
  | removeAt index => Action.removeAt i index
  | removeStream s => Action.removeStream i s
  | raise stream => Action.raise i stream
  | lower stream => Action.lower i stream
  | raiseAt index => Action.raiseAt i index
  | lowerAt index => Action.lowerAt i index
  | listAll => Action.listAll i
  | textOf encoding region => silent (Action.textOf i encoding region)
  | matchesOf needle caseSensitive => silent (Action.matchesOf i needle caseSensitive)
  | reset => Action.reset i

def renews : Request → Bool
  | load | rereadAll | add _ _ | removeAt _ | removeStream _ | raise _ | lower _ | raiseAt _
  | lowerAt _ => true
  | streamAt _ | listAll | textOf _ _ | matchesOf _ _ | reset => false

def moves : Request → Bool
  | raise _ | lower _ | raiseAt _ | lowerAt _ => true
  | _ => false

def writes : Request → Bool
  | add _ _ | removeAt _ | removeStream _ | listAll => true
  | q => q.moves

theorem moved (moves : q.moves = true) : q.writes = true ∧ q.renews = true := by
  cases q with
  | raise _ | lower _ | raiseAt _ | lowerAt _ => exact ⟨rfl, rfl⟩
  | _ => cases moves

-- Moves by index look at the place before they look whether the page was reset.
def answer : Request → Except Fault Unit
  | raiseAt index | lowerAt index => .error (.outOfRange index 0)
  | reset => .ok ()
  | _ => .error (.object .pageReset)

theorem failedBound {α β : Type} {act : Action α} {fault : Fault}
    (failed : act.on w = (.error fault, w)) (f : α → Action β) :
    (act >>= f).on w = (.error fault, w) := by
  unfold on at failed ⊢
  simp only [ExceptT.run_bind, StateT.run_bind, failed]
  rfl

theorem refused (gone : (w.page i).live = false) :
    (livePage i).on w = (.error (.object .pageReset), w) := by
  rw [livePageOn, gone]
  rfl

theorem raiseAtPast {index : Nat} (past : (w.page i).streams.length ≤ index + 1) :
    (Action.raiseAt i index).on w =
      (.error (.outOfRange index (w.page i).streams.length), w) := by
  unfold Action.raiseAt
  rw [getBound]
  dsimp only
  rw [if_pos past]
  rfl

theorem lowerAtPast {index : Nat} (past : index = 0 ∨ (w.page i).streams.length ≤ index) :
    (Action.lowerAt i index).on w =
      (.error (.outOfRange index (w.page i).streams.length), w) := by
  unfold Action.lowerAt
  rw [getBound]
  dsimp only
  rw [if_pos (by simpa using past)]
  rfl

theorem loadRefused (gone : (w.page i).live = false) :
    (Action.load i).on w = (.error (.object .pageReset), w) := by
  have failed : w.load i = .error (.object .pageReset) := by
    simp only [Workspace.load, gone, Bool.not_false, if_true]
    rfl
  change (liftM (w.load i) >>= fun w' => set w' : Action Unit).on w = _
  rw [failed]
  rfl

theorem answered (gone : (w.page i).live = false) (empty : (w.page i).streams = []) (q : Request) :
    (q.run i).on w = (q.answer, w) := by
  have none : (w.page i).streams.length = 0 := congrArg List.length empty
  cases q with
  | load => exact loadRefused gone
  | raiseAt index =>
    have past : (Action.raiseAt i index).on w = _ := raiseAtPast (by omega)
    rwa [none] at past
  | lowerAt index =>
    have past : (Action.lowerAt i index).on w = _ := lowerAtPast (.inr (by omega))
    rwa [none] at past
  | reset => exact resetIdle gone
  | rereadAll => exact failedBound (refused gone) _
  | removeStream s => exact failedBound (refused gone) _
  | listAll => exact failedBound (refused gone) _
  | streamAt index => exact failedBound (failedBound (refused gone) _) _
  | add side pieces => exact failedBound (failedBound (refused gone) _) _
  | removeAt index => exact failedBound (failedBound (refused gone) _) _
  | raise stream => exact failedBound (failedBound (refused gone) _) _
  | lower stream => exact failedBound (failedBound (refused gone) _) _
  | textOf encoding region => exact failedBound (failedBound (refused gone) _) _
  | matchesOf needle caseSensitive => exact failedBound (failedBound (refused gone) _) _

/-- How an edit of a page ends whose steps left the workspace `w`: the page hears again, and unless
a step failed it reads what `/Contents` names and looks for what it added. -/
inductive Ends (i : Nat) (w : Workspace) (finds : List ContentStream → Prop) :
    Except Fault Unit → Except Fault Unit → Workspace → Prop where
  | failed (fault : Fault) : Ends i w finds (.error fault) (.error fault) (w.wake i)
  | unread (fault : Fault) : Ends i w finds (.ok ()) (.error fault) ((w.wake i).markInvalid i)
  | lost (fault : Fault) {gs : List ContentStream} (read : (w.wake i).reading i = .ok gs)
      (lost : ¬ finds (((w.wake i).regrouped i gs).page i).streams) :
      Ends i w finds (.ok ()) (.error fault) ((w.wake i).regrouped i gs)
  | renewed {gs : List ContentStream} (read : (w.wake i).reading i = .ok gs)
      (found : finds (((w.wake i).regrouped i gs).page i).streams) :
      Ends i w finds (.ok ()) (.ok ()) (((w.wake i).regrouped i gs).modifyPage i
        fun p => { p with revision := p.revision + 1 })

def Removes (q : Request) (p : Page) (s : ContentStream) : Prop :=
  q = .removeStream s ∨ ∃ index, q = .removeAt index ∧ p.streams[index]? = some s

theorem removesSame {p : Page} {s t : ContentStream} (which : (removeStream s).Removes p t) :
    t = s := by
  obtain same | ⟨_, same, -⟩ := which
  · cases same
    rfl
  · cases same

inductive Asked (i : Nat) (w : Workspace) : Request → Except Fault Unit → Workspace → Prop where
  | refused {q : Request} (fault : Fault) : Asked i w q (.error fault) w
  | answered {q : Request} (renews : q.renews = false) : Asked i w q (.ok ()) w
  | loaded {w' : Workspace} (live : (w.page i).live = true) (ok : w.load i = .ok w') :
      Asked i w .load (.ok ()) w'
  | reread {streams : List ContentStream} (live : (w.page i).live = true)
      (ok : (w.page i).streams.mapM (·.reread w.home (w.page i).params) = .ok streams) :
      Asked i w .rereadAll (.ok ()) ((w.modifyPage i fun p => { p with streams }).modifyPage i
        fun p => { p with revision := p.revision + 1 })
  | stored {side : Side} {pieces : List Bytes} {d : Document} {ref : Ref} (fault : Fault)
      (live : (w.page i).live = true)
      (new : w.home.addIndirect (.ofData (composed (w.page i).params pieces)) = (d, ref))
      (unfound : d.indirect ref = .error fault) :
      Asked i w (.add side pieces) (.error fault) (w.setDocument d)
  | added {side : Side} {pieces : List Bytes} {d : Document} {ref : Ref} {node : Nat}
      {res r : Except Fault Unit} {w₁ w' : Workspace} (live : (w.page i).live = true)
      (new : w.home.addIndirect (.ofData (composed (w.page i).params pieces)) = (d, ref))
      (found : d.indirect ref = .ok node)
      (run : (listRef (w.page i) ref side).on ((w.setDocument d).hush i) = (res, w₁))
      (ends : Ends i w₁ (fun streams => ∃ s ∈ streams, s.backing.any (·.node = node)) res r w') :
      Asked i w (.add side pieces) r w'
  | removed {q : Request} {s : ContentStream} {place : Nat} {v : Value} {res r : Except Fault Unit}
      {w₁ w' : Workspace} (which : q.Removes (w.page i) s) (live : (w.page i).live = true)
      (place : (w.page i).place s.id = .ok place)
      (entry : w.home.property? (w.page i).node contents = .ok (some v))
      (run : (s.backing.forM fun b => unlistRef (w.page i) b.ref : Action Unit).on (w.hush i) =
        (res, w₁))
      (ends : Ends i w₁ (fun _ => True) res r w') : Asked i w q r w'
  | exchanged {q : Request} {a : Nat} {res r : Except Fault Unit} {w₁ w' : Workspace}
      (moves : q.moves = true) (inside : a + 1 < (w.page i).streams.length)
      (live : (w.page i).live = true)
      (run : (writeList (w.page i) (exchanged (w.page i).streams a (a + 1))).on (w.hush i) =
        (res, w₁))
      (ends : Ends i w₁ (fun _ => True) res r w') : Asked i w q r w'
  | listed {res : Except Fault Unit} {w₁ : Workspace} (live : (w.page i).live = true)
      (run : (writeList (w.page i) (w.page i).streams).on (w.hush i) = (res, w₁)) :
      Asked i w .listAll res (w₁.wake i)
  | closed (live : (w.page i).live = true) : Asked i w .reset (.ok ()) (w.closed i)

theorem Ends.onward {finds : List ContentStream → Prop} {res : Except Fault Unit}
    (ends : Ends i w finds res r w')
    (h : Homed w) : Onward i w w' := by
  have awake := wakeOnward h i
  cases ends with
  | failed fault => exact awake
  | unread fault => exact awake.trans (invalidOnward _ i)
  | lost fault _ _ => exact awake.trans (regroupedOnward _ i _)
  | renewed _ _ => exact (awake.trans (regroupedOnward _ i _)).trans (.ofPage fun _ => ⟨rfl, rfl, rfl⟩)

theorem edited {α : Type} {steps : Action Unit} {after : Action α} {r : Except Fault α}
    (done : (quietly i steps >>= fun _ => refresh i >>= fun _ => after).on w = (r, w')) :
    ∃ res w₁, steps.on (w.hush i) = (res, w₁) ∧
      ((∃ fault, res = .error fault ∧ r = .error fault ∧ w' = w₁.wake i) ∨ res = .ok () ∧
        ((∃ fault, r = .error fault ∧ w' = (w₁.wake i).markInvalid i) ∨
        ∃ gs, (w₁.wake i).reading i = .ok gs ∧
          after.on ((w₁.wake i).regrouped i gs) = (r, w'))) := by
  cases run : steps.on (w.hush i) with
  | mk res w₁ =>
    have quiet : (quietly i steps).on w = (res, w₁.wake i) := by rw [quietlyOn, run]
    refine ⟨res, w₁, rfl, ?_⟩
    obtain ⟨_, w₂, first, done⟩ | ⟨fault, first, failed⟩ := bound done
    · cases quiet.symm.trans first
      refine .inr ⟨rfl, ?_⟩
      obtain ⟨_, w₃, second, last⟩ | ⟨fault, second, failed⟩ := bound done
      · obtain ⟨_, failed, -⟩ | ⟨gs, -, read, rfl⟩ := refreshDone second
        · cases failed
        · exact .inr ⟨gs, read, last⟩
      · obtain ⟨_, -, rfl⟩ | ⟨_, ok, -⟩ := refreshDone second
        · exact .inl ⟨fault, failed, rfl⟩
        · cases ok
    · cases quiet.symm.trans first
      exact .inl ⟨fault, rfl, failed, rfl⟩

theorem renewed {steps : Action Unit} (done : (quietly i steps >>= fun _ => refresh i >>= fun _ =>
      changed i : Action Unit).on w = (r, w')) :
    ∃ res w₁, steps.on (w.hush i) = (res, w₁) ∧ Ends i w₁ (fun _ => True) res r w' := by
  obtain ⟨res, w₁, run, ⟨fault, rfl, rfl, rfl⟩ | ⟨rfl, ⟨fault, rfl, rfl⟩ | ⟨gs, read, last⟩⟩⟩ :=
    edited done
  · exact ⟨_, w₁, run, .failed fault⟩
  · exact ⟨_, w₁, run, .unread fault⟩
  · rw [changedOn] at last
    cases last
    exact ⟨_, w₁, run, .renewed read trivial⟩

theorem streamAtSame {index : Nat} {r : Except Fault ContentStream}
    (done : (Action.streamAt i index).on w = (r, w')) :
    w' = w ∧ ∀ s, r = .ok s → (w.page i).streams[index]? = some s := by
  obtain ⟨-, done⟩ | ⟨e, rfl, rfl⟩ := boundLive done
  · split at done
    · rename_i there
      cases done
      refine ⟨rfl, fun s same => ?_⟩
      cases same
      exact there
    · cases done
      exact ⟨rfl, fun s same => by cases same⟩
  · exact ⟨rfl, fun s same => by cases same⟩

theorem placeOfSame {stream : Nat} {r : Except Fault Nat}
    (done : (placeOf i stream).on w = (r, w')) : w' = w := by
  obtain ⟨-, done⟩ | ⟨-, -, rfl⟩ := boundLive done
  · rw [onLift] at done
    exact (Prod.mk.inj done).2.symm
  · rfl

theorem textOfSame {encoding : Option String} {region : Option Rect} {r : Except Fault String}
    (done : (Action.textOf i encoding region).on w = (r, w')) : w' = w := by
  obtain ⟨-, done⟩ | ⟨-, -, rfl⟩ := boundLive done
  · have read {x : Except Fault Encoding} {r : Except Fault String} {w' : Workspace}
        (done : ((liftM x : Action Encoding) >>= fun e => drawn (w.page i) e >>= fun both =>
          pure (String.ofList (both.2.text (region.getD both.1)))).on w = (r, w')) : w' = w := by
      obtain ⟨e, -, done⟩ | ⟨-, -, -, same⟩ := boundLift done
      · cases done
        rfl
      · exact same
    cases encoding with
    | none => exact read done
    | some name => exact read done
  · rfl

theorem matchesOfSame {needle : String} {caseSensitive : Bool} {r : Except Fault (List Rect)}
    (done : (Action.matchesOf i needle caseSensitive).on w = (r, w')) : w' = w := by
  obtain ⟨-, done⟩ | ⟨-, -, rfl⟩ := boundLive done
  · cases done
    rfl
  · rfl

theorem askedSilent {α : Type} {act : Action α} (idle : q.renews = false)
    (same : ∀ {r w'}, act.on w = (r, w') → w' = w) (done : (silent act).on w = (r, w')) :
    Asked i w q r w' := by
  obtain ⟨a, w₁, first, last⟩ | ⟨fault, first, rfl⟩ := bound done
  · cases last
    obtain rfl := same first
    exact .answered idle
  · obtain rfl := same first
    exact .refused fault

theorem askedLoad (done : (Action.load i).on w = (r, w')) : Asked i w .load r w' := by
  obtain ⟨rfl, live, ok⟩ | ⟨fault, rfl, rfl⟩ := boundLoad done
  · exact .loaded live ok
  · exact .refused fault

theorem askedReread (h : Homed w) (done : (Action.rereadAll i).on w = (r, w')) :
    Asked i w .rereadAll r w' := by
  obtain ⟨streams, rfl, live, ok, rfl⟩ | ⟨fault, rfl, rfl⟩ := boundReread done
  · rw [h.here i live] at ok
    exact .reread live ok
  · exact .refused fault

theorem askedExchange {a : Nat} (moves : q.moves = true)
    (inside : a + 1 < (w.page i).streams.length)
    (done : (exchange i a (a + 1)).on w = (r, w')) : Asked i w q r w' := by
  obtain ⟨live, done⟩ | ⟨fault, rfl, rfl⟩ := boundLive done
  · obtain ⟨res, w₁, run, ends⟩ := renewed done
    exact .exchanged moves inside live run ends
  · exact .refused fault

theorem askedRaise {index : Nat} (moves : q.moves = true)
    (done : (Action.raiseAt i index).on w = (r, w')) : Asked i w q r w' := by
  unfold Action.raiseAt at done
  rw [getBound] at done
  dsimp only at done
  split at done
  · cases done
    exact .refused _
  · rename_i inside
    exact askedExchange moves (Nat.not_le.mp inside) done

theorem askedLower {index : Nat} (moves : q.moves = true)
    (done : (Action.lowerAt i index).on w = (r, w')) : Asked i w q r w' := by
  unfold Action.lowerAt at done
  rw [getBound] at done
  dsimp only at done
  split at done
  · cases done
    exact .refused _
  · rename_i inside
    simp only [Bool.or_eq_true, decide_eq_true_eq, not_or, Nat.not_le] at inside
    obtain ⟨a, rfl⟩ := Nat.exists_eq_succ_of_ne_zero inside.1
    exact askedExchange moves inside.2 done

theorem askedPlace {stream : Nat} {move : Nat → Action Unit}
    (asked : ∀ {index}, (move index).on w = (r, w') → Asked i w q r w')
    (done : (placeOf i stream >>= move).on w = (r, w')) : Asked i w q r w' := by
  obtain ⟨index, w₁, first, later⟩ | ⟨fault, first, rfl⟩ := bound done
  · obtain rfl := placeOfSame first
    exact asked later
  · obtain rfl := placeOfSame first
    exact .refused fault

theorem askedRemove (h : Homed w) {s : ContentStream} (which : q.Removes (w.page i) s)
    (done : (Action.removeStream i s).on w = (r, w')) : Asked i w q r w' := by
  obtain ⟨live, done⟩ | ⟨fault, rfl, rfl⟩ := boundLive done
  · obtain ⟨_, place, done⟩ | ⟨fault, -, rfl, rfl⟩ := boundLift done
    · rw [documentBound (h.here i live)] at done
      obtain ⟨entry, found, done⟩ | ⟨fault, -, rfl, rfl⟩ := boundLift done
      · cases entry with
        | none =>
          cases done
          exact .refused _
        | some v =>
          obtain ⟨res, w₁, run, ends⟩ := renewed done
          exact .removed which live place found run ends
      · exact .refused fault
    · exact .refused fault
  · exact .refused fault

theorem askedAdd (h : Homed w) {side : Side} {pieces : List Bytes}
    {r : Except Fault ContentStream} (done : (Action.add i side pieces).on w = (r, w')) :
    Asked i w (.add side pieces) (r.map fun _ => ()) w' := by
  obtain ⟨live, done⟩ | ⟨fault, rfl, rfl⟩ := boundLive done
  · obtain ⟨tree, -, done⟩ | ⟨fault, -, rfl, rfl⟩ := boundLift done
    · rw [h.here i live] at done
      cases new : w.home.addIndirect (.ofData (composed (w.page i).params pieces)) with
      | mk d ref =>
        have id : d.id = w.home.id :=
          (congrArg (fun both => both.1.id) new).symm
        obtain ⟨home, -⟩ := h.put id
        have stored : (addIndirect 0 (.ofData (composed (w.page i).params pieces))).on w =
            (.ok ref, w.setDocument d) := by
          rw [addIndirectOn, new]
        rw [thenBound stored, documentBound (h.here i live), home] at done
        obtain ⟨node, found, done⟩ | ⟨fault, unfound, rfl, rfl⟩ := boundLift done
        · obtain ⟨res, w₁, run, ⟨fault, rfl, rfl, rfl⟩ | ⟨rfl, ⟨fault, rfl, rfl⟩ | ⟨gs, read, last⟩⟩⟩ :=
            edited done
          · exact .added live new found run (.failed fault)
          · exact .added live new found run (.unread fault)
          · refine .added live new found run ?_
            rw [getBound] at last
            split at last
            · rename_i s there
              cases last
              have behind := List.find?_some there
              exact .renewed read ⟨s, List.mem_of_find?_eq_some there, behind⟩
            · rename_i absent
              cases last
              refine .lost _ read fun ⟨s, member, behind⟩ => ?_
              exact List.find?_eq_none.mp absent s member behind
        · exact .stored fault live new unfound
    · exact .refused fault
  · exact .refused fault

theorem asked (h : Homed w) (done : (q.run i).on w = (r, w')) : Asked i w q r w' := by
  cases q with
  | load => exact askedLoad done
  | rereadAll => exact askedReread h done
  | streamAt index => exact askedSilent rfl (fun done => (streamAtSame done).1) done
  | add side pieces =>
    obtain ⟨s, w₁, first, last⟩ | ⟨fault, first, rfl⟩ := bound done
    · cases last
      exact askedAdd h first
    · exact askedAdd h first
  | removeAt index =>
    obtain ⟨s, w₁, first, later⟩ | ⟨fault, first, rfl⟩ := bound done
    · obtain ⟨rfl, there⟩ := streamAtSame first
      exact askedRemove h (.inr ⟨index, rfl, there s rfl⟩) later
    · obtain ⟨rfl, -⟩ := streamAtSame first
      exact .refused fault
  | removeStream s => exact askedRemove h (.inl rfl) done
  | raise stream => exact askedPlace (askedRaise rfl) done
  | lower stream => exact askedPlace (askedLower rfl) done
  | raiseAt index => exact askedRaise rfl done
  | lowerAt index => exact askedLower rfl done
  | listAll =>
    obtain ⟨live, done⟩ | ⟨fault, rfl, rfl⟩ := boundLive done
    · rw [quietlyOn] at done
      cases done
      exact .listed live rfl
    · exact .refused fault
  | textOf encoding region => exact askedSilent rfl textOfSame done
  | matchesOf needle caseSensitive => exact askedSilent rfl matchesOfSame done
  | reset =>
    cases live : (w.page i).live with
    | false =>
      cases (resetIdle live).symm.trans done
      exact .answered rfl
    | true =>
      cases (resetOn (h.here i live) live).symm.trans done
      exact .closed live

end Request

end PageContent
