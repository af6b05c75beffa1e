import PageContent.Proofs.Drawing.Performed

/-! What is drawn between saving a state and restoring it leaves nothing behind, however the
states that it saves and restores itself cross the bounds of blocks. -/
namespace PageContent.Drawing

namespace Dispatch

def isSave (d : Dispatch) : Bool := d.name = "q"

def isRestore (d : Dispatch) : Bool := d.name = "Q"

end Dispatch

section
variable {encoding : Encoding} {s : State}

theorem performSave (operands : List Operand) :
    perform encoding s "q" operands = ({ s with saved := (s.ctm, s.text) :: s.saved }, []) := rfl

theorem performSaved {name : String} (operands : List Operand) (save : name ≠ "q")
    (restore : name ≠ "Q") : (perform encoding s name operands).1.saved = s.saved := by
  by_cases mark : name ∈ ["BMC", "BDC", "EMC"]
  · simp only [List.mem_cons, List.not_mem_nil, or_false] at mark
    obtain rfl | rfl | rfl := mark
    · unfold perform
      cases tag? operands <;> rfl
    · unfold perform
      cases tag? operands <;> rfl
    · rfl
  · refine (Plain.performed encoding s operands ?_).saved
    simpa [save, restore] using mark

theorem performCtm (name : String) (operands : List Operand) :
    ctmAfter s.ctm (perform encoding s name operands).2 = (perform encoding s name operands).1.ctm := by
  by_cases special : name ∈ ["q", "Q", "BMC", "BDC", "EMC"]
  · simp only [List.mem_cons, List.not_mem_nil, or_false] at special
    obtain rfl | rfl | rfl | rfl | rfl := special
    · rfl
    · cases saved : s.saved with
      | nil => rw [performUnsaved saved]; rfl
      | cons entry below => rw [performRestore saved]; rfl
    · unfold perform
      cases tag? operands <;> rfl
    · unfold perform
      cases tag? operands <;> rfl
    · rfl
  · exact (Plain.performed encoding s operands special).ctm

theorem performBelow (d : Dispatch) {above below : List (Matrix × TextState)}
    (saved : s.saved = above ++ below) (covered : (if d.isRestore then 1 else 0) ≤
      above.length + (if d.isSave then 1 else 0)) :
    ∃ above', (perform encoding s d.name d.operands).1.saved = above' ++ below ∧
      above'.length + (if d.isRestore then 1 else 0) =
        above.length + (if d.isSave then 1 else 0) := by
  obtain ⟨name, operands⟩ := d
  by_cases save : name = "q"
  · subst save
    exact ⟨(s.ctm, s.text) :: above, by rw [performSave, saved, List.cons_append], rfl⟩
  by_cases restore : name = "Q"
  · subst restore
    cases above with
    | nil => cases covered
    | cons entry above => exact ⟨above, by rw [performRestore saved]; rfl, rfl⟩
  · refine ⟨above, by rw [performSaved operands save restore, saved], ?_⟩
    simp [Dispatch.isSave, Dispatch.isRestore, save, restore]

end

variable (encoding : Encoding)

theorem ctmKept (s : State) (ds : List Dispatch) :
    ctmAfter s.ctm (performAll encoding s ds).2 = (performAll encoding s ds).1.ctm := by
  induction ds generalizing s with
  | nil => rfl
  | cons d rest ih => rw [performAll, ctmAfterAppend, performCtm, ih]

theorem savedBelow {ds : List Dispatch} {s : State} {above below : List (Matrix × TextState)}
    (saved : s.saved = above ++ below) (covered : ∀ n, (ds.take n).countP Dispatch.isRestore ≤
      above.length + (ds.take n).countP Dispatch.isSave) :
    ∃ above', (performAll encoding s ds).1.saved = above' ++ below ∧
      above'.length + ds.countP Dispatch.isRestore = above.length + ds.countP Dispatch.isSave := by
  induction ds generalizing s above with
  | nil => exact ⟨above, saved, rfl⟩
  | cons d rest ih =>
    have later (n : Nat) := covered (n + 1)
    simp only [List.take_succ_cons, List.countP_cons] at later ⊢
    obtain ⟨above₁, saved₁, level₁⟩ := performBelow d saved (by simpa using later 0)
    obtain ⟨above', saved', level⟩ := ih saved₁ fun n => by
      have next := later n
      omega
    exact ⟨above', saved', by omega⟩

theorem performBetween (s : State) {ds : List Dispatch} (given taken : List Operand)
    (balanced : Balanced Dispatch.isSave Dispatch.isRestore ds) :
    (performAll encoding s (⟨"q", given⟩ :: ds ++ [⟨"Q", taken⟩])).1 = s := by
  have started : (perform encoding s "q" given).1.saved =
      [] ++ (s.ctm, s.text) :: s.saved := by rw [performSave, List.nil_append]
  have covered (n : Nat) : (ds.take n).countP Dispatch.isRestore ≤
      ([] : List (Matrix × TextState)).length + (ds.take n).countP Dispatch.isSave := by
    simpa using balanced.opened n
  obtain ⟨above, saved, level⟩ := savedBelow encoding started covered
  rw [balanced.ended, List.length_nil] at level
  have none : above = [] := List.length_eq_zero_iff.mp (by omega)
  rw [none, List.nil_append, performSave] at saved
  rw [performAllAppend, performOne, performAll, performSave, performRestore saved]

/-- Between saving and restoring, operators of which no beginning restores more than it saves,
and which restore all that they save, leave the state as it was: the matrix of the device, the
whole state of the text and the states saved before. -/
theorem savedRestored (s : State) {first last : Outline} {os : List Outline}
    {given taken : List Operand} (save : dispatchesOf first = [⟨"q", given⟩])
    (restore : dispatchesOf last = [⟨"Q", taken⟩])
    (balanced : Balanced Dispatch.isSave Dispatch.isRestore (dispatches os)) :
    (drawAll encoding s (first :: os ++ [last])).1 = s ∧
      ctmAfter s.ctm (drawAll encoding s (first :: os ++ [last])).2 = s.ctm := by
  have whole : dispatches (first :: os ++ [last]) =
      ⟨"q", given⟩ :: dispatches os ++ [⟨"Q", taken⟩] := by
    rw [dispatchesAppend]
    simp [dispatches, save, restore]
  rw [drawAllPerformed, whole, ctmKept, performBetween encoding s given taken balanced]
  exact ⟨rfl, rfl⟩

def plainOutline (name : String) (operands : List Operand) : Outline :=
  .node 0 (.simple ⟨Signature.fixed name [], operands⟩) []

def crossing : List Outline :=
  [.node 0 (.block ⟨Signature.fixed "BT" [], []⟩ none)
      [plainOutline "TL" [.ofReal 14], plainOutline "q" [], plainOutline "T*" [],
        plainOutline "cm" (List.replicate 6 (.ofReal 2))],
    plainOutline "Q" [], plainOutline "Tz" [.ofReal 50]]

def underway : State :=
  ⟨⟨1, 0, 0, 1, 72, 72⟩, { TextState.initial with fontSize := 12 }, [(.identity, .initial)]⟩

theorem savedRestoredCrossing :
    dispatchesOf (plainOutline "q" []) = [⟨"q", []⟩] ∧
    dispatchesOf (plainOutline "Q" []) = [⟨"Q", []⟩] ∧
    Balanced Dispatch.isSave Dispatch.isRestore (dispatches crossing) ∧
    (drawAll .latin1 underway (plainOutline "q" [] :: crossing)).1.text ≠ underway.text ∧
    (drawAll .latin1 underway (plainOutline "q" [] :: crossing ++ [plainOutline "Q" []])).1 =
      underway ∧
    ctmAfter underway.ctm (drawAll .latin1 underway
      (plainOutline "q" [] :: crossing ++ [plainOutline "Q" []])).2 = underway.ctm := by
  have balanced : Balanced Dispatch.isSave Dispatch.isRestore (dispatches crossing) := by decide +kernel
  exact ⟨rfl, rfl, balanced, by decide +kernel, savedRestored .latin1 underway rfl rfl balanced⟩

end PageContent.Drawing
