import PageContent.Proofs.Token.Spelled

/-! What can come out of a lexer: integers that are not the least one, and keywords that
are written as words. -/
namespace PageContent

def Scalar.Readable (s : Scalar) : Prop := s ≠ .int Int64.minValue

namespace Lexeme

theorem clampedBound (ds : Bytes) : clamped ds ≤ largest := by
  unfold clamped
  rcases List.eq_nil_or_concat ds with rfl | ⟨rest, d, rfl⟩
  · decide
  · rw [List.concat_eq_append, List.foldl_append]
    exact Nat.min_le_right _ _

theorem intValueBound (negative : Bool) (ds : Bytes) : intValue negative ds ≠ Int64.minValue := by
  have bound := clampedBound ds
  simp only [largest] at bound
  intro same
  have value := congrArg Int64.toInt same
  rw [Int64.toInt_minValue] at value
  cases negative <;>
    simp only [intValue, if_true, if_false, Bool.false_eq_true] at value <;>
    rw [Int64.toInt_ofInt_of_le (by omega) (by omega)] at value <;> omega

theorem numberValue {input left : Bytes} {token : Token} (h : number input = (.ok token, left)) :
    ∃ s, token = .value s ∧ s.Readable := by
  have int (negative : Bool) (ds : Bytes) : (Scalar.int (intValue negative ds)).Readable :=
    fun same => intValueBound negative ds (Scalar.int.inj same)
  simp only [number] at h
  split at h
  · rw [Prod.mk.injEq] at h
    obtain ⟨h, -⟩ := h
    split at h <;> cases h
    exact ⟨_, rfl, int _ _⟩
  split at h
  · rw [Prod.mk.injEq] at h
    obtain ⟨h, -⟩ := h
    split at h <;> cases h
    exact ⟨_, rfl, fun same => by contradiction⟩
  · rw [Prod.mk.injEq] at h
    obtain ⟨h, -⟩ := h
    split at h <;> cases h
    exact ⟨_, rfl, int _ _⟩

def Read : Token → Prop
  | .value s => s.Readable
  | .keyword name => Spoken name
  | _ => True

theorem takenWord {b : UInt8} {rest : Bytes} (starts : Octet.endsWord b = false)
    (wordy : Octet.isDigit b = false)
    (signed : b = Octet.plus ∨ b = Octet.minus →
      ∀ c, rest.head? = some c → Octet.isDigit c = false ∧ c ≠ Octet.dot)
    (pointed : b = Octet.dot → ∀ c, rest.head? = some c → Octet.isDigit c = false) :
    Word b (rest.takeWhile (!Octet.endsWord ·)) := by
  have first : ∀ c, (rest.takeWhile (!Octet.endsWord ·)).head? = some c → rest.head? = some c := by
    intro c taken
    cases rest with
    | nil => exact taken
    | cons d more =>
      cases ends : Octet.endsWord d with
      | true => simp [ends] at taken
      | false => simpa [ends] using taken
  refine ⟨starts, wordy, ?_, ?_, ?_⟩
  · intro c member
    have all := List.all_eq_true.mp (List.all_takeWhile (p := (!Octet.endsWord ·)) (l := rest)) c member
    simpa using all
  · exact fun sign c taken => signed sign c (first c taken)
  · exact fun point c taken => pointed point c (first c taken)

theorem wordRead {b : UInt8} {rest left : Bytes} {token : Token} (h : word b rest = (.ok token, left))
    (taken : Word b (rest.takeWhile (!Octet.endsWord ·))) : Read token := by
  simp only [word, Prod.mk.injEq, Except.ok.injEq] at h
  obtain ⟨rfl, -⟩ := h
  cases found : Token.ofWord (Utf8.decode (b :: rest.takeWhile (!Octet.endsWord ·))) with
  | keyword name => exact taken.spoken found
  | value s =>
    simp only [Token.ofWord] at found
    repeat' split at found
    all_goals cases found
    all_goals exact fun same => by contradiction
  | _ => trivial

theorem hexStringRead {bytes left : Bytes} {token : Token} (h : hexString bytes = (.ok token, left)) :
    Read token := by
  simp only [hexString, Prod.mk.injEq] at h
  obtain ⟨h, -⟩ := h
  cases found : (hexBody none bytes).1 with
  | error flaw => simp [found, Except.map] at h
  | ok string =>
    simp only [found, Except.map, Function.comp, Except.ok.injEq] at h
    subst h
    exact fun same => by contradiction

theorem lexemeRead {b : UInt8} {rest left : Bytes} {token : Token} (blank : Octet.isBlank b = false)
    (comment : b ≠ Octet.percent) (h : lexeme b rest = (.ok token, left)) : Read token := by
  revert h
  fun_cases lexeme b rest <;> intro h
  case case1 => cases h; exact fun same => by contradiction
  case case2 => cases h; exact fun same => by contradiction
  case case4 | case6 => exact hexStringRead h
  case case5 | case8 | case10 | case11 | case12 | case13 => cases h; trivial
  case case16 | case19 | case21 =>
    obtain ⟨s, rfl, readable⟩ := numberValue h
    exact readable
  case case3 | case7 | case9 | case14 => simp at h
  -- what is left are the words; none of the tests before them held of the first octet
  case case15 signed | case18 signed =>
    have starts := (startsExact b).mpr (by simp_all)
    have wordy : Octet.isDigit b = false := by
      simp only [Bool.or_eq_true, beq_iff_eq] at signed
      obtain rfl | rfl := signed <;> rfl
    exact wordRead h (takenWord starts wordy (by simp) (by simp))
  case case17 signed c more next =>
    have starts := (startsExact b).mpr (by simp_all)
    have wordy : Octet.isDigit b = false := by
      simp only [Bool.or_eq_true, beq_iff_eq] at signed
      obtain rfl | rfl := signed <;> rfl
    have point : b ≠ Octet.dot := by
      simp only [Bool.or_eq_true, beq_iff_eq] at signed
      obtain rfl | rfl := signed <;> decide
    refine wordRead h (takenWord starts wordy ?_ (fun same => absurd same point))
    intro _ d first
    cases first
    simpa using next
  case case20 =>
    rename_i point c more next
    have starts := (startsExact b).mpr (by simp_all)
    rw [beq_iff_eq] at point
    subst point
    refine wordRead h (takenWord starts rfl (fun same => absurd same (by decide)) ?_)
    intro _ d first
    cases first
    simpa using next
  case case22 =>
    rename_i sign point wordy
    have starts := (startsExact b).mpr (by simp_all)
    simp only [Bool.or_eq_true, beq_iff_eq] at sign point
    exact wordRead h (takenWord starts (by simpa using wordy) (fun same => absurd same sign)
      (fun same => absurd same point))

end Lexeme

end PageContent
