import PageContent.Proofs.Token.Followed

/-! A fault of the last token is still one when a line feed and more come after it, unless the
more closes a string. -/
namespace PageContent

namespace Lexeme

structure Barren (tail : Bytes) : Prop where
  line : ∃ rest, tail = Octet.lineFeed :: rest
  noParen : Octet.parenClose ∉ tail
  noHex : ∀ high, ∃ flaw, (hexBody high tail).1 = .error flaw

variable {tail : Bytes}

theorem Barren.ended (h : Barren tail) : Ended tail := by
  obtain ⟨rest, rfl⟩ := h.line
  exact .cons rfl

theorem moveOn {mode : Mode} {depth : Nat} {b : UInt8} (other : b ≠ Octet.parenClose) :
    (move mode depth b).next ≠ none := by
  have plain : (plainMove depth b).next ≠ none := by
    simp only [plainMove, beq_iff_eq, if_neg other]
    repeat' split
    all_goals simp
  cases mode with
  | plain => exact plain
  | escape =>
    simp only [move]
    repeat' split
    all_goals simp
  | digits ds =>
    simp only [move]
    split
    · split <;> simp
    · exact plain
  | lineEnd =>
    simp only [move]
    split
    · simp
    · exact plain

theorem stringOpen {mode : Mode} {depth : Nat} {bytes : Bytes} (none : Octet.parenClose ∉ bytes) :
    stringBody mode depth bytes = Option.none := by
  induction bytes generalizing mode depth with
  | nil => rfl
  | cons b rest ih =>
    simp only [List.mem_cons, not_or] at none
    simp only [stringBody]
    split
    · rename_i ends
      exact absurd ends (moveOn (Ne.symm none.1))
    · rw [ih none.2]
      rfl

theorem stringFaulty (barren : Barren tail) {mode : Mode} {depth : Nat} {bytes : Bytes}
    (unended : stringBody mode depth bytes = none) : stringBody mode depth (bytes ++ tail) = none := by
  induction bytes generalizing mode depth with
  | nil => exact stringOpen barren.noParen
  | cons b rest ih =>
    simp only [stringBody, List.cons_append] at unended ⊢
    split at unended
    · cases unended
    · rw [Option.map_eq_none_iff] at unended
      simp only [ih unended, Option.map_none]

theorem hexFaulty (barren : Barren tail) {high : Option UInt8} {bytes : Bytes} {flaw : Flaw}
    (failed : (hexBody high bytes).1 = .error flaw) :
    ∃ flaw, (hexBody high (bytes ++ tail)).1 = .error flaw := by
  fun_induction hexBody high bytes generalizing flaw with
  | case1 high => exact barren.noHex high
  | case2 => cases failed
  | case3 b rest inside low readLow high more left found ih =>
    rw [found] at ih
    cases more with
    | ok value => cases failed
    | error flaw' =>
      obtain ⟨flaw, later⟩ := ih rfl
      exact ⟨flaw, by simp [hexBody, inside, readLow, later, Except.map]⟩
  | case4 b rest inside high readHigh ih =>
    obtain ⟨flaw, later⟩ := ih failed
    exact ⟨flaw, by simp [hexBody, inside, readHigh, later]⟩
  | case5 high b rest inside none blank ih =>
    obtain ⟨flaw, later⟩ := ih failed
    exact ⟨flaw, by simp [hexBody, inside, none, blank, later]⟩
  | case6 high b rest inside none solid =>
    exact ⟨_, by simp [hexBody, inside, none, solid]; rfl⟩

theorem hexStringFaulty (barren : Barren tail) {bytes left : Bytes} {flaw : Flaw}
    (failed : hexString bytes = (.error flaw, left)) :
    ∃ flaw left, hexString (bytes ++ tail) = (.error flaw, left) := by
  rcases found : hexBody none bytes with ⟨flaw' | string, left'⟩
  · obtain ⟨flaw, later⟩ := hexFaulty barren (congrArg Prod.fst found)
    exact ⟨flaw, _, by simp only [hexString, later]; rfl⟩
  · simp [hexString, found, Except.map] at failed

theorem lexemeFaulty (barren : Barren tail) {b : UInt8} {rest left : Bytes} {flaw : Flaw}
    (failed : lexeme b rest = (.error flaw, left)) :
    ∃ flaw left, lexeme b (rest ++ tail) = (.error flaw, left) := by
  revert failed
  fun_cases lexeme b rest
  case case3 unended =>
    have later := stringFaulty barren unended
    exact fun _ => ⟨.unfinished, [], by simp only [lexeme, *, if_true, if_false, Bool.false_eq_true]⟩
  case case4 =>
    intro failed
    have later := hexStringFaulty barren failed
    obtain ⟨more, rfl⟩ := barren.line
    simp only [lexeme, *, List.nil_append, if_true, if_false, Bool.false_eq_true] at later ⊢
    exact later
  case case6 =>
    intro failed
    have later := hexStringFaulty barren failed
    simp only [lexeme, *, List.cons_append, if_true, if_false, Bool.false_eq_true] at later ⊢
    exact later
  case case7 =>
    obtain ⟨more, rfl⟩ := barren.line
    exact fun _ => ⟨.bad .strayGreater, _, by
      simp only [lexeme, *, List.nil_append, if_true, if_false, Bool.false_eq_true]; rfl⟩
  case case9 =>
    exact fun _ => ⟨.bad .strayGreater, _, by
      simp only [lexeme, *, List.cons_append, if_true, if_false, Bool.false_eq_true]; rfl⟩
  case case14 =>
    exact fun _ => ⟨.bad .strayParen, _, by
      simp only [lexeme, *, if_true, if_false, Bool.false_eq_true]; rfl⟩
  case case16 | case19 | case21 =>
    intro failed
    have later := numberFollowed barren.ended failed
    exact ⟨flaw, left ++ tail, by
      simp only [lexeme, *, List.cons_append, if_true, if_false, Bool.false_eq_true] at later ⊢⟩
  case case1 | case2 | case5 | case8 | case10 | case11 | case12 | case13 => simp
  case case15 | case17 | case18 | case20 | case22 => simp [word]

end Lexeme

end PageContent
