import PageContent.Token.Lexer

/-! What is left after a token is an end of what was there, and every token takes at least one
octet. -/
namespace PageContent.Lexeme

theorem skipBlanksSuffix (inComment : Bool) (bytes : Bytes) :
    skipBlanks inComment bytes <:+ bytes := by
  fun_induction skipBlanks inComment bytes with
  | case1 => exact List.suffix_rfl
  | case2 b rest ih => exact ih.trans (List.suffix_cons b rest)
  | case3 inComment b rest _ _ ih => exact ih.trans (List.suffix_cons b rest)
  | case4 inComment b rest _ _ _ ih => exact ih.trans (List.suffix_cons b rest)
  | case5 => exact List.suffix_rfl

theorem nameBodySuffix (bytes : Bytes) : (nameBody bytes).2 <:+ bytes := by
  fun_induction nameBody bytes with
  | case1 | case2 => exact List.suffix_rfl
  | case3 b _ _ c d after _ _ _ _ name left found ih =>
    rw [found] at ih
    exact ih.trans ⟨[b, c, d], rfl⟩
  | case4 b _ _ c d after _ ih => exact ih.trans (List.suffix_cons b _)
  | case5 b _ _ c ih => exact ih.trans (List.suffix_cons b _)
  | case6 => exact List.nil_suffix
  | case7 b rest _ _ name left found ih =>
    rw [found] at ih
    exact ih.trans (List.suffix_cons b rest)

theorem stringBodySuffix {mode : Mode} {depth : Nat} {bytes string left : Bytes}
    (h : stringBody mode depth bytes = some (string, left)) : left <:+ bytes := by
  induction bytes generalizing mode depth string left with
  | nil => simp [stringBody] at h
  | cons b rest ih =>
    simp only [stringBody] at h
    split at h
    · cases h
      exact List.suffix_cons b rest
    · obtain ⟨⟨more, left'⟩, later, same⟩ := Option.map_eq_some_iff.mp h
      cases same
      exact (ih later).trans (List.suffix_cons b rest)

theorem hexBodySuffix (high : Option UInt8) (bytes : Bytes) : (hexBody high bytes).2 <:+ bytes := by
  fun_induction hexBody high bytes with
  | case1 | case6 => exact List.suffix_rfl
  | case2 _ b rest => exact List.suffix_cons b rest
  | case3 b rest _ low _ high string left found ih =>
    rw [found] at ih
    exact ih.trans (List.suffix_cons b rest)
  | case4 b rest _ low _ ih => exact ih.trans (List.suffix_cons b rest)
  | case5 _ b rest _ _ _ ih => exact ih.trans (List.suffix_cons b rest)

theorem numberLeft (input : Bytes) : (number input).2 =
    match (sign input).2.dropWhile Octet.isDigit with
    | [] => []
    | b :: rest => if b == Octet.dot then rest.dropWhile Octet.isDigit else b :: rest := by
  simp only [number]
  cases (sign input).2.dropWhile Octet.isDigit with
  | nil => rfl
  | cons b rest =>
    simp only
    split <;> rfl

theorem numberSuffix (input : Bytes) : (number input).2 <:+ (sign input).2 := by
  have digits := List.dropWhile_suffix Octet.isDigit (l := (sign input).2)
  rw [numberLeft]
  split
  · exact List.nil_suffix
  · rename_i b rest found
    rw [found] at digits
    split
    · exact (List.dropWhile_suffix _).trans ((List.suffix_cons b rest).trans digits)
    · exact digits

theorem numberAfter {b : UInt8} {rest : Bytes}
    (h : Octet.isDigit b = true ∨ b = Octet.dot ∨ b = Octet.plus ∨ b = Octet.minus) :
    (number (b :: rest)).2 <:+ rest := by
  by_cases signed : b = Octet.minus ∨ b = Octet.plus
  · have within := numberSuffix (b :: rest)
    rw [sign] at within
    obtain rfl | rfl := signed
    · exact within
    · exact within
  · have unsigned : (sign (b :: rest)).2 = b :: rest := by
      simp only [not_or] at signed
      simp [sign, signed]
    rw [numberLeft, unsigned]
    by_cases digit : Octet.isDigit b = true
    · have digits := List.dropWhile_suffix Octet.isDigit (l := rest)
      rw [List.dropWhile_cons_of_pos digit]
      split
      · exact List.nil_suffix
      · rename_i c left found
        rw [found] at digits
        split
        · exact (List.dropWhile_suffix _).trans ((List.suffix_cons c left).trans digits)
        · exact digits
    · obtain rfl : b = Octet.dot := by
        obtain yes | yes | yes | yes := h
        · exact absurd yes digit
        · exact yes
        · exact absurd (.inr yes) signed
        · exact absurd (.inl yes) signed
      rw [List.dropWhile_cons_of_neg digit]
      exact List.dropWhile_suffix _

theorem wordSuffix (b : UInt8) (rest : Bytes) : (word b rest).2 <:+ rest := List.dropWhile_suffix _

theorem hexStringSuffix (bytes : Bytes) : (hexString bytes).2 <:+ bytes := hexBodySuffix none bytes

theorem lexemeSuffix (b : UInt8) (rest : Bytes) : (lexeme b rest).2 <:+ rest := by
  fun_cases lexeme b rest
  case case1 name left found =>
    have after := nameBodySuffix rest
    rw [found] at after
    exact after
  case case2 _ _ string left found => exact stringBodySuffix found
  case case3 => exact List.nil_suffix
  case case4 | case6 => exact hexStringSuffix _
  case case16 signed _ _ _ =>
    simp only [Bool.or_eq_true, beq_iff_eq] at signed
    exact numberAfter (.inr (.inr signed))
  case case19 =>
    rename_i dot _ _ _
    simp only [beq_iff_eq] at dot
    exact numberAfter (.inr (.inl dot))
  case case21 digit => exact numberAfter (.inl digit)
  case case15 | case17 | case18 | case20 | case22 => exact wordSuffix b _
  case case5 | case8 => exact List.suffix_cons _ _
  case case7 | case9 | case10 | case11 | case12 | case13 | case14 => exact List.suffix_rfl

end PageContent.Lexeme

namespace PageContent.Lexer

theorem nextShorter {l l' : Lexer} {read} (h : l.next = (some read, l')) :
    l'.rest.length < l.rest.length := by
  have blanks := (Lexeme.skipBlanksSuffix false l.rest).length_le
  simp only [next] at h
  split at h
  · simp at h
  · rename_i b rest found
    rw [found, List.length_cons] at blanks
    have token := (Lexeme.lexemeSuffix b rest).length_le
    cases h
    exact Nat.lt_of_le_of_lt token blanks

theorem nextEnd {l l' : Lexer} (h : l.next = (none, l')) : l'.rest = [] := by
  simp only [next] at h
  split at h
  · rename_i found
    cases h
    exact found
  · simp at h

theorem nextSuffix {l l' : Lexer} {read} (h : l.next = (read, l')) : l'.rest <:+ l.rest := by
  have blanks := Lexeme.skipBlanksSuffix false l.rest
  simp only [next] at h
  split at h
  · cases h
    exact blanks
  · rename_i b rest found
    rw [found] at blanks
    cases h
    exact (Lexeme.lexemeSuffix b rest).trans ((List.suffix_cons b rest).trans blanks)

end PageContent.Lexer
