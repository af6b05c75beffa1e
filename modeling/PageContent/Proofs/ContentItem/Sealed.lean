import PageContent.ContentItem.Reader
import PageContent.Proofs.Token.Followed

/-! ASCII85 data of an image, which brings its own end marker along. -/
namespace PageContent.Lexeme
open Assembly (ascii85End)

def Sealed (data : Bytes) : Prop := ∃ body, data = body ++ ascii85End ∧
  ∀ c, Octet.endsWord c = true → ¬ ascii85End ++ [c] <:+: body

theorem endMarked {before : Option UInt8} {b : UInt8} {rest : Bytes} :
    (ascii85End.isPrefixOf (b :: rest) && (!false || before.all Octet.isBlank) &&
      ((b :: rest).drop ascii85End.length).head?.all Octet.endsWord) = true ↔
      ∃ after, b :: rest = ascii85End ++ after ∧ Ended after := by
  simp only [Bool.not_false, Bool.true_or, Bool.and_true, Bool.and_eq_true]
  constructor
  · rintro ⟨marked, ends⟩
    obtain ⟨after, same⟩ := List.isPrefixOf_iff_prefix.mp marked
    rw [← same, List.drop_left] at ends
    exact ⟨after, same.symm, ends⟩
  · rintro ⟨after, same, ends⟩
    rw [same, List.drop_left]
    exact ⟨List.isPrefixOf_iff_prefix.mpr (List.prefix_append _ _), ends⟩

theorem endOctets : ascii85End = [0x7e, 0x3e] := rfl

theorem upToEnd {before : Option UInt8} {body tail : Bytes} (ended : Ended tail)
    (unmarked : ∀ c, Octet.endsWord c = true → ¬ ascii85End ++ [c] <:+: body) :
    upTo ascii85End false before (body ++ (ascii85End ++ tail)) = (body, tail) := by
  induction body generalizing before with
  | nil =>
    change upTo ascii85End false before (0x7e :: 0x3e :: tail) = _
    rw [upTo, if_pos (endMarked.mpr ⟨tail, by rw [endOctets]; rfl, ended⟩)]
    rfl
  | cons b rest ih =>
    have later := @ih (some b) fun c ends inside =>
      unmarked c ends (inside.trans (List.suffix_cons b rest).isInfix)
    rw [List.cons_append, upTo, later, if_neg]
    intro here
    obtain ⟨after, same, ends⟩ := endMarked.mp here
    rw [endOctets] at same unmarked
    -- the end marker cannot overlap another one, nor be followed by one
    cases rest with
    | nil => simp at same
    | cons c more =>
      obtain ⟨rfl, rfl, rfl⟩ : b = 0x7e ∧ c = 0x3e ∧ more ++ 0x7e :: 0x3e :: tail = after := by
        simpa using same
      cases more with
      | nil => exact absurd ends.head (by decide)
      | cons d more => exact unmarked d ends.head ⟨[], more, by simp⟩

theorem upToBody (before : Option UInt8) (input : Bytes) :
    (upTo ascii85End false before input).1 <+: input := by
  induction input generalizing before with
  | nil => exact List.prefix_rfl
  | cons b rest ih =>
    simp only [upTo]
    split
    · exact List.nil_prefix
    · exact List.cons_prefix_cons.mpr ⟨rfl, ih (some b)⟩

theorem upToUnmarked (before : Option UInt8) (input : Bytes) : ∀ c, Octet.endsWord c = true →
    ¬ ascii85End ++ [c] <:+: (upTo ascii85End false before input).1 := by
  induction input generalizing before with
  | nil => simp [upTo, ascii85End, ascii]
  | cons b rest ih =>
    intro c ends inside
    rw [upTo] at inside
    split at inside
    · simp at inside
    · rename_i other
      obtain first | later := List.infix_cons_iff.mp inside
      · have whole := first.trans (List.cons_prefix_cons.mpr ⟨rfl, upToBody (some b) rest⟩)
        obtain ⟨more, same⟩ := whole
        refine other (endMarked.mpr ⟨c :: more, ?_, .cons ends⟩)
        simpa using same.symm
      · exact ih (some b) c ends later

theorem lastBlankPrefix (data : Bytes) : dropLastBlank data <+: data := by
  unfold dropLastBlank
  split
  · exact List.dropLast_prefix data
  · exact List.prefix_rfl

theorem rawDataSealed (input : Bytes) :
    Sealed ((rawData ascii85End false input).1 ++ ascii85End) := by
  refine ⟨_, rfl, fun c ends inside => ?_⟩
  rw [rawDataExact] at inside
  exact upToUnmarked none _ c ends (inside.trans (lastBlankPrefix _).isInfix)

-- A blank before the end marker is lost.
def resealed (data : Bytes) : Bytes :=
  dropLastBlank (data.take (data.length - ascii85End.length)) ++ ascii85End

theorem rawDataResealed {data tail : Bytes} (whole : Sealed data) (ended : Ended tail) :
    ∃ body, rawData ascii85End false (Octet.space :: (data ++ tail)) = (body, tail) ∧
      body ++ ascii85End = resealed data := by
  obtain ⟨body, rfl, unmarked⟩ := whole
  have first : dropFirstBlank (Octet.space :: (body ++ ascii85End ++ tail)) =
      body ++ ascii85End ++ tail := rfl
  refine ⟨dropLastBlank body, ?_, ?_⟩
  · rw [rawDataExact, first, List.append_assoc, upToEnd ended unmarked]
  · simp [resealed]

end PageContent.Lexeme
