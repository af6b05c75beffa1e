import PageContent.Proofs.ContentItem.Loose
import PageContent.Proofs.ContentItem.Yielding

/-! Images that were read are written as a line which is read as one image again. Its data is
the same, but that ASCII85 data loses a blank before its end marker. -/
namespace PageContent

namespace Operand

mutual

theorem blurUnbound : (o : Operand) → o.reread.blur = o.unbound.blur
  | scalar _ s => by cases s <;> rfl
  | ref _ _ => rfl
  | array _ items => by simp [reread, unbound, blur, blurUnboundItems items]
  | dict _ entries => by simp [reread, unbound, blur, blurUnboundEntries entries]

theorem blurUnboundItems :
    (os : List Operand) → blurItems (rereadItems os) = blurItems (unboundItems os)
  | [] => rfl
  | o :: rest => by
    simp [rereadItems, unboundItems, blurItems, blurUnbound o, blurUnboundItems rest]

theorem blurUnboundEntries : (es : List (String × Operand)) →
    blurEntries (rereadEntries es) = blurEntries (unboundEntries es)
  | [] => rfl
  | (k, o) :: rest => by
    simp [rereadEntries, unboundEntries, blurEntries, blurUnbound o, blurUnboundEntries rest]

end

end Operand

namespace Lexeme
open Assembly (ascii85End)

theorem droppedBlank {b : UInt8} (blank : Octet.isBlank b = true) (body : Bytes) :
    dropLastBlank (body ++ [b]) = body := by
  simp [dropLastBlank, blank]

theorem keptLast {body : Bytes} (plain : ∀ front b, body = front ++ [b] → Octet.isBlank b = false) :
    dropLastBlank body = body := by
  rcases List.eq_nil_or_concat body with rfl | ⟨front, b, rfl⟩
  · rfl
  · rw [List.concat_eq_append] at *
    simp [dropLastBlank, plain front b rfl]

theorem resealedBody (body : Bytes) :
    resealed (body ++ ascii85End) = dropLastBlank body ++ ascii85End := by
  simp [resealed]

def Padded (raw : Bytes) : Prop :=
  ∃ body b, Octet.isBlank b = true ∧ raw = body ++ b :: ascii85End

theorem resealedPadded {body : Bytes} {b : UInt8} (blank : Octet.isBlank b = true) :
    resealed (body ++ b :: ascii85End) = body ++ ascii85End := by
  rw [List.append_cons, resealedBody, droppedBlank blank]

theorem resealedSame {raw : Bytes} (whole : Sealed raw) : resealed raw = raw ↔ ¬ Padded raw := by
  obtain ⟨body, rfl, -⟩ := whole
  constructor
  · rintro same ⟨front, b, blank, text⟩
    rw [text, resealedPadded blank] at same
    have length := congrArg List.length same
    simp only [List.length_append, List.length_cons] at length
    omega
  · intro plain
    rw [resealedBody, keptLast]
    rintro front b rfl
    cases blank : Octet.isBlank b with
    | false => rfl
    | true => exact absurd ⟨front, b, blank, by simp⟩ plain

end Lexeme

namespace ContentItem

def rewritten (es : Dict Operand) (raw : Bytes) : Bytes :=
  if Assembly.isSelfEnding es then Lexeme.resealed raw else raw

theorem rewrittenSame {es : Dict Operand} {raw : Bytes}
    (whole : Assembly.isSelfEnding es = true → Lexeme.Sealed raw) :
    rewritten es raw = raw ↔ ¬ (Assembly.isSelfEnding es = true ∧ Lexeme.Padded raw) := by
  unfold rewritten
  split
  · rename_i ending
    rw [Lexeme.resealedSame (whole ending)]
    exact ⟨fun plain both => plain both.2, fun apart padded => apart ⟨ending, padded⟩⟩
  · rename_i plain
    exact iff_of_true rfl fun both => plain both.1

theorem yieldsImage {es : Dict Operand} {raw : Bytes} (readable : (image es raw).Readable) :
    Yields (Instruction.imageLine es raw) [.image (Operand.rereadEntries es) (rewritten es raw)] := by
  obtain ⟨distinct, values, clear, whole⟩ := readable
  rw [← List.append_nil (Instruction.imageLine es raw), rewritten]
  split
  · rename_i ending
    exact .sealedImage distinct values ending (whole ending) .nil .nil
  · rename_i plain
    have plain : Assembly.isSelfEnding es = false := by simpa using plain
    exact .image distinct values plain (clear plain) .nil .nil

/-- Every image that is read from some data is written as a line that is read as one image and
nothing else. That image has the same entries, but that a real need only come back as a real,
and the same data, but that ASCII85 data loses a blank which stands before its end marker. -/
theorem imageReread {data : Bytes} {pos : Nat} {es : Dict Operand} {raw : Bytes}
    (yielded : .ok (pos, .image es raw) ∈ ofData data) : ∃ pos' es' raw',
    ofData (Instruction.imageLine es raw) = [.ok (pos', .image es' raw')] ∧
    Operand.blurEntries es' = Operand.blurEntries es ∧
    (raw' = raw ↔ ¬ (Assembly.isSelfEnding es = true ∧ Lexeme.Padded raw)) ∧
    ∀ body b, Assembly.isSelfEnding es = true → Octet.isBlank b = true →
      raw = body ++ b :: Assembly.ascii85End → raw' = body ++ Assembly.ascii85End := by
  have readable := ofDataReadable yielded
  have loose : Operand.unboundEntries es = es :=
    (ContentItem.image.inj (ofDataLoose yielded)).1
  obtain ⟨placed, read, items⟩ := yieldsImage readable (Instruction.imageLine es raw)
  obtain ⟨⟨pos', item⟩, rfl, rfl⟩ := List.map_eq_singleton_iff.mp items
  refine ⟨pos', _, rewritten es raw, read, ?_, rewrittenSame readable.2.2.2, ?_⟩
  · rw [Operand.blurUnboundEntries, loose]
  · rintro body b ending blank rfl
    rw [rewritten, if_pos ending, Lexeme.resealedPadded blank]

def filteredImage : Bytes :=
  ascii ['B', 'I', ' ', '/', 'F', ' ', '[', '/', 'A', '8', '5', ']', '/', 'D', '<', '<', '/', 'K', ' ', '3',
    ' ', '0', ' ', 'R', '>', '>', ' ', 'I', 'D', ' ', '8', ' ', '7', '~', '>', '%', '\n', 'E', 'I', ' ', 'Q']

def filteredEntries : Dict Operand :=
  [("F", .array none [.ofName "A85"]), ("D", .dict none [("K", .ref none ⟨3, 0⟩)])]

theorem imageRereadOfFiltered :
    .ok (0, .image filteredEntries (ascii ['8', ' ', '7', '~', '>'])) ∈ ofData filteredImage ∧
    ∃ pos' es' raw', ofData (Instruction.imageLine filteredEntries (ascii ['8', ' ', '7', '~', '>'])) =
      [.ok (pos', .image es' raw')] ∧
    Operand.blurEntries es' = Operand.blurEntries filteredEntries ∧
    raw' = ascii ['8', ' ', '7', '~', '>'] := by
  have read : ofData filteredImage =
      [.ok (0, .image filteredEntries (ascii ['8', ' ', '7', '~', '>'])), .ok (40, .operator "Q")] := rfl
  have yielded := List.mem_of_mem_head? (congrArg List.head? read)
  obtain ⟨pos', es', raw', again, entries, data, -⟩ := imageReread yielded
  refine ⟨yielded, pos', es', raw', again, entries, data.mpr ?_⟩
  rintro ⟨-, body, b, blank, text⟩
  have front : ascii ['8', ' ', '7'] = body ++ [b] :=
    List.append_cancel_right (text.trans (List.append_cons body b _))
  have last := congrArg List.getLast? front
  rw [List.getLast?_concat] at last
  cases last
  cases blank

def paddedImage : Bytes :=
  ascii ['B', 'I', ' ', '/', 'F', ' ', '/', 'A', '8', '5', ' ', 'I', 'D', ' ', 'a', 'b', 'c', ' ', ' ',
    '~', '>', ' ', 'E', 'I']

theorem paddingLost : ∃ es raw, ofData paddedImage = [.ok (0, .image es raw)] ∧
    ¬ ∃ pos' es', ofData (Instruction.imageLine es raw) = [.ok (pos', .image es' raw)] := by
  refine ⟨[("F", .ofName "A85")], ascii ['a', 'b', 'c', ' ', '~', '>'], rfl, ?_⟩
  have again : ofData (Instruction.imageLine [("F", .ofName "A85")]
      (ascii ['a', 'b', 'c', ' ', '~', '>'])) =
      [.ok (0, .image [("F", .ofName "A85")] (ascii ['a', 'b', 'c', '~', '>']))] := rfl
  rintro ⟨pos', es', same⟩
  rw [again] at same
  cases same

end ContentItem

end PageContent
