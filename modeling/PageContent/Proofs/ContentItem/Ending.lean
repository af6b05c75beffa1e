import PageContent.Proofs.ContentItem.Assembled
import PageContent.Proofs.ContentItem.Yielding

/-! Where the data of an image ends: at its end marker, or, for data that does not end itself,
with all that there is. -/
namespace PageContent

namespace Lexeme

theorem wordEnded (b : UInt8) (rest : Bytes) : Ended (word b rest).2 := by
  have stops := List.head?_dropWhile_not (!Octet.endsWord ·) rest
  rw [word, Ended]
  cases first : (rest.dropWhile (!Octet.endsWord ·)).head? with
  | none => rfl
  | some c => simpa [first] using stops

theorem lexemeKeyword {b : UInt8} {rest left : Bytes} {name : String}
    (h : lexeme b rest = (.ok (.keyword name), left)) :
    word b rest = (.ok (.keyword name), left) := by
  have noNumber (input : Bytes) : number input ≠ (.ok (.keyword name), left) := by
    intro same
    obtain ⟨s, is, -⟩ := numberValue same
    cases is
  have noString (input : Bytes) : hexString input ≠ (.ok (.keyword name), left) := by
    simp only [hexString]
    cases (hexBody none input).1 <;> simp [Except.map]
  revert h
  fun_cases lexeme b rest <;> intro h
  case case15 | case17 | case18 | case20 | case22 => exact h
  case case16 | case19 | case21 => exact absurd h (noNumber _)
  case case4 | case6 => exact absurd h (noString _)
  all_goals simp at h

theorem wordWritten {b : UInt8} {rest left : Bytes} {name : String}
    (h : word b rest = (.ok (.keyword name), left)) (low : ∀ c ∈ Utf8.encode name, c < 0x80) :
    b :: rest = Utf8.encode name ++ left := by
  simp only [word, Prod.mk.injEq, Except.ok.injEq] at h
  obtain ⟨read, rfl⟩ := h
  obtain rfl := wordKeyword read
  rw [Utf8.encodeDecodeLow low, List.cons_append, List.takeWhile_append_dropWhile]

theorem upToUnended {before : Option UInt8} {input : Bytes} (clear : Clear before input) :
    upTo Lexer.imageEnd true before input = (input, []) := by
  induction input generalizing before with
  | nil => rfl
  | cons b rest ih =>
    obtain ⟨unmarked, later⟩ := clear
    rw [upTo, if_neg, ih later]
    simp only [Bool.not_true, Bool.false_or, Bool.and_eq_true, and_assoc]
    exact unmarked

theorem unendedClear {before : Option UInt8} {input : Bytes}
    (all : upTo Lexer.imageEnd true before input = (input, [])) : Clear before input := by
  refine @upToClear before input [] [] [] .nil ?_
  rw [List.append_nil]
  exact all

theorem dropFirstSuffix (input : Bytes) : dropFirstBlank input <:+ input := by
  cases input with
  | nil => exact List.suffix_rfl
  | cons b rest =>
    rw [dropFirstBlank]
    split
    · exact List.suffix_cons b rest
    · exact List.suffix_rfl

end Lexeme

theorem Lexer.nextKeyword {l l' : Lexer} {pos : Nat} {name : String}
    (h : l.next = (some (.ok (pos, .keyword name)), l'))
    (low : ∀ c ∈ Utf8.encode name, c < 0x80) :
    ∃ front, l.rest = front ++ (Utf8.encode name ++ l'.rest) ∧ Ended l'.rest := by
  obtain ⟨front, blanks⟩ := Lexeme.skipBlanksSuffix false l.rest
  simp only [next] at h
  split at h
  · cases h
  · rename_i b rest found
    rcases read : Lexeme.lexeme b rest with ⟨_ | token, left⟩
    · simp [read] at h
    · simp only [read] at h
      cases h
      have spelled := Lexeme.lexemeKeyword read
      have ended := Lexeme.wordEnded b rest
      rw [spelled] at ended
      exact ⟨front, by rw [← blanks, found, Lexeme.wordWritten spelled low], ended⟩

namespace Assembly

variable {l l' : Lexer} {pos : Nat} {name : String}

theorem readWithin {fuel : Nat} {stack : List Frame} (inside : stack ≠ []) :
    (readItem fuel stack l).1 ≠ some (.ok (pos, .keyword name)) := by
  induction fuel generalizing stack l with
  | zero => simp [readItem]
  | succ fuel ih =>
    rw [readItem]
    split
    · cases stack <;> simp
    · simp
    · split
      · simp
      · rename_i made
        intro same
        cases same
        exact stepWithin inside made
      · rename_i made
        exact ih (stepInside made)

theorem nextSpelled (h : next l = (some (.ok (pos, .keyword name)), l')) :
    l.next = (some (.ok (pos, .keyword name)), l') := by
  simp only [next, readItem] at h
  split at h
  · cases h
  · cases h
  · rename_i shown
    split at h
    · cases h
    · rename_i made
      cases h
      cases stepKeyword made
      exact shown
    · rename_i made
      exact absurd (congrArg Prod.fst h) (readWithin (stepInside made))

theorem readEntriesEnds {fuel : Nat} {values : List Operand}
    (h : readEntries fuel l = (.ok values, l')) :
    ∃ front, l.rest = front ++ (ascii ['I', 'D'] ++ l'.rest) ∧ Ended l'.rest := by
  induction fuel generalizing l values with
  | zero => cases h
  | succ fuel ih =>
    simp only [readEntries] at h
    split at h
    · cases h
    · cases h
    · rename_i value left found
      rcases later : readEntries fuel left with ⟨_ | rest, last⟩
      · simp [later, Except.map] at h
      · simp only [later] at h
        cases h
        obtain ⟨front, whole, ended⟩ := ih later
        obtain ⟨first, starts⟩ := nextSuffix found
        exact ⟨first ++ front, by rw [← starts, whole, List.append_assoc], ended⟩
    · rename_i found
      split at h
      · rename_i same
        subst same
        cases h
        exact Lexer.nextKeyword (nextSpelled found) (by decide +kernel)
      · cases h

theorem plainDataEnds (l : Lexer) :
    (∃ body, l.rest = body ++ (Lexer.imageEnd ++ (l.rawData Lexer.imageEnd).2.rest) ∧
      Ended (l.rawData Lexer.imageEnd).2.rest) ∨
    Lexeme.Clear none (Lexeme.dropFirstBlank l.rest) := by
  obtain ⟨first, whole⟩ := Lexeme.dropFirstSuffix l.rest
  obtain ⟨marked, ended⟩ | all := Lexeme.markedOrAll Lexer.imageEnd true none
    (Lexeme.dropFirstBlank l.rest)
  · simp only [Lexer.rawData, Lexeme.rawDataExact, beq_self_eq_true]
    refine .inl ⟨first ++ (Lexeme.upTo Lexer.imageEnd true none
      (Lexeme.dropFirstBlank l.rest)).1, ?_, ended⟩
    rw [List.append_assoc, ← marked, whole]
  · exact .inr (Lexeme.unendedClear all)

theorem plainDataUnended (clear : Lexeme.Clear none (Lexeme.dropFirstBlank l.rest)) :
    l.rawData Lexer.imageEnd =
      (Lexeme.dropLastBlank (Lexeme.dropFirstBlank l.rest), ⟨l.data, []⟩) := by
  simp only [Lexer.rawData, Lexeme.rawDataExact, beq_self_eq_true, Lexeme.upToUnended clear]

theorem readImageEnds {values : List Operand} {es : Dict Operand} {data : Lexer}
    (read : readEntries (l.rest.length + 1) l = (.ok values, data))
    (collected : entries values = .ok es) {item : ContentItem}
    (found : readImage l = (.ok item, l')) :
    (∃ body, data.rest = body ++ (Lexer.imageEnd ++ l'.rest) ∧ Ended l'.rest) ∨
    isSelfEnding es = false ∧ Lexeme.Clear none (Lexeme.dropFirstBlank data.rest) := by
  simp only [readImage, read, collected] at found
  split at found
  · split at found
    · rename_i shown
      split at found
      · rename_i same
        subst same
        cases found
        obtain ⟨front, whole, ended⟩ := Lexer.nextKeyword (nextSpelled shown) (by decide +kernel)
        obtain ⟨first, starts⟩ := rawDataSuffix data ascii85End
        refine .inl ⟨first ++ front, ?_, ended⟩
        rw [← starts, whole, List.append_assoc]
        rfl
      · cases found
    · cases found
  · rename_i plain
    cases found
    exact (plainDataEnds data).imp_right fun clear => ⟨by simpa using plain, clear⟩

theorem readImageRefused {values : List Operand} {es : Dict Operand} {data : Lexer} {fault : Fault}
    (read : readEntries (l.rest.length + 1) l = (.ok values, data))
    (collected : entries values = .ok es) (own : isSelfEnding es = true)
    (failed : readImage l = (.error fault, l')) : fault = .content "BI" .imageEnd := by
  simp only [readImage, read, collected, own, if_true] at failed
  repeat' split at failed
  all_goals cases failed
  all_goals rfl

end Assembly

namespace ContentItem.Reader
open Assembly (entries readEntries isSelfEnding)
open Lexeme (dropFirstBlank dropLastBlank)

variable {r r' : Reader} {pos : Nat} {es : Dict Operand} {data : Lexer}

def Opens (r : Reader) (pos : Nat) (es : Dict Operand) (data : Lexer) : Prop :=
  r.failed = false ∧ ∃ start values,
    Assembly.next r.lexer = (some (.ok (pos, .keyword "BI")), start) ∧
    readEntries (start.rest.length + 1) start = (.ok values, data) ∧ entries values = .ok es

theorem Opens.next (opens : Opens r pos es data) : ∃ start values,
    readEntries (start.rest.length + 1) start = (.ok values, data) ∧ entries values = .ok es ∧
    (∃ front, r.lexer.rest = front ++ start.rest) ∧
    (∀ item l, Assembly.readImage start = (.ok item, l) →
      r.next = (some (.ok (pos, item)), ⟨l, false⟩)) ∧
    ∀ fault l, Assembly.readImage start = (.error fault, l) →
      r.next = (some (.error fault), ⟨l, true⟩) := by
  obtain ⟨running, start, values, found, read, collected⟩ := opens
  obtain ⟨front, starts⟩ := Assembly.nextSuffix found
  refine ⟨start, values, read, collected, ⟨front, starts.symm⟩, fun item l made => ?_,
    fun fault l made => ?_⟩
  · simp [Reader.next, running, found, made]
  · simp [Reader.next, running, found, made]

theorem imageOpens {raw : Bytes} (h : r.next = (some (.ok (pos, .image es raw)), r')) :
    ∃ data, Opens r pos es data := by
  simp only [next] at h
  split at h
  · cases h
  · rename_i running
    split at h
    · cases h
    · cases h
    · cases h
    · rename_i start found
      split at h
      · rename_i same
        subst same
        split at h
        · rename_i item left made
          cases h
          obtain ⟨values, data, _, _, read, collected, same⟩ := Assembly.readImageRead made
          cases same
          exact ⟨data, by simpa using running, start, values, found, read, collected⟩
        · cases h
      · cases h

/-- Every image that a reader yields ends at an `EI` that ends a word, unless its data is plain
and holds no such marker. There the entries decide: data that ends itself is refused, but plain
data without a marker is taken as the whole rest of the input. -/
theorem imagesEnded (r : Reader) (pos : Nat) (es : Dict Operand) :
    (∀ raw r', r.next = (some (.ok (pos, .image es raw)), r') → ∃ data, Opens r pos es data) ∧
    ∀ data, Opens r pos es data →
      (∃ front, r.lexer.rest = front ++ (ascii ['I', 'D'] ++ data.rest) ∧ Ended data.rest) ∧
      (∀ raw r', r.next = (some (.ok (pos, .image es raw)), r') →
        (∃ body, data.rest = body ++ (Lexer.imageEnd ++ r'.lexer.rest) ∧ Ended r'.lexer.rest) ∨
        isSelfEnding es = false ∧ Lexeme.Clear none (dropFirstBlank data.rest)) ∧
      (isSelfEnding es = true →
        (∀ body after, data.rest = body ++ (Lexer.imageEnd ++ after) → ¬ Ended after) →
        r.next.1 = some (.error (.content "BI" .imageEnd)) ∧ r.next.2.failed = true) ∧
      (isSelfEnding es = false → Lexeme.Clear none (dropFirstBlank data.rest) →
        r.next = (some (.ok (pos, .image es (dropLastBlank (dropFirstBlank data.rest)))),
          ⟨⟨data.data, []⟩, false⟩)) := by
  refine ⟨fun raw r' => imageOpens, fun data opens => ?_⟩
  obtain ⟨start, values, read, collected, ⟨front, starts⟩, taken, refused⟩ := opens.next
  obtain ⟨further, ends, ended⟩ := Assembly.readEntriesEnds read
  refine ⟨⟨front ++ further, by rw [starts, ends, List.append_assoc], ended⟩, ?_, ?_, ?_⟩
  · intro raw r' found
    rcases made : Assembly.readImage start with ⟨fault | item, left⟩
    · cases found.symm.trans (refused fault left made)
    · cases found.symm.trans (taken item left made)
      exact Assembly.readImageEnds read collected made
  · intro own unmarked
    rcases made : Assembly.readImage start with ⟨fault | item, left⟩
    · rw [refused fault left made, Assembly.readImageRefused read collected own made]
      exact ⟨rfl, rfl⟩
    · obtain ⟨body, marked, ended⟩ | ⟨plain, -⟩ :=
        Assembly.readImageEnds read collected made
      · exact absurd ended (unmarked body _ marked)
      · exact absurd (plain.symm.trans own) Bool.false_ne_true
  · intro plain clear
    refine taken _ _ ?_
    simp only [Assembly.readImage, read, collected, plain, Bool.false_eq_true, if_false,
      Assembly.plainDataUnended clear]

def endedImage : Bytes := ascii ['B', 'I', ' ', 'I', 'D', ' ', 'x', ' ', 'E', 'I', ' ', 'Q']

def cutFilteredImage : Bytes :=
  ascii ['B', 'I', ' ', '/', 'F', ' ', '/', 'A', '8', '5', ' ', 'I', 'D', ' ', 'x']

theorem imagesEndedApart :
    (∃ body, endedImage.drop 5 = body ++ (Lexer.imageEnd ++ endedImage.drop 10)) ∧
    (ofData cutFilteredImage).next.1 = some (.error (.content "BI" .imageEnd)) := by
  have marked : Opens (ofData endedImage) 0 [] ⟨endedImage, endedImage.drop 5⟩ :=
    ⟨rfl, ⟨endedImage, endedImage.drop 2⟩, [], rfl, rfl, rfl⟩
  have cut : Opens (ofData cutFilteredImage) 0 [("F", .ofName "A85")]
      ⟨cutFilteredImage, cutFilteredImage.drop 13⟩ :=
    ⟨rfl, ⟨cutFilteredImage, cutFilteredImage.drop 2⟩, [.ofName "F", .ofName "A85"], rfl, rfl, rfl⟩
  have unmarked : ¬ Lexer.imageEnd <:+: cutFilteredImage.drop 13 := by decide
  constructor
  · obtain ⟨body, whole, -⟩ | ⟨-, clear⟩ := ((imagesEnded _ 0 []).2 _ marked).2.1
      (ascii ['x']) ⟨⟨endedImage, endedImage.drop 10⟩, false⟩ rfl
    · exact ⟨body, whole⟩
    · exact absurd ⟨rfl, rfl, rfl⟩ clear.2.2.1
  · refine (((imagesEnded _ 0 _).2 _ cut).2.2.1 rfl fun body after same => ?_).1
    exact absurd ⟨body, after, by rw [List.append_assoc]; exact same.symm⟩ unmarked

def cutImage : Bytes := ascii ['B', 'I', ' ', 'I', 'D', ' ', 'x']

theorem cutImageTaken :
    (ofData cutImage).next = (some (.ok (0, .image [] (ascii ['x']))), ⟨⟨cutImage, []⟩, false⟩) ∧
    ¬ Lexer.imageEnd <:+: cutImage := by
  refine ⟨rfl, by decide⟩

end ContentItem.Reader

end PageContent
