import PageContent.Proofs.Token.Bounded

/-! In data of fewer than 2^31 octets every number fits that reading a token makes, and the token
is the one that is read with numbers of any size. -/
namespace PageContent.Bounded

structure Inside (stop : Nat) (bytes : Bytes) : Prop where
  short : stop < 2 ^ 31
  within : bytes.length ≤ stop

def place (stop : Nat) (left : Bytes) : Int := stop - left.length

def cursor (stop : Nat) (left : Bytes) : Cursor := ⟨place stop left, left⟩

variable {stop : Nat} {b : UInt8} {bytes rest left : Bytes}

namespace Inside

theorem suffix (h : Inside stop bytes) (ends : left <:+ bytes) : Inside stop left :=
  ⟨h.short, Nat.le_trans ends.length_le h.within⟩

theorem tail (h : Inside stop (b :: rest)) : Inside stop rest := h.suffix (List.suffix_cons b rest)

theorem ahead (h : Inside stop bytes) {count : Nat} (few : count ≤ 3) :
    ahead (place stop bytes) count = some (place stop bytes + count) := by
  obtain ⟨short, within⟩ := h
  unfold place
  exact Width.wordFits (by omega) (by omega)

theorem reach (h : Inside stop bytes) :
    Bounded.ahead (place stop bytes) 2 = some (place stop bytes + 2) := h.ahead (by decide)

theorem beyond (front : Bytes) (h : Inside stop (front ++ rest)) (few : front.length ≤ 3) :
    Bounded.ahead (place stop (front ++ rest)) front.length = some (place stop rest) := by
  rw [h.ahead few]
  simp only [place, List.length_append, Option.some.injEq]
  omega

theorem next (h : Inside stop (b :: rest)) :
    Bounded.ahead (place stop (b :: rest)) 1 = some (place stop rest) :=
  beyond [b] h (by simp)

theorem second {c : UInt8} (h : Inside stop (b :: c :: rest)) :
    Bounded.ahead (place stop (b :: c :: rest)) 2 = some (place stop rest) :=
  beyond [b, c] h (by simp)

theorem third {c d : UInt8} (h : Inside stop (b :: c :: d :: rest)) :
    Bounded.ahead (place stop (b :: c :: d :: rest)) 3 = some (place stop rest) :=
  beyond [b, c, d] h (by simp)

end Inside

theorem skipBlanksExact (inComment : Bool) (h : Inside stop bytes) :
    skipBlanks inComment (place stop bytes) bytes =
      some (cursor stop (Lexeme.skipBlanks inComment bytes)) := by
  fun_induction Lexeme.skipBlanks inComment bytes with
  | case1 => rfl
  | case2 b rest ih => simp [skipBlanks, h.next, ih h.tail]
  | case3 inComment b rest outside percent ih =>
    simp [skipBlanks, outside, percent, h.next, ih h.tail]
  | case4 inComment b rest outside percent blank ih =>
    simp [skipBlanks, outside, percent, blank, h.next, ih h.tail]
  | case5 inComment b rest outside percent solid =>
    simp [skipBlanks, outside, percent, solid, cursor]

theorem hexValueExact (b : UInt8) : hexValue b = some (Octet.fromHex? b) := by
  have each := allOctets (p := fun b => hexValue b == some (Octet.fromHex? b)) (by decide +kernel) b
  simpa using each

theorem nameBodyExact (h : Inside stop bytes) : nameBody (place stop bytes) bytes =
    some ((Lexeme.nameBody bytes).1, cursor stop (Lexeme.nameBody bytes).2) := by
  fun_induction Lexeme.nameBody bytes with
  | case1 => rfl
  | case2 b rest ends => simp [nameBody.eq_def, ends, cursor]
  | case3 b goes hash c d after high low readLow readHigh name left found ih =>
    have later := ih (h.suffix ⟨[b, c, d], rfl⟩)
    rw [found] at later
    rw [nameBody.eq_def]
    simp [goes, hash, hexValueExact, readHigh, readLow, h.next, h.reach, h.third, later]
  | case4 b goes hash c d after cut ih =>
    rw [nameBody.eq_def]
    simp [goes, hash, hexValueExact, h.next, h.reach, ih h.tail]
  | case5 b goes hash c ih =>
    rw [nameBody.eq_def]
    simp [goes, hash, hexValueExact, h.next, h.reach, ih h.tail]
  | case6 b goes hash =>
    rw [nameBody.eq_def]
    simp [goes, hash, h.next, h.reach, cursor]
  | case7 b rest goes plain name left found ih =>
    have later := ih h.tail
    rw [found] at later
    rw [nameBody.eq_def]
    simp [goes, plain, h.next, later]

theorem digitExact {d : UInt8} (digit : Octet.zero.toNat ≤ d.toNat) :
    Bounded.digit d = some (Octet.digitValue d : Int) := by
  have bound := d.toNat_lt
  rw [Octet.digitValue, Int.ofNat_sub digit]
  exact Width.octetFits (by omega) (by omega)

theorem growExact {w : Width} {base n : Nat} {d : UInt8} (least : w.least ≤ 0)
    (digit : Octet.zero.toNat ≤ d.toNat)
    (most : (n * base + Octet.digitValue d : Nat) ≤ w.greatest) :
    grow w base n d = some ((n * base + Octet.digitValue d : Nat) : Int) := by
  have product : w.fit (n * base : Nat) = some ((n * base : Nat) : Int) :=
    Width.fits (by omega) (by omega)
  have sum := Width.fits (w := w) (n := (n * base + Octet.digitValue d : Nat)) (by omega) most
  rw [grow, ← Int.natCast_mul, product, digitExact digit]
  exact sum

theorem octalDigit (b : UInt8) (h : Octet.isOctal b = true) :
    Octet.zero.toNat ≤ b.toNat ∧ Octet.digitValue b < 8 := by
  have each := allOctets (p := fun b => !Octet.isOctal b ||
    (decide (Octet.zero.toNat ≤ b.toNat) && decide (Octet.digitValue b < 8))) (by decide +kernel) b
  simpa [h] using each

theorem decimalDigit (b : UInt8) (h : Octet.isDigit b = true) :
    Octet.zero.toNat ≤ b.toNat ∧ Octet.digitValue b < 10 := by
  have each := allOctets (p := fun b => !Octet.isDigit b ||
    (decide (Octet.zero.toNat ≤ b.toNat) && decide (Octet.digitValue b < 10))) (by decide +kernel) b
  simpa [h] using each

theorem shifted {base n k v : Nat} (digit : v < base) (small : n < base ^ k) :
    n * base + v < base ^ (k + 1) := calc
  n * base + v < (n + 1) * base := by rw [Nat.succ_mul]; omega
  _ ≤ base ^ k * base := Nat.mul_le_mul_right base small
  _ = base ^ (k + 1) := rfl

theorem growWithin {w : Width} {base n k : Nat} {d : UInt8} (least : w.least ≤ 0)
    (digit : Octet.zero.toNat ≤ d.toNat ∧ Octet.digitValue d < base) (small : n < base ^ k)
    (room : (base ^ (k + 1) : Nat) ≤ w.greatest + 1) :
    n * base + Octet.digitValue d < base ^ (k + 1) ∧
      grow w base n d = some ((n * base + Octet.digitValue d : Nat) : Int) := by
  have less := shifted digit.2 small
  exact ⟨less, growExact least digit.1 (by omega)⟩

theorem octalExact {ds : Bytes} (digits : ∀ d ∈ ds, Octet.isOctal d = true) (few : ds.length ≤ 3) :
    octal ds = some (Lexeme.octal ds) := by
  have run (n k : Nat) (small : n < 8 ^ k) (few : k + ds.length ≤ 3) :
      ds.foldlM (grow .word 8) (n : Int) =
        some ((ds.foldl (fun n d => n * 8 + Octet.digitValue d) n : Nat) : Int) := by
    induction ds generalizing n k with
    | nil => rfl
    | cons d rest ih =>
      rw [List.length_cons] at few
      have room : (8 ^ (k + 1) : Nat) ≤ Width.word.greatest + 1 := by
        have most : 8 ^ (k + 1) ≤ 8 ^ 3 := Nat.pow_le_pow_right (by decide) (by omega)
        simp only [Width.word]
        omega
      obtain ⟨less, grown⟩ := growWithin (w := .word) (Int.le_refl 0)
        (octalDigit d (digits d List.mem_cons_self)) small room
      rw [List.foldlM_cons, grown]
      exact ih (fun c member => digits c (List.mem_cons_of_mem d member)) (by omega) _ (k + 1) less
        (by omega)
  have summed : ds.foldlM (grow .word 8) 0 = _ := run 0 0 (by decide) (by omega)
  rw [octal, summed]
  rfl

def Few : Lexeme.Mode → Prop
  | .digits ds => ds.length < 3 ∧ ∀ d ∈ ds, Octet.isOctal d = true
  | _ => True

variable {mode mode' : Lexeme.Mode} {depth depth' : Nat}

def Move.of (m : Lexeme.Move) : Move :=
  ⟨m.out, m.next.map fun (mode, depth) => (mode, (depth : Int) + 1)⟩

theorem plainMoveExact (room : depth + 2 < 2 ^ 31) (b : UInt8) :
    plainMove (depth + 1) b = some (.of (Lexeme.plainMove depth b)) := by
  unfold plainMove Lexeme.plainMove
  split
  · have deeper : Width.signedWord.fit (depth + 1 + 1) = some ((depth : Int) + 1 + 1) :=
      Width.signedWordFits (by omega) (by omega)
    rw [deeper]
    simp [Move.of]
  split
  · have closer : Width.signedWord.fit (depth + 1 - 1) = some (depth : Int) := by
      rw [Int.add_sub_cancel]
      exact Width.signedWordFits (by omega) (by omega)
    rw [closer]
    cases depth with
    | zero => rfl
    | succ outer => simp [Move.of]
  · split <;> rfl

theorem moveExact (few : Few mode) (room : depth + 2 < 2 ^ 31) (b : UInt8) :
    move mode (depth + 1) b = some (.of (Lexeme.move mode depth b)) := by
  have plain := plainMoveExact room b
  cases mode with
  | plain => exact plain
  | escape =>
    simp only [move, Lexeme.move]
    split
    · rename_i digit
      rw [octalExact (by simpa using digit) (by simp)]
      rfl
    split
    · rfl
    split <;> rfl
  | digits ds =>
    obtain ⟨count, digits⟩ := few
    simp only [move, Lexeme.move]
    split
    · rename_i digit
      have longer : ∀ d ∈ ds ++ [b], Octet.isOctal d = true := by
        simpa [or_imp, forall_and] using ⟨digits, digit⟩
      rw [octalExact longer (by simp; omega)]
      simp only [Option.bind_eq_bind, Option.bind_some]
      split <;> rfl
    · rw [octalExact digits (by omega), plain]
      rfl
  | lineEnd =>
    simp only [move, Lexeme.move]
    split
    · rfl
    · exact plain

theorem moveFew (few : Few mode) (moved : (Lexeme.move mode depth b).next = some (mode', depth')) :
    Few mode' ∧ depth' ≤ depth + 1 := by
  have plain (moved : (Lexeme.plainMove depth b).next = some (mode', depth')) :
      Few mode' ∧ depth' ≤ depth + 1 := by
    unfold Lexeme.plainMove at moved
    repeat' split at moved
    all_goals cases moved
    all_goals exact ⟨trivial, by omega⟩
  cases mode with
  | plain => exact plain moved
  | escape =>
    simp only [Lexeme.move] at moved
    split at moved
    · rename_i digit
      cases moved
      exact ⟨⟨by simp, by simpa using digit⟩, by omega⟩
    repeat' split at moved
    all_goals cases moved
    all_goals exact ⟨trivial, by omega⟩
  | digits ds =>
    simp only [Lexeme.move] at moved
    split at moved
    · rename_i digit
      split at moved
      · rename_i short
        cases moved
        exact ⟨⟨short, by simpa [or_imp, forall_and] using ⟨few.2, digit⟩⟩, by omega⟩
      · cases moved
        exact ⟨trivial, by omega⟩
    · exact plain moved
  | lineEnd =>
    simp only [Lexeme.move] at moved
    split at moved
    · cases moved
      exact ⟨trivial, by omega⟩
    · exact plain moved

theorem stringBodyExact (h : Inside stop bytes) (few : Few mode)
    (room : depth + 1 + bytes.length ≤ stop) :
    stringBody mode (depth + 1) (place stop bytes) bytes =
      some ((Lexeme.stringBody mode depth bytes).map Prod.fst,
        cursor stop (((Lexeme.stringBody mode depth bytes).map Prod.snd).getD [])) := by
  -- An octet opens at most one bracket, so the depth and what is left stay within the data.
  induction bytes generalizing mode depth with
  | nil => rfl
  | cons b rest ih =>
    have short := h.short
    rw [List.length_cons] at room
    have moved : move mode (depth + 1) b = some (.of (Lexeme.move mode depth b)) :=
      moveExact few (by omega) b
    simp only [stringBody, Lexeme.stringBody, h.next, moved, Move.of, Option.bind_eq_bind,
      Option.bind_some]
    cases found : (Lexeme.move mode depth b).next with
    | none => rfl
    | some after =>
      obtain ⟨mode', depth'⟩ := after
      obtain ⟨few', least⟩ := moveFew few found
      rw [Option.map_some]
      simp only
      rw [ih h.tail few' (by omega)]
      cases Lexeme.stringBody mode' depth' rest <;> rfl

theorem hexBodyExact (high : Option UInt8) (h : Inside stop bytes) :
    hexBody high (place stop bytes) bytes =
      some ((Lexeme.hexBody high bytes).1, cursor stop (Lexeme.hexBody high bytes).2) := by
  fun_induction Lexeme.hexBody high bytes with
  | case1 => rfl
  | case2 high b rest closes => simp [hexBody, closes, h.next, cursor]
  | case3 b rest inside low readLow high string left found ih =>
    have later := ih h.tail
    rw [found] at later
    simp [hexBody, inside, hexValueExact, readLow, h.next, later]
  | case4 b rest inside low readLow ih =>
    simp [hexBody, inside, hexValueExact, readLow, h.next, ih h.tail]
  | case5 high b rest inside other blank ih =>
    simp [hexBody, inside, hexValueExact, other, blank, h.next, ih h.tail]
  | case6 high b rest inside other solid =>
    simp [hexBody, inside, hexValueExact, other, solid, h.next, cursor]

theorem takeEachExact {α : Type} {passes : UInt8 → Bool} {add : α → UInt8 → Option α} {made all : α}
    (h : Inside stop bytes) (added : (bytes.takeWhile passes).foldlM add made = some all) :
    takeEach passes add made (place stop bytes) bytes =
      some (all, cursor stop (bytes.dropWhile passes)) := by
  induction bytes generalizing made with
  | nil =>
    cases added
    rfl
  | cons b rest ih =>
    cases goes : passes b with
    | true =>
      rw [List.takeWhile_cons_of_pos goes, List.foldlM_cons] at added
      obtain ⟨more, first, later⟩ := Option.bind_eq_some_iff.mp added
      simp [takeEach, goes, first, h.next, ih h.tail later]
    | false =>
      rw [List.takeWhile_cons_of_neg (by simp [goes])] at added
      cases added
      simp [takeEach, goes, cursor]

theorem signExact (h : Inside stop bytes) : sign (place stop bytes) bytes =
    some ((Lexeme.sign bytes).1, cursor stop (Lexeme.sign bytes).2) := by
  cases bytes with
  | nil => rfl
  | cons b rest =>
    simp only [sign, Lexeme.sign, h.next, Option.bind_eq_bind, Option.bind_some, cursor]
    split
    · rfl
    split <;> rfl

variable {ds : Bytes}

theorem addWholeExact (digits : ∀ d ∈ ds, Octet.isDigit d = true) :
    ds.foldlM addWhole (false, 0) = some (!ds.isEmpty, ds.foldl Lexeme.grown 0) := by
  have run (found : Bool) (n : Int64) :
      ds.foldlM addWhole (found, n) = some (found || !ds.isEmpty, ds.foldl Lexeme.grown n) := by
    induction ds generalizing found n with
    | nil => simp
    | cons d rest ih =>
      have digit := digitExact (decimalDigit d (digits d List.mem_cons_self)).1
      have later := ih (fun c member => digits c (List.mem_cons_of_mem d member)) true
        (Lexeme.grown n d)
      simp only [List.foldlM_cons, addWhole, digit, Option.bind_eq_bind, Option.bind_some]
      exact later.trans (by simp)
  exact run false 0

theorem addPlaceExact (digits : ∀ d ∈ ds, Octet.isDigit d = true) :
    ds.foldlM addPlace (0, 0) =
      some ((Lexeme.decimal (ds.take 18) : Int), ((ds.take 18).length : Int)) := by
  have run (n k : Nat) (small : n < 10 ^ k) (few : k ≤ 18) :
      ds.foldlM addPlace ((n : Int), (k : Int)) =
        some ((((ds.take (18 - k)).foldl (fun n d => n * 10 + Octet.digitValue d) n : Nat) : Int),
          ((k + (ds.take (18 - k)).length : Nat) : Int)) := by
    induction ds generalizing n k with
    | nil => simp
    | cons d rest ih =>
      have digit := decimalDigit d (digits d List.mem_cons_self)
      have later := ih fun c member => digits c (List.mem_cons_of_mem d member)
      -- eighteen digits fit, and those after them change nothing
      obtain full | more := Nat.eq_or_lt_of_le few
      · subst full
        simpa [addPlace] using later n 18 small (by decide)
      · have room : (10 ^ (k + 1) : Nat) ≤ Width.signedLong.greatest + 1 := by
          have most : 10 ^ (k + 1) ≤ 10 ^ 18 := Nat.pow_le_pow_right (by decide) (by omega)
          simp only [Width.signedLong]
          omega
        obtain ⟨less, grown⟩ := growWithin (w := .signedLong) (by decide) digit small room
        have counted : Width.word.fit ((k : Int) + 1) = some ((k + 1 : Nat) : Int) :=
          Width.wordFits (by omega) (by omega)
        have under : (k : Int) < 18 := by omega
        have left : 18 - k = (18 - (k + 1)) + 1 := by omega
        rw [List.foldlM_cons]
        simp only [addPlace, under, if_true, grown, counted, Option.bind_eq_bind, Option.bind_some]
        rw [later _ (k + 1) less more, left]
        simp
        omega
  have all := run 0 0 (by decide) (by omega)
  simpa [Lexeme.decimal] using all

theorem grownClamped (ds : Bytes) : (ds.foldl Lexeme.grown 0).toInt = Lexeme.clamped ds := by
  rw [Lexeme.grownDecimal, Lexeme.clampedDecimal]

theorem grownOctets (ds : Bytes) :
    ds.foldl Lexeme.grown 0 = Int64.ofInt (Lexeme.clamped ds) := by
  rw [← grownClamped, Int64.ofInt_toInt]

theorem intValueExact (negative : Bool) (ds : Bytes) :
    intValue negative (ds.foldl Lexeme.grown 0) = some (Lexeme.intValue negative ds) := by
  cases negative with
  | true =>
    have bound := Lexeme.clampedBound ds
    simp only [Lexeme.largest] at bound
    have fits : Width.signedLong.fit (-Lexeme.clamped ds) = some (-(Lexeme.clamped ds : Int)) :=
      Width.signedLongFits (by omega) (by omega)
    simp [intValue, Lexeme.intValue, grownClamped, fits]
  | false => simp [intValue, Lexeme.intValue, grownOctets]

theorem decimalSmall (digits : ∀ d ∈ ds, Octet.isDigit d = true) :
    Lexeme.decimal ds < 10 ^ ds.length := by
  have run (n k : Nat) (small : n < 10 ^ k) :
      ds.foldl (fun n d => n * 10 + Octet.digitValue d) n < 10 ^ (k + ds.length) := by
    induction ds generalizing n k with
    | nil => exact small
    | cons d rest ih =>
      have step := shifted (decimalDigit d (digits d List.mem_cons_self)).2 small
      have later := ih (fun c member => digits c (List.mem_cons_of_mem d member)) _ (k + 1) step
      rwa [Nat.add_assoc, Nat.add_comm 1] at later
  have all := run 0 0 (by decide)
  rwa [Nat.zero_add] at all

theorem realValueExact (negative : Bool) (whole : Bytes) {places : Bytes}
    (digits : ∀ d ∈ places, Octet.isDigit d = true) :
    realValue negative (whole.foldl Lexeme.grown 0) (Lexeme.decimal (places.take 18))
      (places.take 18).length = Lexeme.realValue negative whole places := by
  have kept : Lexeme.clamped (places.take 18) = Lexeme.decimal (places.take 18) := by
    have small : Lexeme.decimal (places.take 18) < 10 ^ (places.take 18).length :=
      decimalSmall fun d member => digits d (List.mem_of_mem_take member)
    have few : 10 ^ (places.take 18).length ≤ 10 ^ 18 :=
      Nat.pow_le_pow_right (by decide) (List.length_take_le 18 places)
    rw [Lexeme.clampedDecimal, Nat.min_eq_left]
    simp only [Lexeme.largest]
    omega
  have some : 0 < ((places.take 18).length : Int) ↔ places.isEmpty = false := by
    cases places <;> simp
  simp only [realValue, Lexeme.realValue, grownOctets, kept, some, Int.toNat_natCast]
  cases places.isEmpty <;> rfl

theorem signSuffix (bytes : Bytes) : (Lexeme.sign bytes).2 <:+ bytes := by
  cases bytes with
  | nil => exact List.suffix_rfl
  | cons b rest =>
    simp only [Lexeme.sign]
    split
    · exact List.suffix_cons b rest
    split
    · exact List.suffix_cons b rest
    · exact List.suffix_rfl

theorem numberExact (h : Inside stop bytes) : number (place stop bytes) bytes =
    some ((Lexeme.number bytes).1, cursor stop (Lexeme.number bytes).2) := by
  have digits (bytes : Bytes) : ∀ d ∈ bytes.takeWhile Octet.isDigit, Octet.isDigit d = true :=
    List.all_eq_true.mp List.all_takeWhile
  have inside := h.suffix (signSuffix bytes)
  have whole := takeEachExact inside (addWholeExact (digits _))
  have after := inside.suffix (List.dropWhile_suffix Octet.isDigit)
  simp only [number, Lexeme.number, signExact h, Option.bind_eq_bind, Option.bind_some, cursor,
    whole, intValueExact]
  generalize (Lexeme.sign bytes).2.dropWhile Octet.isDigit = left at after
  cases left with
  | nil => cases (Lexeme.sign bytes).2.takeWhile Octet.isDigit <;> rfl
  | cons b rest =>
    have places := takeEachExact after.tail (addPlaceExact (digits _))
    cases point : b == Octet.dot with
    | true =>
      have none : ((((rest.takeWhile Octet.isDigit).take 18).length : Int) == 0) =
          (rest.takeWhile Octet.isDigit).isEmpty := by
        cases rest.takeWhile Octet.isDigit <;> simp
        omega
      simp only [point, if_true, after.next, places, Option.bind_some,
        realValueExact _ _ (digits rest), none, Bool.not_not]
      split <;> rfl
    | false =>
      simp only [point, Bool.false_eq_true, if_false]
      cases (Lexeme.sign bytes).2.takeWhile Octet.isDigit <;> rfl

theorem wordExact (h : Inside stop (b :: rest)) : word (place stop (b :: rest)) b rest =
    some ((Lexeme.word b rest).1, cursor stop (Lexeme.word b rest).2) := by
  have added (taken bytes : Bytes) :
      bytes.foldlM (fun taken c => some (taken ++ [c])) taken = some (taken ++ bytes) := by
    induction bytes generalizing taken with
    | nil => simp
    | cons c more ih => simp [ih]
  have taken := takeEachExact h.tail (added [] (rest.takeWhile (!Octet.endsWord ·)))
  simp only [word, h.next, taken, Option.bind_eq_bind, Option.bind_some, List.nil_append]
  rfl

theorem hexStringExact (h : Inside stop bytes) : hexString (place stop bytes) bytes =
    some ((Lexeme.hexString bytes).1, cursor stop (Lexeme.hexString bytes).2) := by
  simp only [hexString, hexBodyExact none h]
  rfl

theorem lexemeExact (h : Inside stop (b :: rest)) : lexeme (place stop (b :: rest)) b rest =
    some ((Lexeme.lexeme b rest).1, cursor stop (Lexeme.lexeme b rest).2) := by
  have first := h.next
  have number := numberExact h
  have word := wordExact h
  fun_cases Lexeme.lexeme b rest
  case case1 slash name left found =>
    have taken := nameBodyExact h.tail
    simp only [found] at taken
    simp only [lexeme, *, if_true, Option.bind_eq_bind, Option.bind_some]
  case case2 | case3 =>
    have string := @stringBodyExact stop rest .plain 0 h.tail trivial
      (by simpa [Nat.add_comm] using h.within)
    simp only [Int.natCast_zero, Int.zero_add, *] at string
    simp only [lexeme, *, if_true, if_false, Bool.false_eq_true, Option.bind_eq_bind,
      Option.bind_some]
    rfl
  case case4 | case6 =>
    have hex := hexStringExact h.tail
    simp only [lexeme, *, if_true, if_false, Bool.false_eq_true, Option.bind_eq_bind,
      Option.bind_some]
  case case5 | case8 =>
    have second := h.second
    simp only [lexeme, *, if_true, if_false, Bool.false_eq_true, Option.bind_eq_bind,
      Option.bind_some]
    rfl
  case case7 | case9 | case10 | case11 | case12 | case13 | case14 =>
    simp only [lexeme, *, if_true, if_false, Bool.false_eq_true, Option.bind_eq_bind,
      Option.bind_some]
    rfl
  case case15 | case16 | case17 | case18 | case19 | case20 | case21 | case22 =>
    simp only [lexeme, *, if_true, if_false, Bool.false_eq_true, Option.bind_eq_bind,
      Option.bind_some]

theorem placeNat (h : Inside stop bytes) : place stop bytes = ((stop - bytes.length : Nat) : Int) :=
  (Int.ofNat_sub h.within).symm

theorem nextExact {l : Lexer} (h : Inside l.data.length l.rest) :
    next l.position l.rest = some (l.next.1, ⟨l.next.2.position, l.next.2.rest⟩) := by
  have start := skipBlanksExact false h
  have inside := h.suffix (Lexeme.skipBlanksSuffix false l.rest)
  rw [placeNat h] at start
  simp only [next, Lexer.next, Lexer.position, start, cursor, Option.bind_eq_bind, Option.bind_some]
  generalize Lexeme.skipBlanks false l.rest = left at inside
  cases left with
  | nil => simp [placeNat inside]
  | cons b rest =>
    have ends := inside.tail.suffix (Lexeme.lexemeSuffix b rest)
    have read := lexemeExact inside
    rw [cursor, placeNat inside, placeNat ends] at read
    simp only [placeNat inside, read, Option.bind_some, Int.toNat_natCast]
    obtain ⟨flaw | token, left⟩ := Lexeme.lexeme b rest
    · rfl
    · rfl

end PageContent.Bounded
