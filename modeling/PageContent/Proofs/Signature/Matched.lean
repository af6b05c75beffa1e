import PageContent.Signature.Table

/-! What a signature asks of operands, and that taking operands finds out just this. Operands
stand before their operator, so both lists are read from their right ends. -/
namespace PageContent.Signature

def Fits (masks : List KindSet) (operands : List Operand) (index : Nat) : Prop :=
  ∃ mask o, masks[index]? = some mask ∧ operands[index]? = some o ∧ mask.accepts o.kind = true

def FitsFromRight (s : Signature) (operands : List Operand) : Nat → Prop :=
  Fits s.masks.reverse operands.reverse

structure Takes (s : Signature) (operands : List Operand) (n : Nat) : Prop where
  most : n = min operands.length s.arity
  least : s.least ≤ n
  fits : ∀ k < n, s.FitsFromRight operands k

/-- Why operands are not taken. When they are too few, the position next to them is the one that
has none; else it is the rightmost position whose mask refuses its operand. -/
inductive Misfit (s : Signature) (operands : List Operand) : Mismatch → Prop where
  | missing {position expected} (few : operands.length < s.least)
      (place : position + 1 + operands.length = s.arity)
      (mask : s.masks[position]? = some expected) : Misfit s operands ⟨position, expected, none⟩
  | refused {position distance expected o} (enough : s.least ≤ operands.length)
      (place : position + 1 + distance = s.arity)
      (right : ∀ k < distance, s.FitsFromRight operands k)
      (mask : s.masks[position]? = some expected) (there : operands.reverse[distance]? = some o)
      (refuses : expected.accepts o.kind = false) :
      Misfit s operands ⟨position, expected, some o.kind⟩

variable {s : Signature} {masks : List KindSet} {operands : List Operand} {m m' : Mismatch}

theorem fitsFirst {mask : KindSet} {o : Operand} (accepted : mask.accepts o.kind = true) :
    Fits (mask :: masks) (o :: operands) 0 := ⟨mask, o, rfl, rfl, accepted⟩

theorem fitsLater {mask : KindSet} {o : Operand} {k : Nat} (later : Fits masks operands k) :
    Fits (mask :: masks) (o :: operands) (k + 1) := later

theorem rejectedNone (fits : rejected? masks operands = none) :
    ∀ k < min operands.length masks.length, Fits masks operands k := by
  induction masks generalizing operands with
  | nil => simp
  | cons mask masks ih =>
    cases operands with
    | nil => simp
    | cons o rest =>
      cases accepted : mask.accepts o.kind with
      | false => simp [rejected?, accepted] at fits
      | true =>
        simp only [rejected?, accepted, if_true] at fits
        intro k less
        cases k with
        | zero => exact fitsFirst accepted
        | succ k =>
          simp only [List.length_cons] at less
          exact fitsLater (ih fits k (by omega))

theorem rejectedSome (found : rejected? masks operands = some m) :
    ∃ k o, m.position + 1 + k = masks.length ∧ (∀ j < k, Fits masks operands j) ∧
      masks[k]? = some m.expected ∧ operands[k]? = some o ∧ m.expected.accepts o.kind = false ∧
      m.found = some o.kind := by
  induction masks generalizing operands with
  | nil => simp [rejected?] at found
  | cons mask masks ih =>
    cases operands with
    | nil => simp [rejected?] at found
    | cons o rest =>
      cases accepted : mask.accepts o.kind with
      | false =>
        simp only [rejected?, accepted, Bool.false_eq_true, if_false, Option.some.injEq] at found
        subst found
        exact ⟨0, o, rfl, by simp, rfl, rfl, accepted, rfl⟩
      | true =>
        simp only [rejected?, accepted, if_true] at found
        obtain ⟨k, o', place, right, mask', there, wrong⟩ := ih found
        refine ⟨k + 1, o', congrArg Nat.succ place, ?_, mask', there, wrong⟩
        intro j less
        cases j with
        | zero => exact fitsFirst accepted
        | succ j => exact fitsLater (right j (Nat.lt_of_succ_lt_succ less))

theorem maskFromRight {position distance : Nat} (place : position + 1 + distance = s.arity) :
    s.masks.reverse[distance]? = s.masks[position]? := by
  rw [arity] at place
  rw [List.getElem?_reverse (by omega)]
  exact congrArg (s.masks[·]?) (by omega)

theorem tableBounded : ∀ s ∈ table, s.least ≤ s.arity := by decide

theorem takeOk {n : Nat} (taken : s.take operands = .ok n) :
    s.Takes operands n := by
  simp only [take] at taken
  split at taken
  · contradiction
  · rename_i enough
    split at taken
    · contradiction
    · rename_i fits
      cases taken
      refine ⟨rfl, Nat.le_of_not_lt enough, fun k less => rejectedNone fits k ?_⟩
      simpa [arity] using less

theorem takeError (bounded : s.least ≤ s.arity) (failed : s.take operands = .error m) :
    s.Misfit operands m := by
  simp only [take] at failed
  split at failed
  · rename_i few
    have given : min operands.length s.arity = operands.length := by omega
    have inside : s.arity - operands.length - 1 < s.masks.length := by
      simp only [arity] at few bounded ⊢
      omega
    rw [given, List.getD_eq_getElem?_getD, List.getElem?_eq_getElem inside] at failed
    cases failed
    exact .missing (by omega) (by omega) (List.getElem?_eq_getElem inside)
  · rename_i enough
    split at failed
    · rename_i found
      cases failed
      obtain ⟨k, o, place, right, mask, there, refuses, kind⟩ := rejectedSome found
      rw [List.length_reverse] at place
      rw [maskFromRight place] at mask
      obtain ⟨position, expected, _⟩ := m
      cases kind
      exact .refused (by omega) place right mask there refuses
    · contradiction

theorem Misfit.inside (h : s.Misfit operands m) :
    m.position < s.arity ∧ s.masks[m.position]? = some m.expected := by
  cases h with
  | missing few place mask =>
    refine ⟨?_, mask⟩
    dsimp only
    omega
  | refused enough place right mask there refuses =>
    refine ⟨?_, mask⟩
    dsimp only
    omega

theorem notFits {position distance : Nat} {expected : KindSet} {o : Operand}
    (place : position + 1 + distance = s.arity) (mask : s.masks[position]? = some expected)
    (there : operands.reverse[distance]? = some o) (refuses : expected.accepts o.kind = false) :
    ¬ s.FitsFromRight operands distance := by
  intro fits
  obtain ⟨mask', o', mask'', there', accepted⟩ := fits
  rw [maskFromRight place, mask] at mask''
  cases mask''
  cases there.symm.trans there'
  rw [refuses] at accepted
  contradiction

theorem Misfit.unique (h : s.Misfit operands m) (h' : s.Misfit operands m') : m = m' := by
  cases h with
  | missing few place mask =>
    cases h' with
    | missing few' place' mask' =>
      have same := Nat.add_right_cancel (place.trans place'.symm)
      cases Nat.succ.inj same
      cases mask.symm.trans mask'
      rfl
    | refused enough => exact absurd few (Nat.not_lt_of_le enough)
  | @refused position distance expected o enough place right mask there refuses =>
    cases h' with
    | missing few => exact absurd few (Nat.not_lt_of_le enough)
    | @refused position' distance' expected' o' enough' place' right' mask' there' refuses' =>
      have here := notFits place mask there refuses
      have here' := notFits place' mask' there' refuses'
      obtain less | rfl | more := Nat.lt_trichotomy distance distance'
      · exact absurd (right' distance less) here
      · cases Nat.succ.inj (Nat.add_right_cancel (place.trans place'.symm))
        cases mask.symm.trans mask'
        cases there.symm.trans there'
        rfl
      · exact absurd (right distance' more) here'

theorem Takes.noMisfit {n : Nat} (h : s.Takes operands n) : ¬ s.Misfit operands m := by
  intro misfit
  have most := h.most
  have least := h.least
  cases misfit with
  | missing few => omega
  | @refused position distance expected o enough place right mask there refuses =>
    have inside := (List.getElem?_eq_some_iff.mp there).1
    rw [List.length_reverse] at inside
    exact notFits place mask there refuses (h.fits distance (by omega))

/-- Operands are taken exactly if there are enough of them and each, counted from the right, is
of a kind that its mask accepts; it is then all operands that have a mask. Else the mismatch
names a position there is and the mask there: with too few operands the one next to them, and
otherwise the rightmost one that refuses its operand. No signature of the table asks for more
operands than it has masks. -/
theorem takeExact : (∀ s ∈ table, s.least ≤ s.arity) ∧
    ∀ s : Signature, s.least ≤ s.arity → ∀ operands,
      (∀ n, s.take operands = .ok n ↔ s.Takes operands n) ∧
      (∀ m, s.take operands = .error m ↔ s.Misfit operands m) ∧
      ∀ m, s.take operands = .error m →
        m.position < s.arity ∧ s.masks[m.position]? = some m.expected := by
  refine ⟨tableBounded, fun s bounded operands => ⟨fun n => ⟨takeOk, fun takes => ?_⟩,
    fun m => ⟨takeError bounded, fun misfit => ?_⟩, fun m failed => (takeError bounded failed).inside⟩⟩
  · cases taken : s.take operands with
    | ok n' => rw [takes.most, (takeOk taken).most]
    | error m => exact absurd (takeError bounded taken) takes.noMisfit
  · cases taken : s.take operands with
    | ok n => exact absurd misfit (takeOk taken).noMisfit
    | error m' => rw [(takeError bounded taken).unique misfit]

def colour : Signature := ⟨"scn", 1, [.number, .number, .number, .number, .numberOrName]⟩

theorem takeExactOfColour : colour ∈ table ∧ colour.least ≤ colour.arity ∧
    colour.Takes [.scalar none (.int 1), .ofName "P"] 2 ∧
    colour.Misfit [] ⟨4, .numberOrName, none⟩ ∧
    colour.Misfit [.ofName "P", .ofName "Q", .scalar none (.int 1)] ⟨3, .number, some .name⟩ := by
  have listed : colour ∈ table := by decide
  have exact (operands : List Operand) := takeExact.2 colour (takeExact.1 colour listed) operands
  exact ⟨listed, takeExact.1 colour listed, ((exact _).1 2).mp rfl, ((exact _).2.1 _).mp rfl,
    ((exact _).2.1 _).mp rfl⟩

end PageContent.Signature
