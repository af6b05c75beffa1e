import PageContent.Proofs.Builder.Nesting

/-! What a builder does with an item it accepts, and that nothing else is accepted. -/
namespace PageContent.Builder

def Fits (b : Builder) (name : String) (s : Signature) : Prop :=
  Signature.find? name = some s ∧ s.take b.pending.reverse = .ok b.pending.length

def knownOf (b : Builder) (s : Signature) : Known :=
  ⟨s, Operand.bindItems b.binding b.pending.reverse⟩

def cleared (b : Builder) : Builder := { b with pending := [] }

@[simp] theorem knownOfName (b : Builder) (s : Signature) : (b.knownOf s).name = s.name := rfl
@[simp] theorem clearedParams (b : Builder) : b.cleared.params = b.params := rfl
@[simp] theorem clearedTree (b : Builder) : b.cleared.tree = b.tree := rfl
@[simp] theorem clearedOpen (b : Builder) : b.cleared.openBlocks = b.openBlocks := rfl

inductive Took (b : Builder) : ContentItem → Builder → Prop where
  | operand (o : Operand) : Took b (.operand o) { b with pending := o :: b.pending }
  | fold {pending} (two : Assembly.reference? b.pending = some pending) :
      Took b (.operator "R") { b with pending }
  | unknown {name} (whole : name = "R" → Assembly.reference? b.pending = none)
      (absent : Signature.find? name = none) :
      Took b (.operator name)
        (b.cleared.append ((Instruction.unknown name b.pending.reverse).bind b.binding))
  | plain {name s} (fits : b.Fits name s) (opens : Signature.closer? s.name = none)
      (closes : Signature.isCloser s.name = false) :
      Took b (.operator name) (b.cleared.append (.simple (b.knownOf s)))
  | stray {name s} (fits : b.Fits name s) (opens : Signature.closer? s.name = none)
      (closes : Signature.isCloser s.name = true) (lenient : b.params.strictBlocks = false)
      (other : ∀ start, b.opener? = some start → start.endName ≠ s.name) :
      Took b (.operator name) (b.cleared.append (.simple (b.knownOf s)))
  | enter {name s} (fits : b.Fits name s) (opens : (Signature.closer? s.name).isSome)
      (room : b.openBlocks.length < b.params.depthLimit) :
      Took b (.operator name)
        { b.cleared.append (.block (b.knownOf s) none) with
          openBlocks := b.tree.size :: b.openBlocks }
  | leave {name s id outer start} (fits : b.Fits name s) (opens : Signature.closer? s.name = none)
      (closes : Signature.isCloser s.name = true) (opened : b.openBlocks = id :: outer)
      (innermost : b.opener? = some start) (same : start.endName = s.name) :
      Took b (.operator name)
        { b.cleared with tree := b.tree.modify id (closed (b.knownOf s)), openBlocks := outer }
  | image {entries data} (clear : b.pending = []) :
      Took b (.image entries data) (b.append ((Instruction.image entries data).bind b.binding))

theorem findName {name : String} {s : Signature} (h : Signature.find? name = some s) :
    s.name = name := by
  simpa using List.find?_some h

theorem findR : Signature.find? "R" = none := by decide

theorem fitsOf {b : Builder} {name s} (found : Signature.find? name = some s) {n : Nat}
    (takes : s.take b.pending.reverse = .ok n) (enough : ¬ n < b.pending.reverse.length) :
    b.Fits name s := by
  refine ⟨found, ?_⟩
  have bound : n ≤ b.pending.length := by
    simp only [Signature.take] at takes
    split at takes
    · contradiction
    · split at takes
      · contradiction
      · cases takes
        rw [List.length_reverse]
        exact Nat.min_le_left _ _
  rw [takes]
  congr 1
  simp only [List.length_reverse] at enough
  omega

theorem leaveCases (b : Builder) (stop : Known) :
    (∃ id outer start, b.openBlocks = id :: outer ∧ b.opener? = some start ∧
      start.endName = stop.name ∧
      b.leave stop = ({ b with tree := b.tree.modify id (closed stop), openBlocks := outer }, none)) ∨
    ((∀ start, b.opener? = some start → start.endName ≠ stop.name) ∧
      b.leave stop = if b.params.strictBlocks then (b, some (.content stop.name .noBlockStart))
        else (b.append (.simple stop), none)) := by
  unfold leave opener?
  cases hopen : b.openBlocks with
  | nil => exact .inr ⟨by simp, rfl⟩
  | cons id outer =>
    dsimp only
    cases hop : b.tree.op? id with
    | none => exact .inr ⟨by simp, rfl⟩
    | some op =>
      cases op with
      | block start stop' =>
        by_cases same : start.endName = stop.name
        · exact .inl ⟨id, outer, start, rfl, rfl, same, by simp [same]⟩
        · exact .inr ⟨by simpa using same, by simp [same]⟩
      | simple _ => exact .inr ⟨by simp, rfl⟩
      | unknown _ _ => exact .inr ⟨by simp, rfl⟩
      | image _ _ => exact .inr ⟨by simp, rfl⟩

theorem tookKnown {b b' : Builder} {name s} (found : Signature.find? name = some s)
    (ok : b.known s = (b', none)) : Took b (.operator name) b' := by
  unfold known at ok
  dsimp only at ok
  split at ok
  · simp at ok
  · rename_i n takes
    split at ok
    · simp at ok
    · rename_i enough
      have fits := fitsOf found takes enough
      split at ok
      · rename_i opens
        unfold enter at ok
        split at ok
        · simp at ok
        · rename_i room
          cases ok
          exact .enter fits opens (Nat.lt_of_not_le room)
      · rename_i opens
        have opens' : Signature.closer? s.name = none := by simpa using opens
        split at ok
        · rename_i closes
          change b.cleared.leave (b.knownOf s) = _ at ok
          rcases leaveCases b.cleared (b.knownOf s) with
            ⟨id, outer, start, opened, innermost, same, eq⟩ | ⟨other, eq⟩
          · rw [eq] at ok
            cases ok
            exact .leave fits opens' closes opened innermost same
          · rw [eq] at ok
            split at ok
            · simp at ok
            · rename_i lenient
              cases ok
              exact .stray fits opens' closes (by simpa using lenient) other
        · rename_i closes
          cases ok
          exact .plain fits opens' (by simpa using closes)

theorem took {b b' : Builder} {item} (ok : b.add item = (b', none)) : Took b item b' := by
  cases item with
  | operand o => cases ok; exact .operand o
  | image entries data =>
    simp only [add] at ok
    split at ok
    · rename_i clear
      cases ok
      exact .image (by simpa using clear)
    · simp at ok
  | operator name =>
    simp only [add, operator] at ok
    split at ok
    · rename_i pending two
      cases ok
      split at two
      · rename_i isR
        subst isR
        exact .fold two
      · contradiction
    · rename_i whole
      split at ok
      · rename_i s found
        exact tookKnown found ok
      · rename_i absent
        cases ok
        exact .unknown (fun isR => by simpa [isR] using whole) absent

theorem addFits {b : Builder} {name s} (fits : b.Fits name s) :
    b.add (.operator name) =
      if (Signature.closer? s.name).isSome then b.cleared.enter (b.knownOf s)
      else if Signature.isCloser s.name then b.cleared.leave (b.knownOf s)
      else (b.cleared.append (.simple (b.knownOf s)), none) := by
  obtain ⟨found, takes⟩ := fits
  have whole : (if name = "R" then Assembly.reference? b.pending else none) = none := by
    split
    · rename_i isR
      simp [isR, findR] at found
    · rfl
  simp only [add, operator, whole, found, known, takes, List.length_reverse, Nat.lt_irrefl, if_false]
  rfl

theorem added {b b' : Builder} {item} (h : Took b item b') : b.add item = (b', none) := by
  cases h with
  | operand o => rfl
  | fold two => simp [add, operator, two]
  | @unknown name whole absent =>
    have whole' : (if name = "R" then Assembly.reference? b.pending else none) = none := by
      split
      · rename_i isR
        exact whole isR
      · rfl
    simp only [add, operator, whole', absent]
    rfl
  | plain fits opens closes => simp [addFits fits, opens, closes]
  | @stray name s fits opens closes lenient other =>
    rcases leaveCases b.cleared (b.knownOf s) with ⟨_, _, start, _, innermost, same, _⟩ | ⟨_, eq⟩
    · exact absurd same (other start innermost)
    · simp [addFits fits, opens, closes, eq, lenient]
  | @enter name s fits opens room =>
    have room' : ¬ b.cleared.params.depthLimit ≤ b.cleared.openBlocks.length := by simpa using room
    rw [addFits fits, if_pos opens, Builder.enter, if_neg room']
    rfl
  | @leave name s id outer start fits opens closes opened innermost same =>
    rcases leaveCases b.cleared (b.knownOf s) with ⟨_, _, _, opened', _, _, eq⟩ | ⟨other, _⟩
    · cases opened.symm.trans opened'
      simp [addFits fits, opens, closes, eq]
    · exact absurd same (other start innermost)
  | image clear => simp [add, clear]

theorem Took.kept {b b' : Builder} {item} (h : Took b item b') :
    b'.params = b.params ∧ b'.binding = b.binding := by
  cases h <;> exact ⟨rfl, rfl⟩

theorem addItemsCons {b b' : Builder} {read rest} :
    b.addItems (read :: rest) = (b', none) ↔ ∃ pos item b₁, read = .ok (pos, item) ∧
      Took b item b₁ ∧ b₁.addItems rest = (b', none) := by
  cases read with
  | error fault => simp [addItems]
  | ok placed =>
    obtain ⟨pos, item⟩ := placed
    simp only [addItems]
    constructor
    · intro ok
      split at ok
      · rename_i b₁ first
        exact ⟨pos, item, b₁, rfl, took first, ok⟩
      · simp at ok
    · rintro ⟨_, _, b₁, h, first, ok⟩
      cases h
      simp [added first, ok]

theorem addItemsKept {b b' : Builder} {items} (ok : b.addItems items = (b', none)) :
    b'.params = b.params ∧ b'.binding = b.binding := by
  induction items generalizing b with
  | nil => cases ok; exact ⟨rfl, rfl⟩
  | cons read rest ih =>
    obtain ⟨_, _, b₁, -, first, ok⟩ := addItemsCons.mp ok
    obtain ⟨params, binding⟩ := ih ok
    exact ⟨params.trans first.kept.1, binding.trans first.kept.2⟩

end PageContent.Builder
