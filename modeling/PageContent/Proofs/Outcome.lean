import PageContent.Fault

/-! Chains of steps that may fail, opened from their result. -/
namespace PageContent

instance decidableEqOutcome {ε α : Type} [DecidableEq ε] [DecidableEq α] : DecidableEq (Except ε α)
  | .ok a, .ok b => decidable_of_iff (a = b) ⟨congrArg _, Except.ok.inj⟩
  | .error e, .error f => decidable_of_iff (e = f) ⟨congrArg _, Except.error.inj⟩
  | .ok _, .error _ => isFalse fun same => by cases same
  | .error _, .ok _ => isFalse fun same => by cases same

theorem bindOk {α β : Type} {x : Except Fault α} {f : α → Except Fault β} {r : β} :
    (x >>= f) = .ok r ↔ ∃ a, x = .ok a ∧ f a = .ok r := by
  cases x <;> simp [bind, Except.bind]

theorem pureOk {α : Type} {a r : α} : (pure a : Except Fault α) = .ok r ↔ a = r := by
  simp [pure, Except.pure]

theorem mapOk {α β : Type} {x : Except Fault α} {f : α → β} {r : β} :
    x.map f = .ok r ↔ ∃ a, x = .ok a ∧ f a = r := by
  cases x <;> simp [Except.map]

theorem mapMember {α β : Type} {f : α → Except Fault β} {as : List α} {bs : List β}
    (ok : as.mapM f = .ok bs) : ∀ b ∈ bs, ∃ a ∈ as, f a = .ok b := by
  induction as generalizing bs with
  | nil =>
    rw [List.mapM_nil] at ok
    cases ok
    exact fun _ there => by cases there
  | cons a rest ih =>
    rw [List.mapM_cons] at ok
    obtain ⟨b, first, ok⟩ := bindOk.mp ok
    obtain ⟨rest', later, last⟩ := bindOk.mp ok
    cases last
    intro c there
    obtain rfl | after := List.mem_cons.mp there
    · exact ⟨a, List.mem_cons_self, first⟩
    · obtain ⟨a', member, same⟩ := ih later c after
      exact ⟨a', List.mem_cons_of_mem _ member, same⟩

end PageContent
