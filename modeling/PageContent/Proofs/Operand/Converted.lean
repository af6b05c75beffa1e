import PageContent.Proofs.Dict
import PageContent.Proofs.Operand.Unbound
import PageContent.Proofs.Outcome

/-! Objects as operands, and operands as objects. An object is an operand unless there is a stream
in it, and an operand loses nothing but its bindings by becoming an object. -/
namespace PageContent

inductive Object.Within (part : Object) : Object → Prop where
  | self : Within part part
  | item {items : List Object} {o : Object} (there : o ∈ items) (inside : Within part o) :
      Within part (.array items)
  | entry {entries : List (String × Object)} {k : String} {o : Object} (there : (k, o) ∈ entries)
      (inside : Within part o) : Within part (.dict entries)
  | attr {attrs : List (String × Object)} {data : Bytes} {k : String} {o : Object}
      (there : (k, o) ∈ attrs) (inside : Within part o) : Within part (.stream attrs data)

namespace Operand

inductive Within (part : Operand) : Operand → Prop where
  | self : Within part part
  | item {b : Option Binding} {items : List Operand} {o : Operand} (there : o ∈ items)
      (inside : Within part o) : Within part (.array b items)
  | entry {b : Option Binding} {entries : List (String × Operand)} {k : String} {o : Operand}
      (there : (k, o) ∈ entries) (inside : Within part o) : Within part (.dict b entries)

def collected : Dict Operand → List (String × Object) → Except Fault (Dict Operand)
  | d, [] => .ok d
  | d, (k, o) :: rest => do collected (Dict.set k (← ofObject o) d) rest

theorem collectedOnto {d : Dict Operand} {es : List (String × Object)}
    (h : (d.map Prod.fst ++ es.map Prod.fst).Nodup) :
    collected d es = (ofEntries es).map (d ++ ·) := by
  induction es generalizing d with
  | nil => simp [collected, ofEntries, Except.map]
  | cons entry rest ih =>
    obtain ⟨k, o⟩ := entry
    have fresh : k ∉ d.map Prod.fst := by
      rw [List.nodup_append] at h
      exact fun there => h.2.2 k there k List.mem_cons_self rfl
    cases first : ofObject o with
    | error fault =>
      simp only [collected, ofEntries, first]
      rfl
    | ok p =>
      have later := ih (d := d ++ [(k, p)]) (by simpa using h)
      simp only [collected, ofEntries, first, Bind.bind, Except.bind, Dict.setFresh fresh, later]
      cases ofEntries rest with
      | error fault => rfl
      | ok ps => simp [Except.map, pure, Except.pure]

theorem collectedAll {es : Dict Object} (h : es.Distinct) : collected [] es = ofEntries es := by
  have onto : collected [] es = (ofEntries es).map ([] ++ ·) := collectedOnto h
  rw [onto]
  cases ofEntries es <;> rfl

theorem objectKeys (es : Dict Operand) : (toEntries es).map Prod.fst = es.map Prod.fst := by
  induction es with
  | nil => rfl
  | cons entry rest ih => simp [toEntries, ih]

section
variable {o : Object} {os : List Object} {es : List (String × Object)} {p part : Operand}
  {ps : List Operand} {pes : List (String × Operand)} {fault : Fault}

theorem arrayOk : ofObject (.array os) = .ok p ↔ ∃ ps, ofObjects os = .ok ps ∧ array none ps = p := by
  simp only [ofObject, bindOk, pureOk]

theorem dictOk : ofObject (.dict es) = .ok p ↔ ∃ pes, ofEntries es = .ok pes ∧ dict none pes = p := by
  simp only [ofObject, bindOk, pureOk]

theorem itemsOk : ofObjects (o :: os) = .ok ps ↔
    ∃ q, ofObject o = .ok q ∧ ∃ qs, ofObjects os = .ok qs ∧ q :: qs = ps := by
  simp only [ofObjects, bindOk, pureOk]

theorem entriesOk {k : String} : ofEntries ((k, o) :: es) = .ok pes ↔
    ∃ q, ofObject o = .ok q ∧ ∃ qes, ofEntries es = .ok qes ∧ (k, q) :: qes = pes := by
  simp only [ofEntries, bindOk, pureOk]

mutual

theorem convertedBack : (p : Operand) → ofObject p.toObject = .ok p.unbound
  | scalar _ _ => rfl
  | ref _ _ => rfl
  | array _ items => arrayOk.mpr ⟨_, convertedItems items, rfl⟩
  | dict _ entries => dictOk.mpr ⟨_, convertedEntries entries, rfl⟩

theorem convertedItems : (ps : List Operand) → ofObjects (toObjects ps) = .ok (unboundItems ps)
  | [] => rfl
  | p :: rest => itemsOk.mpr ⟨_, convertedBack p, _, convertedItems rest, rfl⟩

theorem convertedEntries : (pes : List (String × Operand)) →
    ofEntries (toEntries pes) = .ok (unboundEntries pes)
  | [] => rfl
  | (_, p) :: rest => entriesOk.mpr ⟨_, convertedBack p, _, convertedEntries rest, rfl⟩

end

mutual

theorem sameObject : (o : Object) → ∀ {p}, ofObject o = .ok p → p.toObject = o ∧ p.unbound = p
  | .scalar _, _, ok => by cases ok; exact ⟨rfl, rfl⟩
  | .ref _, _, ok => by cases ok; exact ⟨rfl, rfl⟩
  | .array items, _, ok => by
    obtain ⟨ps, each, rfl⟩ := arrayOk.mp ok
    obtain ⟨same, free⟩ := sameItems items each
    exact ⟨congrArg Object.array same, congrArg (array none) free⟩
  | .dict entries, _, ok => by
    obtain ⟨pes, each, rfl⟩ := dictOk.mp ok
    obtain ⟨same, free⟩ := sameEntries entries each
    exact ⟨congrArg Object.dict same, congrArg (dict none) free⟩
  | .stream _ _, _, ok => by cases ok

theorem sameItems : (os : List Object) → ∀ {ps}, ofObjects os = .ok ps →
    toObjects ps = os ∧ unboundItems ps = ps
  | [], _, ok => by cases ok; exact ⟨rfl, rfl⟩
  | o :: rest, _, ok => by
    obtain ⟨q, first, qs, later, rfl⟩ := itemsOk.mp ok
    obtain ⟨same, free⟩ := sameObject o first
    obtain ⟨same', free'⟩ := sameItems rest later
    exact ⟨by rw [toObjects, same, same'], by rw [unboundItems, free, free']⟩

theorem sameEntries : (es : List (String × Object)) → ∀ {pes}, ofEntries es = .ok pes →
    toEntries pes = es ∧ unboundEntries pes = pes
  | [], _, ok => by cases ok; exact ⟨rfl, rfl⟩
  | (k, o) :: rest, _, ok => by
    obtain ⟨q, first, qes, later, rfl⟩ := entriesOk.mp ok
    obtain ⟨same, free⟩ := sameObject o first
    obtain ⟨same', free'⟩ := sameEntries rest later
    exact ⟨by rw [toEntries, same, same'], by rw [unboundEntries, free, free']⟩

end

mutual

theorem streamWithin : (o : Object) → ∀ {fault}, ofObject o = .error fault →
    fault = .wrongType .inlineOperand (.kind .stream) ∧
    ∃ attrs data, (Object.stream attrs data).Within o
  | .scalar _, _, failed => by cases failed
  | .ref _, _, failed => by cases failed
  | .array items, _, failed => by
    cases each : ofObjects items with
    | ok ps =>
      cases (arrayOk.mpr ⟨ps, each, rfl⟩).symm.trans failed
    | error fault =>
      obtain ⟨rfl, o, there, attrs, data, inside⟩ := streamAmong items each
      simp only [ofObject, each] at failed
      cases failed
      exact ⟨rfl, attrs, data, .item there inside⟩
  | .dict entries, _, failed => by
    cases each : ofEntries entries with
    | ok pes =>
      cases (dictOk.mpr ⟨pes, each, rfl⟩).symm.trans failed
    | error fault =>
      obtain ⟨rfl, k, o, there, attrs, data, inside⟩ := streamInEntries entries each
      simp only [ofObject, each] at failed
      cases failed
      exact ⟨rfl, attrs, data, .entry there inside⟩
  | .stream attrs data, _, failed => by
    cases failed
    exact ⟨rfl, attrs, data, .self⟩

theorem streamAmong : (os : List Object) → ∀ {fault}, ofObjects os = .error fault →
    fault = .wrongType .inlineOperand (.kind .stream) ∧
    ∃ o ∈ os, ∃ attrs data, (Object.stream attrs data).Within o
  | [], _, failed => by cases failed
  | o :: rest, _, failed => by
    cases first : ofObject o with
    | error fault =>
      obtain ⟨rfl, inside⟩ := streamWithin o first
      simp only [ofObjects, first] at failed
      cases failed
      exact ⟨rfl, o, List.mem_cons_self, inside⟩
    | ok q =>
      cases later : ofObjects rest with
      | error fault =>
        obtain ⟨rfl, o', there, inside⟩ := streamAmong rest later
        simp only [ofObjects, first, later] at failed
        cases failed
        exact ⟨rfl, o', List.mem_cons_of_mem _ there, inside⟩
      | ok qs => cases (itemsOk.mpr ⟨q, first, qs, later, rfl⟩).symm.trans failed

theorem streamInEntries : (es : List (String × Object)) → ∀ {fault}, ofEntries es = .error fault →
    fault = .wrongType .inlineOperand (.kind .stream) ∧
    ∃ k o, (k, o) ∈ es ∧ ∃ attrs data, (Object.stream attrs data).Within o
  | [], _, failed => by cases failed
  | (k, o) :: rest, _, failed => by
    cases first : ofObject o with
    | error fault =>
      obtain ⟨rfl, inside⟩ := streamWithin o first
      simp only [ofEntries, first] at failed
      cases failed
      exact ⟨rfl, k, o, List.mem_cons_self, inside⟩
    | ok q =>
      cases later : ofEntries rest with
      | error fault =>
        obtain ⟨rfl, k', o', there, inside⟩ := streamInEntries rest later
        simp only [ofEntries, first, later] at failed
        cases failed
        exact ⟨rfl, k', o', List.mem_cons_of_mem _ there, inside⟩
      | ok qes => cases (entriesOk.mpr ⟨q, first, qes, later, rfl⟩).symm.trans failed

end

theorem itemConverted (ok : ofObjects os = .ok ps) : ∀ o ∈ os, ∃ q, ofObject o = .ok q := by
  induction os generalizing ps with
  | nil => exact fun _ there => by cases there
  | cons o rest ih =>
    obtain ⟨q, first, qs, later, -⟩ := itemsOk.mp ok
    intro o' there
    obtain rfl | after := List.mem_cons.mp there
    · exact ⟨q, first⟩
    · exact ih later o' after

theorem entryConverted (ok : ofEntries es = .ok pes) :
    ∀ k o, (k, o) ∈ es → ∃ q, ofObject o = .ok q := by
  induction es generalizing pes with
  | nil => exact fun _ _ there => by cases there
  | cons entry rest ih =>
    obtain ⟨q, first, qes, later, -⟩ := entriesOk.mp ok
    intro k o there
    obtain rfl | after := List.mem_cons.mp there
    · exact ⟨q, first⟩
    · exact ih later k o after

theorem partConverted {inner : Object} (inside : inner.Within o) :
    ∀ {p}, ofObject o = .ok p → ∃ q, ofObject inner = .ok q := by
  induction inside with
  | self => exact fun ok => ⟨_, ok⟩
  | item there _ ih =>
    intro p ok
    obtain ⟨ps, each, -⟩ := arrayOk.mp ok
    obtain ⟨q, own⟩ := itemConverted each _ there
    exact ih own
  | entry there _ ih =>
    intro p ok
    obtain ⟨pes, each, -⟩ := dictOk.mp ok
    obtain ⟨q, own⟩ := entryConverted each _ _ there
    exact ih own
  | attr => exact fun ok => by cases ok

theorem convertible : (∃ p, ofObject o = .ok p) ↔
    ∀ inner : Object, inner.Within o → inner.kind ≠ .stream := by
  constructor
  · rintro ⟨p, ok⟩ inner inside kind
    obtain ⟨q, own⟩ := partConverted inside ok
    cases inner with
    | scalar s => cases s <;> cases kind
    | stream attrs data => cases own
    | _ => cases kind
  · intro none
    cases converted : ofObject o with
    | ok p => exact ⟨p, rfl⟩
    | error fault =>
      obtain ⟨-, attrs, data, inside⟩ := streamWithin o converted
      exact absurd rfl (none _ inside)

theorem itemsFree (h : unboundItems ps = ps) : ∀ q ∈ ps, q.unbound = q := by
  induction ps with
  | nil => exact fun _ there => by cases there
  | cons p rest ih =>
    simp only [unboundItems, List.cons.injEq] at h
    intro q there
    obtain rfl | after := List.mem_cons.mp there
    · exact h.1
    · exact ih h.2 q after

theorem entriesFree (h : unboundEntries pes = pes) : ∀ k q, (k, q) ∈ pes → q.unbound = q := by
  induction pes with
  | nil => exact fun _ _ there => by cases there
  | cons entry rest ih =>
    simp only [unboundEntries, List.cons.injEq, Prod.ext_iff] at h
    intro k q there
    obtain rfl | after := List.mem_cons.mp there
    · exact h.1.2
    · exact ih h.2 k q after

theorem partFree (inside : part.Within p) (h : p.unbound = p) : part.binding = none := by
  induction inside with
  | self =>
    rw [← h]
    cases part <;> rfl
  | item there _ ih =>
    simp only [unbound, array.injEq] at h
    exact ih (itemsFree h.2 _ there)
  | entry there _ ih =>
    simp only [unbound, dict.injEq] at h
    exact ih (entriesFree h.2 _ _ there)

end

/-- An object is an operand exactly if no stream is within it, and the operand then has no binding at
any depth and is that very object again. An operand that became an object comes back as it was, but
for its bindings. Either way entries with distinct keys can go into a dictionary one by one, and
are the same in the same order. -/
theorem convertedLossless :
    (∀ o : Object, (∃ p, ofObject o = .ok p) ↔
      ∀ inner : Object, inner.Within o → inner.kind ≠ .stream) ∧
    (∀ (o : Object) fault, ofObject o = .error fault →
      fault = .wrongType .inlineOperand (.kind .stream)) ∧
    (∀ o p, ofObject o = .ok p →
      p.toObject = o ∧ ∀ part : Operand, part.Within p → part.binding = none) ∧
    (∀ p : Operand, ofObject p.toObject = .ok p.unbound) ∧
    (∀ es : Dict Object, es.Distinct → collected [] es = ofEntries es) ∧
    ∀ es : Dict Operand, es.Distinct → Dict.ofList (toEntries es) = toEntries es := by
  refine ⟨fun o => convertible, fun o fault failed => (streamWithin o failed).1, fun o p ok => ?_,
    convertedBack, fun es => collectedAll, fun es distinct => Dict.ofListSelf ?_⟩
  · obtain ⟨same, free⟩ := sameObject o ok
    exact ⟨same, fun part inside => partFree inside free⟩
  · rw [Dict.Distinct, objectKeys]
    exact distinct

def unusual : Object :=
  .array [.dict [("Z", .scalar (.real (0 / 0))), ("A", .array [.ref ⟨7, 0⟩, .scalar .null])],
    .scalar (.real (-1 / 0))]

def unusualOperand : Operand :=
  array none [dict none [("Z", scalar none (.real (0 / 0))),
      ("A", array none [ref none ⟨7, 0⟩, scalar none .null])],
    scalar none (.real (-1 / 0))]

theorem convertedLosslessNested :
    ofObject unusual = .ok unusualOperand ∧ unusualOperand.toObject = unusual ∧
    ofObject (.dict [("K", .array [unusual, .stream [] []])]) =
      .error (.wrongType .inlineOperand (.kind .stream)) ∧
    ofObject (unusualOperand.bind ⟨1, ⟨5, 0⟩⟩).toObject = .ok unusualOperand ∧
    collected [] [("Z", unusual), ("A", .scalar .null)] =
      .ok [("Z", unusualOperand), ("A", scalar none .null)] := by
  obtain ⟨converts, faults, returns, back, entries, -⟩ := convertedLossless
  have ok : ofObject unusual = .ok unusualOperand := rfl
  refine ⟨ok, (returns _ _ ok).1, ?_, back _, ?_⟩
  · cases converted : ofObject (.dict [("K", .array [unusual, .stream [] []])]) with
    | error fault => rw [faults _ _ converted]
    | ok p =>
      have stream := (converts _).mp ⟨p, converted⟩ (.stream [] [])
        (.entry List.mem_cons_self (.item (by simp) .self))
      exact absurd rfl stream
  · rw [entries _ (by simp [Dict.Distinct])]
    rfl

end Operand

end PageContent
