import PageContent.Dict

/-! Keys of a dictionary are distinct, and a dictionary is what its own entries give. -/
namespace PageContent.Dict

variable {α : Type}

def Distinct (d : Dict α) : Prop := (d.map Prod.fst).Nodup

theorem setFresh {key : String} {value : α} {d : Dict α} (h : key ∉ d.map Prod.fst) :
    set key value d = d ++ [(key, value)] := by
  induction d with
  | nil => rfl
  | cons entry rest ih =>
    obtain ⟨k, v⟩ := entry
    simp only [List.map_cons, List.mem_cons, not_or] at h
    rw [set, if_neg (Ne.symm h.1), ih h.2, List.cons_append]

theorem setKeys (key : String) (value : α) (d : Dict α) : (set key value d).map Prod.fst =
    if key ∈ d.map Prod.fst then d.map Prod.fst else d.map Prod.fst ++ [key] := by
  induction d with
  | nil => simp [set]
  | cons entry rest ih =>
    obtain ⟨k, v⟩ := entry
    by_cases same : k = key
    · simp [set, same]
    · simp only [set, if_neg same, List.map_cons, ih, List.mem_cons, Ne.symm same, false_or]
      split <;> rfl

theorem setDistinct {key : String} {value : α} {d : Dict α} (h : d.Distinct) :
    (set key value d).Distinct := by
  unfold Distinct at h ⊢
  rw [setKeys]
  split
  · exact h
  · rename_i fresh
    rw [List.nodup_append]
    refine ⟨h, by simp, ?_⟩
    intro k there j last same
    exact fresh (List.mem_singleton.mp last ▸ same ▸ there)

theorem setMember {key k : String} {value v : α} {d : Dict α} (h : (k, v) ∈ set key value d) :
    (k, v) = (key, value) ∨ (k, v) ∈ d := by
  induction d with
  | nil => exact .inl (List.mem_singleton.mp h)
  | cons entry rest ih =>
    obtain ⟨k', v'⟩ := entry
    by_cases same : k' = key
    · rw [set, if_pos same] at h
      obtain first | later := List.mem_cons.mp h
      · exact .inl (same ▸ first)
      · exact .inr (List.mem_cons_of_mem _ later)
    · rw [set, if_neg same] at h
      obtain first | later := List.mem_cons.mp h
      · exact .inr (first ▸ List.mem_cons_self)
      · exact (ih later).imp_right (List.mem_cons_of_mem _)

theorem foldDistinct {entries : List (String × α)} {d : Dict α} (h : d.Distinct) :
    (entries.foldl (fun d (k, v) => set k v d) d).Distinct := by
  induction entries generalizing d with
  | nil => exact h
  | cons entry rest ih => exact ih (setDistinct h)

theorem ofListDistinct (entries : List (String × α)) : (ofList entries).Distinct :=
  foldDistinct List.nodup_nil

theorem foldMember {entries : List (String × α)} {d : Dict α} {k : String} {v : α}
    (h : (k, v) ∈ entries.foldl (fun d (k, v) => set k v d) d) : (k, v) ∈ d ∨ (k, v) ∈ entries := by
  induction entries generalizing d with
  | nil => exact .inl h
  | cons entry rest ih =>
    obtain before | later := ih h
    · obtain here | old := setMember before
      · exact .inr (here ▸ List.mem_cons_self)
      · exact .inl old
    · exact .inr (List.mem_cons_of_mem _ later)

theorem ofListMember {entries : List (String × α)} {k : String} {v : α}
    (h : (k, v) ∈ ofList entries) : (k, v) ∈ entries := by
  obtain none | there := foldMember h
  · simp at none
  · exact there

theorem foldFresh {entries : List (String × α)} {d : Dict α} (h : Distinct (d ++ entries)) :
    entries.foldl (fun d (k, v) => set k v d) d = d ++ entries := by
  induction entries generalizing d with
  | nil => exact (List.append_nil d).symm
  | cons entry rest ih =>
    obtain ⟨k, v⟩ := entry
    have fresh : k ∉ d.map Prod.fst := by
      simp only [Distinct, List.map_append, List.map_cons, List.nodup_append] at h
      exact fun there => h.2.2 k there k List.mem_cons_self rfl
    simp only [List.foldl_cons, setFresh fresh]
    rw [ih (by simpa [Distinct] using h), List.append_assoc, List.singleton_append]

theorem ofListSelf {d : Dict α} (h : d.Distinct) : ofList d = d := foldFresh h

end PageContent.Dict
