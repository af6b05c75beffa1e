import PageContent.Proofs.Builder.Taking
import PageContent.Proofs.ContentItem.Behind

/-! The end of one stream's data is no more than a line feed between it and the next. -/
namespace PageContent.Builder

theorem leaveFault {b : Builder} {stop : Known} {fault : Fault}
    (refused : (b.leave stop).2 = some fault) : ∃ flaw, fault = .content stop.name flaw := by
  rcases leaveCases b stop with ⟨_, _, _, _, _, _, eq⟩ | ⟨_, eq⟩
  · simp [eq] at refused
  · rw [eq] at refused
    split at refused
    · cases refused
      exact ⟨_, rfl⟩
    · simp at refused

theorem enterFault {b : Builder} {start : Known} {fault : Fault}
    (refused : (b.enter start).2 = some fault) : ∃ flaw, fault = .content start.name flaw := by
  unfold enter at refused
  split at refused
  · cases refused
    exact ⟨_, rfl⟩
  · simp at refused

theorem knownFault {b : Builder} {s : Signature} {fault : Fault}
    (refused : (b.known s).2 = some fault) : ∃ flaw, fault = .content s.name flaw := by
  unfold known at refused
  dsimp only at refused
  split at refused
  · cases refused
    exact ⟨_, rfl⟩
  · split at refused
    · cases refused
      exact ⟨_, rfl⟩
    · split at refused
      · exact enterFault refused
      · split at refused
        · exact leaveFault refused
        · simp at refused

theorem addFault {b : Builder} {item : ContentItem} {fault : Fault}
    (refused : (b.add item).2 = some fault) : ∃ name flaw, fault = .content name flaw := by
  cases item with
  | operand value => simp [add] at refused
  | image entries data =>
    simp only [add] at refused
    split at refused
    · simp at refused
    · cases refused
      exact ⟨_, _, rfl⟩
  | operator name =>
    simp only [add, operator] at refused
    split at refused
    · simp at refused
    · split at refused
      · exact ⟨_, knownFault refused⟩
      · simp at refused

theorem addItemsAppend (b : Builder) (items more : List (Except Fault (Nat × ContentItem))) :
    b.addItems (items ++ more) =
      match b.addItems items with
      | (b', none) => b'.addItems more
      | refused => refused := by
  induction items generalizing b with
  | nil => rfl
  | cons read rest ih =>
    cases read with
    | error fault => rfl
    | ok placed =>
      simp only [List.cons_append, addItems]
      rcases b.add placed.2 with ⟨b₁, _ | fault⟩
      · exact ih b₁
      · rfl

theorem addItemsLater (b : Builder) (n : Nat) (items : List (Except Fault (Nat × ContentItem))) :
    b.addItems (items.map (readLater n)) =
      ((b.addItems items).1, (b.addItems items).2.map (Fault.later n)) := by
  induction items generalizing b with
  | nil => rfl
  | cons read rest ih =>
    cases read with
    | error fault => rfl
    | ok placed =>
      obtain ⟨pos, item⟩ := placed
      simp only [List.map_cons, readLater, addItems]
      rcases added : b.add item with ⟨b₁, _ | fault⟩
      · exact ih b₁
      · obtain ⟨name, flaw, rfl⟩ := addFault (congrArg Prod.snd added)
        rfl

/-- Whatever state a builder is in, the data of one stream and then that of another leave it
as the one data does that has them with a line feed in between, if the first holds no fault and
ends every image it starts. A fault is the same but for the place it names, which is counted
from the start of its own stream. -/
theorem addDataJoined (b : Builder) {data : Bytes}
    (fine : ∀ read ∈ ContentItem.ofData data, read.isOk = true)
    (ends : (ContentItem.Reader.ofData data).ImagesEnd) (rest : Bytes) :
    b.addData (data ++ Octet.lineFeed :: rest) =
      match b.addData data with
      | (b', none) => ((b'.addData rest).1, (b'.addData rest).2.map (Fault.later (data.length + 1)))
      | refused => refused := by
  unfold addData
  rw [ContentItem.ofDataFollowed ends fine, addItemsAppend]
  split
  · exact addItemsLater _ _ _
  · rfl

def imageFirst : Bytes :=
  ascii ['B', 'I', ' ', '/', 'W', ' ', '1', ' ', 'I', 'D', ' ', 'x', ' ', 'E', 'I', ' ', '0', '%']

theorem imageFirstEnds : (ContentItem.Reader.ofData imageFirst).ImagesEnd := by
  refine .of (fun pos l shown values left d read collected plain => ?_) fun read r found => ?_
  · cases shown
    cases read
    exact rfl
  · cases found
    refine .of (fun pos l shown => by cases shown) fun read r found => ?_
    cases found
    exact .of (fun pos l shown => by cases shown) fun read r found => by cases found

theorem addDataJoinedImage :
    (∀ read ∈ ContentItem.ofData imageFirst, read.isOk = true) ∧
    (ContentItem.Reader.ofData imageFirst).ImagesEnd ∧
    ∃ b, (new ⟨1, ⟨1, 0⟩⟩ .default).addData imageFirst = (b, none) ∧ b.pending.length = 1 ∧
      (new ⟨1, ⟨1, 0⟩⟩ .default).addData (imageFirst ++ Octet.lineFeed :: ascii ['g']) =
        ((b.addData (ascii ['g'])).1, none) := by
  have fine : ∀ read ∈ ContentItem.ofData imageFirst, read.isOk = true :=
    List.all_eq_true.mp (by decide +kernel)
  refine ⟨fine, imageFirstEnds, _, rfl, rfl, ?_⟩
  rw [addDataJoined _ fine imageFirstEnds]
  rfl

end PageContent.Builder
