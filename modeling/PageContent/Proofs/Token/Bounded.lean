import PageContent.Proofs.ContentItem.Integers

/-! Reading a token with numbers of bounded width. A step gives nothing where a number it makes
does not fit: a position, the depth of a string, the value of some digits. -/
namespace PageContent.Bounded

structure Width where
  least : Int
  greatest : Int

namespace Width

def octet : Width := ⟨0, 0xff⟩

def word : Width := ⟨0, 0xffffffff⟩

def signedWord : Width := ⟨-0x80000000, 0x7fffffff⟩

def signedLong : Width := ⟨-0x8000000000000000, 0x7fffffffffffffff⟩

def fit (w : Width) (n : Int) : Option Int :=
  if w.least ≤ n ∧ n ≤ w.greatest then some n else none

theorem fits {w : Width} {n : Int} (above : w.least ≤ n) (below : n ≤ w.greatest) :
    w.fit n = some n := if_pos ⟨above, below⟩

theorem octetFits {n : Int} (above : 0 ≤ n) (below : n < 0x100) : octet.fit n = some n :=
  fits above (Int.le_sub_one_of_lt below)

theorem wordFits {n : Int} (above : 0 ≤ n) (below : n < 0x100000000) : word.fit n = some n :=
  fits above (Int.le_sub_one_of_lt below)

theorem signedWordFits {n : Int} (above : -0x80000000 ≤ n) (below : n < 0x80000000) :
    signedWord.fit n = some n := fits above (Int.le_sub_one_of_lt below)

theorem signedLongFits {n : Int} (above : -0x8000000000000000 ≤ n)
    (below : n < 0x8000000000000000) : signedLong.fit n = some n :=
  fits above (Int.le_sub_one_of_lt below)

theorem fitted {w : Width} {n m : Int} (h : w.fit n = some m) :
    m = n ∧ w.least ≤ n ∧ n ≤ w.greatest := by
  unfold fit at h
  split at h
  · rename_i bounds
    cases h
    exact ⟨rfl, bounds⟩
  · cases h

end Width

/-- What is left to read, and the position where it starts. A position has 32 bits, as a word
of the narrowest machine has. -/
structure Cursor where
  pos : Int
  left : Bytes
  deriving DecidableEq

def ahead (pos : Int) (count : Nat) : Option Int := Width.word.fit (pos + count)

def digit (b : UInt8) : Option Int := Width.octet.fit (b.toNat - Octet.zero.toNat)

def hexValue (b : UInt8) : Option (Option UInt8) :=
  if Octet.isDigit b then do
    let n ← Width.octet.fit (b.toNat - 0x30)
    some (some (UInt8.ofInt n))
  else if 0x61 ≤ b && b ≤ 0x66 then do
    let n ← Width.octet.fit (b.toNat - 0x61)
    let n ← Width.octet.fit (n + 10)
    some (some (UInt8.ofInt n))
  else if 0x41 ≤ b && b ≤ 0x46 then do
    let n ← Width.octet.fit (b.toNat - 0x41)
    let n ← Width.octet.fit (n + 10)
    some (some (UInt8.ofInt n))
  else some none

def grow (w : Width) (base : Nat) (n : Int) (d : UInt8) : Option Int := do
  let m ← w.fit (n * base)
  let v ← digit d
  w.fit (m + v)

def skipBlanks (inComment : Bool) (pos : Int) : Bytes → Option Cursor
  | [] => some ⟨pos, []⟩
  | b :: rest =>
    if inComment then do
      let pos ← ahead pos 1
      skipBlanks (b != Octet.lineFeed && b != Octet.carriageReturn) pos rest
    else if b == Octet.percent then do
      let pos ← ahead pos 1
      skipBlanks true pos rest
    else if Octet.isBlank b then do
      let pos ← ahead pos 1
      skipBlanks false pos rest
    else some ⟨pos, b :: rest⟩

def nameBody (pos : Int) : Bytes → Option (Bytes × Cursor)
  | [] => some ([], ⟨pos, []⟩)
  | b :: rest =>
    if Octet.endsWord b then some ([], ⟨pos, b :: rest⟩)
    else do
      let next ← ahead pos 1
      if b == Octet.hash then do
        let _ ← ahead pos 2
        match rest with
        | c :: d :: after => do
          let high ← hexValue c
          let low ← hexValue d
          match high, low with
          | some high, some low => do
            let pos ← ahead pos 3
            let (name, cursor) ← nameBody pos after
            some ((high <<< 4 ||| low) :: name, cursor)
          | _, _ => nameBody next (c :: d :: after)
        | [c] => do
          let _ ← hexValue c
          nameBody next [c]
        | [] => some ([], ⟨next, []⟩)
      else do
        let (name, cursor) ← nameBody next rest
        some (b :: name, cursor)

def octal (ds : Bytes) : Option UInt8 := do
  let n ← ds.foldlM (grow .word 8) 0
  some (UInt8.ofNat n.toNat)

structure Move where
  out : Bytes
  next : Option (Lexeme.Mode × Int)

def plainMove (depth : Int) (b : UInt8) : Option Move :=
  if b == Octet.parenOpen then do
    let depth ← Width.signedWord.fit (depth + 1)
    some ⟨[b], some (.plain, depth)⟩
  else if b == Octet.parenClose then do
    let depth ← Width.signedWord.fit (depth - 1)
    some (if 0 < depth then ⟨[b], some (.plain, depth)⟩ else ⟨[], none⟩)
  else if b == Octet.backslash then some ⟨[], some (.escape, depth)⟩
  else some ⟨[b], some (.plain, depth)⟩

def move (mode : Lexeme.Mode) (depth : Int) (b : UInt8) : Option Move :=
  match mode with
  | .plain => plainMove depth b
  | .escape =>
    if Octet.isOctal b then do
      let _ ← octal [b]
      some ⟨[], some (.digits [b], depth)⟩
    else if b == Octet.lineFeed then some ⟨[], some (.plain, depth)⟩
    else if b == Octet.carriageReturn then some ⟨[], some (.lineEnd, depth)⟩
    else some ⟨[Lexeme.escaped b], some (.plain, depth)⟩
  | .digits ds =>
    if Octet.isOctal b then do
      let ds := ds ++ [b]
      let n ← octal ds
      some (if ds.length < 3 then ⟨[], some (.digits ds, depth)⟩
        else ⟨[n], some (.plain, depth)⟩)
    else do
      let n ← octal ds
      let after ← plainMove depth b
      some ⟨n :: after.out, after.next⟩
  | .lineEnd =>
    if b == Octet.lineFeed then some ⟨[], some (.plain, depth)⟩ else plainMove depth b

def stringBody (mode : Lexeme.Mode) (depth pos : Int) : Bytes → Option (Option Bytes × Cursor)
  | [] => some (none, ⟨pos, []⟩)
  | b :: rest => do
    let pos ← ahead pos 1
    let m ← move mode depth b
    match m.next with
    | none => some (some m.out, ⟨pos, rest⟩)
    | some (mode, depth) => do
      let (string, cursor) ← stringBody mode depth pos rest
      some (string.map (m.out ++ ·), cursor)

def hexBody (high : Option UInt8) (pos : Int) :
    Bytes → Option (Except Lexeme.Flaw Bytes × Cursor)
  | [] => some (.error .unfinished, ⟨pos, []⟩)
  | b :: rest => do
    let next ← ahead pos 1
    if b == Octet.greater then
      some (.ok (high.toList.map fun h : UInt8 => h <<< 4), ⟨next, rest⟩)
    else do
      let low ← hexValue b
      match low with
      | some low =>
        match high with
        | some high => do
          let (string, cursor) ← hexBody none next rest
          some (string.map ((high <<< 4 ||| low) :: ·), cursor)
        | none => hexBody (some low) next rest
      | none =>
        if Octet.isBlank b then hexBody high next rest
        else some (.error (.bad .hexString), ⟨pos, b :: rest⟩)

def takeEach {α : Type} (passes : UInt8 → Bool) (add : α → UInt8 → Option α) (made : α)
    (pos : Int) : Bytes → Option (α × Cursor)
  | [] => some (made, ⟨pos, []⟩)
  | b :: rest =>
    if passes b then do
      let made ← add made b
      let pos ← ahead pos 1
      takeEach passes add made pos rest
    else some (made, ⟨pos, b :: rest⟩)

def sign (pos : Int) : Bytes → Option (Bool × Cursor)
  | [] => some (false, ⟨pos, []⟩)
  | b :: rest => do
    let next ← ahead pos 1
    some (if b == Octet.minus then (true, ⟨next, rest⟩)
      else if b == Octet.plus then (false, ⟨next, rest⟩)
      else (false, ⟨pos, b :: rest⟩))

-- The product and the sum saturate, so only the digit has to fit.
def addWhole (made : Bool × Int64) (d : UInt8) : Option (Bool × Int64) := do
  let v ← digit d
  some (true, Lexeme.saturated ((Lexeme.saturated (made.2.toInt * 10)).toInt + v))

def addPlace (made : Int × Int) (d : UInt8) : Option (Int × Int) :=
  if made.2 < 18 then do
    let n ← grow .signedLong 10 made.1 d
    let count ← Width.word.fit (made.2 + 1)
    some (n, count)
  else some made

def intValue (negative : Bool) (whole : Int64) : Option Int64 :=
  if negative then (Width.signedLong.fit (-whole.toInt)).map Int64.ofInt else some whole

def realValue (negative : Bool) (whole : Int64) (places count : Int) : Float :=
  let value := whole.toFloat
  let value := if 0 < count then
      value + (Int64.ofInt places).toFloat / (Int64.ofNat (Nat.pow 10 count.toNat)).toFloat
    else value
  if negative then -value else value

def number (pos : Int) (input : Bytes) : Option (Except Lexeme.Flaw Token × Cursor) := do
  let (negative, start) ← sign pos input
  let ((found, whole), cursor) ← takeEach Octet.isDigit addWhole (false, 0) start.pos start.left
  let pointed := match cursor.left with
    | [] => none
    | b :: rest => if b == Octet.dot then some rest else none
  match pointed with
  | none => do
    if found then do
      let n ← intValue negative whole
      some (.ok (.value (.int n)), cursor)
    else some (.error (.bad .number), cursor)
  | some rest => do
    let pos ← ahead cursor.pos 1
    let ((places, count), cursor) ← takeEach Octet.isDigit addPlace (0, 0) pos rest
    some (if !found && count == 0 then (.error (.bad .number), cursor)
      else (.ok (.value (.real (realValue negative whole places count))), cursor))

def word (pos : Int) (b : UInt8) (rest : Bytes) : Option (Except Lexeme.Flaw Token × Cursor) := do
  let pos ← ahead pos 1
  let (more, cursor) ← takeEach (!Octet.endsWord ·) (fun taken c => some (taken ++ [c])) [] pos rest
  some (.ok (.ofWord (Utf8.decode (b :: more))), cursor)

def hexString (pos : Int) (rest : Bytes) : Option (Except Lexeme.Flaw Token × Cursor) := do
  let (string, cursor) ← hexBody none pos rest
  some (string.map (.value ∘ .string), cursor)

def lexeme (pos : Int) (b : UInt8) (rest : Bytes) :
    Option (Except Lexeme.Flaw Token × Cursor) := do
  let next ← ahead pos 1
  if b == Octet.slash then do
    let (name, cursor) ← nameBody next rest
    some (.ok (.value (.name (Utf8.decode name))), cursor)
  else if b == Octet.parenOpen then do
    let (string, cursor) ← stringBody .plain 1 next rest
    match string with
    | some string => some (.ok (.value (.string string)), cursor)
    | none => some (.error .unfinished, cursor)
  else if b == Octet.less then
    match rest with
    | [] => hexString next []
    | c :: left =>
      if c == Octet.less then do
        let pos ← ahead pos 2
        some (.ok .dictOpen, ⟨pos, left⟩)
      else hexString next rest
  else if b == Octet.greater then
    match rest with
    | [] => some (.error (.bad .strayGreater), ⟨next, []⟩)
    | c :: left =>
      if c == Octet.greater then do
        let pos ← ahead pos 2
        some (.ok .dictClose, ⟨pos, left⟩)
      else some (.error (.bad .strayGreater), ⟨next, rest⟩)
  else if b == Octet.bracketOpen then some (.ok .arrayOpen, ⟨next, rest⟩)
  else if b == Octet.bracketClose then some (.ok .arrayClose, ⟨next, rest⟩)
  else if b == Octet.braceOpen then some (.ok .braceOpen, ⟨next, rest⟩)
  else if b == Octet.braceClose then some (.ok .braceClose, ⟨next, rest⟩)
  else if b == Octet.parenClose then some (.error (.bad .strayParen), ⟨next, rest⟩)
  else if b == Octet.plus || b == Octet.minus then
    match rest with
    | [] => word pos b []
    | c :: _ =>
      if Octet.isDigit c || c == Octet.dot then number pos (b :: rest) else word pos b rest
  else if b == Octet.dot then
    match rest with
    | [] => word pos b []
    | c :: _ => if Octet.isDigit c then number pos (b :: rest) else word pos b rest
  else if Octet.isDigit b then number pos (b :: rest)
  else word pos b rest

def next (pos : Int) (bytes : Bytes) : Option (Option (Except Fault (Nat × Token)) × Cursor) := do
  let start ← skipBlanks false pos bytes
  match start.left with
  | [] => some (none, start)
  | b :: rest => do
    let (token, cursor) ← lexeme start.pos b rest
    let pos := start.pos.toNat
    some (some ((token.map (pos, ·)).mapError (Lexeme.Flaw.fault pos)), cursor)

theorem openedTooDeep {depth pos : Int} {n : Nat} (fits : depth ≤ Width.signedWord.greatest)
    (deep : Width.signedWord.greatest < depth + n) :
    stringBody .plain depth pos (List.replicate n Octet.parenOpen) = none := by
  induction n generalizing depth pos with
  | zero => omega
  | succ n ih =>
    simp only [List.replicate_succ, stringBody, move, plainMove, Option.bind_eq_bind]
    cases ahead pos 1 with
    | none => rfl
    | some pos =>
      cases found : Width.signedWord.fit (depth + 1) with
      | none => simp
      | some more =>
        obtain ⟨rfl, -, most⟩ := Width.fitted found
        have later : stringBody .plain (depth + 1) pos (List.replicate n Octet.parenOpen) = none :=
          ih most (by omega)
        simp [later]

theorem bracketsTooDeep {n : Nat} (many : 2 ^ 31 ≤ n) :
    next 0 (List.replicate n Octet.parenOpen) = none := by
  obtain ⟨m, rfl⟩ := Nat.exists_eq_add_of_le' (Nat.le_trans (by decide) many : 1 ≤ n)
  have deep : stringBody .plain 1 1 (List.replicate m Octet.parenOpen) = none :=
    openedTooDeep (by decide) (by simp only [Width.signedWord]; omega)
  have start : skipBlanks false 0 (Octet.parenOpen :: List.replicate m Octet.parenOpen) =
      some ⟨0, Octet.parenOpen :: List.replicate m Octet.parenOpen⟩ := rfl
  have token : lexeme 0 Octet.parenOpen (List.replicate m Octet.parenOpen) =
      (stringBody .plain 1 1 (List.replicate m Octet.parenOpen)).bind _ := rfl
  simp only [List.replicate_succ, next, start, token, deep, Option.bind_eq_bind, Option.bind_some,
    Option.bind_none]

end PageContent.Bounded
