import PageContent.Token
import PageContent.Text.Utf8

/-! Reading one token off the front of some octets. No function here knows where
in the data it stands; what is left to read is part of every result. -/
namespace PageContent.Lexeme

inductive Flaw where
  | bad (flaw : TokenFlaw)
  | unfinished
  deriving DecidableEq, Repr

def Flaw.fault (pos : Nat) : Flaw → Fault
  | bad flaw => .token pos flaw
  | unfinished => .unexpectedEnd

def skipBlanks (inComment : Bool) : Bytes → Bytes
  | [] => []
  | b :: rest =>
    if inComment then skipBlanks (b != Octet.lineFeed && b != Octet.carriageReturn) rest
    else if b == Octet.percent then skipBlanks true rest
    else if Octet.isBlank b then skipBlanks false rest
    else b :: rest

def nameBody : Bytes → Bytes × Bytes
  | [] => ([], [])
  | b :: rest =>
    if Octet.endsWord b then ([], b :: rest)
    else if b == Octet.hash then
      match rest with
      | c :: d :: after =>
        match Octet.fromHex? c, Octet.fromHex? d with
        | some high, some low =>
          let (name, left) := nameBody after
          ((high <<< 4 ||| low) :: name, left)
        | _, _ => nameBody (c :: d :: after)
      | [c] => nameBody [c]
      | [] => ([], [])
    else
      let (name, left) := nameBody rest
      (b :: name, left)

def escaped (b : UInt8) : UInt8 :=
  if b == 0x6e then Octet.lineFeed
  else if b == 0x72 then Octet.carriageReturn
  else if b == 0x74 then Octet.tab
  else if b == 0x62 then 0x08
  else if b == 0x66 then Octet.formFeed
  else b

def octal (ds : Bytes) : UInt8 :=
  UInt8.ofNat (ds.foldl (fun n d => n * 8 + Octet.digitValue d) 0)

inductive Mode where
  | plain
  | escape
  | digits (ds : Bytes)
  | lineEnd
  deriving DecidableEq, Repr

structure Move where
  out : Bytes
  next : Option (Mode × Nat)
  deriving DecidableEq, Repr

def plainMove (depth : Nat) (b : UInt8) : Move :=
  if b == Octet.parenOpen then ⟨[b], some (.plain, depth + 1)⟩
  else if b == Octet.parenClose then
    match depth with
    | 0 => ⟨[], none⟩
    | outer + 1 => ⟨[b], some (.plain, outer)⟩
  else if b == Octet.backslash then ⟨[], some (.escape, depth)⟩
  else ⟨[b], some (.plain, depth)⟩

def move (mode : Mode) (depth : Nat) (b : UInt8) : Move :=
  match mode with
  | .plain => plainMove depth b
  | .escape =>
    if Octet.isOctal b then ⟨[], some (.digits [b], depth)⟩
    else if b == Octet.lineFeed then ⟨[], some (.plain, depth)⟩
    else if b == Octet.carriageReturn then ⟨[], some (.lineEnd, depth)⟩
    else ⟨[escaped b], some (.plain, depth)⟩
  | .digits ds =>
    if Octet.isOctal b then
      let ds := ds ++ [b]
      if ds.length < 3 then ⟨[], some (.digits ds, depth)⟩ else ⟨[octal ds], some (.plain, depth)⟩
    else
      let after := plainMove depth b
      ⟨octal ds :: after.out, after.next⟩
  | .lineEnd => if b == Octet.lineFeed then ⟨[], some (.plain, depth)⟩ else plainMove depth b

def stringBody (mode : Mode) (depth : Nat) : Bytes → Option (Bytes × Bytes)
  | [] => none
  | b :: rest =>
    let m := move mode depth b
    match m.next with
    | none => some (m.out, rest)
    | some (mode, depth) =>
      (stringBody mode depth rest).map fun (string, left) => (m.out ++ string, left)

def hexBody (high : Option UInt8) : Bytes → Except Flaw Bytes × Bytes
  | [] => (.error .unfinished, [])
  | b :: rest =>
    if b == Octet.greater then (.ok (high.toList.map fun h : UInt8 => h <<< 4), rest)
    else match Octet.fromHex? b with
      | some low =>
        match high with
        | some high =>
          let (string, left) := hexBody none rest
          (string.map ((high <<< 4 ||| low) :: ·), left)
        | none => hexBody (some low) rest
      | none =>
        if Octet.isBlank b then hexBody high rest else (.error (.bad .hexString), b :: rest)

def largest : Nat := 0x7fffffffffffffff

def clamped (ds : Bytes) : Nat :=
  ds.foldl (fun n d => min (n * 10 + Octet.digitValue d) largest) 0

def sign : Bytes → Bool × Bytes
  | [] => (false, [])
  | b :: rest =>
    if b == Octet.minus then (true, rest)
    else if b == Octet.plus then (false, rest)
    else (false, b :: rest)

def intValue (negative : Bool) (whole : Bytes) : Int64 :=
  let n : Int := clamped whole
  Int64.ofInt (if negative then -n else n)

def realValue (negative : Bool) (whole places : Bytes) : Float :=
  let kept := places.take 18
  let toFloat (n : Nat) : Float := (Int64.ofNat n).toFloat
  let value := toFloat (clamped whole)
  let value := if places.isEmpty then value
    else value + toFloat (clamped kept) / toFloat (Nat.pow 10 kept.length)
  if negative then -value else value

def number (input : Bytes) : Except Flaw Token × Bytes :=
  let (negative, input) := sign input
  let whole := input.takeWhile Octet.isDigit
  match input.dropWhile Octet.isDigit with
  | [] =>
    (if whole.isEmpty then .error (.bad .number)
      else .ok (.value (.int (intValue negative whole))),
     [])
  | b :: rest =>
    if b == Octet.dot then
      let places := rest.takeWhile Octet.isDigit
      (if whole.isEmpty && places.isEmpty then .error (.bad .number)
        else .ok (.value (.real (realValue negative whole places))),
       rest.dropWhile Octet.isDigit)
    else
      (if whole.isEmpty then .error (.bad .number)
        else .ok (.value (.int (intValue negative whole))),
       b :: rest)

def word (b : UInt8) (rest : Bytes) : Except Flaw Token × Bytes :=
  (.ok (.ofWord (Utf8.decode (b :: rest.takeWhile (!Octet.endsWord ·)))),
   rest.dropWhile (!Octet.endsWord ·))

def hexString (rest : Bytes) : Except Flaw Token × Bytes :=
  let (string, left) := hexBody none rest
  (string.map (.value ∘ .string), left)

def lexeme (b : UInt8) (rest : Bytes) : Except Flaw Token × Bytes :=
  if b == Octet.slash then
    let (name, left) := nameBody rest
    (.ok (.value (.name (Utf8.decode name))), left)
  else if b == Octet.parenOpen then
    match stringBody .plain 0 rest with
    | some (string, left) => (.ok (.value (.string string)), left)
    | none => (.error .unfinished, [])
  else if b == Octet.less then
    match rest with
    | [] => hexString []
    | c :: left => if c == Octet.less then (.ok .dictOpen, left) else hexString rest
  else if b == Octet.greater then
    match rest with
    | [] => (.error (.bad .strayGreater), [])
    | c :: left =>
      if c == Octet.greater then (.ok .dictClose, left) else (.error (.bad .strayGreater), rest)
  else if b == Octet.bracketOpen then (.ok .arrayOpen, rest)
  else if b == Octet.bracketClose then (.ok .arrayClose, rest)
  else if b == Octet.braceOpen then (.ok .braceOpen, rest)
  else if b == Octet.braceClose then (.ok .braceClose, rest)
  else if b == Octet.parenClose then (.error (.bad .strayParen), rest)
  else if b == Octet.plus || b == Octet.minus then
    match rest with
    | [] => word b []
    | c :: _ => if Octet.isDigit c || c == Octet.dot then number (b :: rest) else word b rest
  else if b == Octet.dot then
    match rest with
    | [] => word b []
    | c :: _ => if Octet.isDigit c then number (b :: rest) else word b rest
  else if Octet.isDigit b then number (b :: rest)
  else word b rest

-- With `alone` the marker must also stand first or after a blank.
def upTo (marker : Bytes) (alone : Bool) (before : Option UInt8) : Bytes → Bytes × Bytes
  | [] => ([], [])
  | b :: rest =>
    let after := (b :: rest).drop marker.length
    if marker.isPrefixOf (b :: rest) && (!alone || before.all Octet.isBlank) &&
        after.head?.all Octet.endsWord then ([], after)
    else
      let (data, left) := upTo marker alone (some b) rest
      (b :: data, left)

def dropLastBlank (data : Bytes) : Bytes :=
  if data.getLast?.any Octet.isBlank then data.dropLast else data

def rawData (marker : Bytes) (alone : Bool) (input : Bytes) : Bytes × Bytes :=
  let input := match input with
    | [] => []
    | b :: rest => if Octet.isBlank b then rest else b :: rest
  let (data, left) := upTo marker alone none input
  (dropLastBlank data, left)

end PageContent.Lexeme
