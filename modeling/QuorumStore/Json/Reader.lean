import QuorumStore.Json

namespace QuorumStore.Json

def isBlank (b : UInt8) : Bool := b = 0x20 || b = 0x09 || b = 0x0A || b = 0x0D

def skipBlanks (s : Bytes) : Bytes := s.dropWhile isBlank

def isDigit (b : UInt8) : Bool := decide (0x30 ≤ b) && decide (b ≤ 0x39)

def hexValue? (b : UInt8) : Option Nat :=
  if 0x30 ≤ b ∧ b ≤ 0x39 then some (b.toNat - 0x30)
  else if 0x61 ≤ b ∧ b ≤ 0x66 then some (b.toNat - 0x57)
  else if 0x41 ≤ b ∧ b ≤ 0x46 then some (b.toNat - 0x37)
  else none

def codeUnit? (a b c d : UInt8) : Option Nat := do
  let a ← hexValue? a
  let b ← hexValue? b
  let c ← hexValue? c
  let d ← hexValue? d
  pure (((a * 16 + b) * 16 + c) * 16 + d)

def codePoint (n : Nat) : Bytes :=
  if n < 0x80 then [UInt8.ofNat n]
  else if n < 0x800 then [UInt8.ofNat (0xC0 + n / 0x40), UInt8.ofNat (0x80 + n % 0x40)]
  else if n < 0x10000 then
    [UInt8.ofNat (0xE0 + n / 0x1000), UInt8.ofNat (0x80 + n / 0x40 % 0x40),
     UInt8.ofNat (0x80 + n % 0x40)]
  else
    [UInt8.ofNat (0xF0 + n / 0x40000), UInt8.ofNat (0x80 + n / 0x1000 % 0x40),
     UInt8.ofNat (0x80 + n / 0x40 % 0x40), UInt8.ofNat (0x80 + n % 0x40)]

def isHighSurrogate (n : Nat) : Bool := decide (0xD800 ≤ n) && decide (n < 0xDC00)

def isLowSurrogate (n : Nat) : Bool := decide (0xDC00 ≤ n) && decide (n < 0xE000)

def simpleEscape? (b : UInt8) : Option UInt8 :=
  if b = 0x22 || b = 0x5C || b = 0x2F then some b
  else if b = 0x62 then some 0x08
  else if b = 0x66 then some 0x0C
  else if b = 0x6E then some 0x0A
  else if b = 0x72 then some 0x0D
  else if b = 0x74 then some 0x09
  else none

inductive Piece where
  | byte (b : UInt8)
  | unit (n : Nat)

def readPieces : Bytes → Option (List Piece × Bytes)
  | [] => none
  | b :: r =>
      if b = 0x22 then some ([], r)
      else if b = 0x5C then
        match r with
        | [] => none
        | e :: r =>
            if e = 0x75 then
              match r with
              | a :: b :: c :: d :: r =>
                  match codeUnit? a b c d with
                  | none => none
                  | some n => (readPieces r).map (fun p => (.unit n :: p.1, p.2))
              | _ => none
            else
              match simpleEscape? e with
              | none => none
              | some x => (readPieces r).map (fun p => (.byte x :: p.1, p.2))
      else if b < 0x20 then none
      else (readPieces r).map (fun p => (.byte b :: p.1, p.2))

def spell : List Piece → Bytes
  | [] => []
  | .byte b :: ps => b :: spell ps
  | .unit hi :: .unit lo :: ps =>
      if isHighSurrogate hi && isLowSurrogate lo then
        codePoint (0x10000 + (hi - 0xD800) * 0x400 + (lo - 0xDC00)) ++ spell ps
      else codePoint hi ++ spell (.unit lo :: ps)
  | .unit n :: ps => codePoint n ++ spell ps

def readString (s : Bytes) : Option (Bytes × Bytes) :=
  (readPieces s).map (fun p => (spell p.1, p.2))

def digitsOf (s : Bytes) : Bytes × Bytes := (s.takeWhile isDigit, s.dropWhile isDigit)

def readFraction? : Bytes → Option (Bytes × Bytes)
  | 0x2E :: r =>
      let (ds, r) := digitsOf r
      if ds.isEmpty then none else some (0x2E :: ds, r)
  | s => some ([], s)

def readSign : Bytes → Bytes × Bytes
  | 0x2B :: r => ([0x2B], r)
  | 0x2D :: r => ([0x2D], r)
  | s => ([], s)

def readExponent? : Bytes → Option (Bytes × Bytes)
  | [] => some ([], [])
  | b :: r =>
      if b = 0x45 || b = 0x65 then
        let (sign, r) := readSign r
        let (ds, r) := digitsOf r
        if ds.isEmpty then none else some (b :: sign ++ ds, r)
      else some ([], b :: r)

def readNumber (s : Bytes) : Option (Bytes × Bytes) := do
  let (sign, r) := match s with
    | 0x2D :: r => ([0x2D], r)
    | r => (([] : Bytes), r)
  let (whole, r) := digitsOf r
  if whole.isEmpty || (whole.head? = some 0x30 && whole.length != 1) then none
  let (fraction, r) ← readFraction? r
  let (exponent, r) ← readExponent? r
  pure (sign ++ whole ++ fraction ++ exponent, r)

def after? : Bytes → Bytes → Option Bytes
  | [], s => some s
  | _ :: _, [] => none
  | x :: xs, b :: s => if x = b then after? xs s else none

mutual

def readValue : Nat → Bytes → Option (Json × Bytes)
  | 0, _ => none
  | fuel + 1, s =>
      match skipBlanks s with
      | [] => none
      | b :: r =>
          if b = 0x22 then (readString r).map (fun p => (.string p.1, p.2))
          else if b = 0x5B then
            match skipBlanks r with
            | 0x5D :: r' => some (.array [], r')
            | r' => (readItems fuel r').map (fun p => (.array p.1, p.2))
          else if b = 0x7B then
            match skipBlanks r with
            | 0x7D :: r' => some (.object [], r')
            | r' => (readMembers fuel r').map (fun p => (.object p.1, p.2))
          else if b = 0x6E then (after? [0x75, 0x6C, 0x6C] r).map (fun r => (.null, r))
          else if b = 0x74 then (after? [0x72, 0x75, 0x65] r).map (fun r => (.bool true, r))
          else if b = 0x66 then (after? [0x61, 0x6C, 0x73, 0x65] r).map (fun r => (.bool false, r))
          else (readNumber (b :: r)).map (fun p => (.number p.1, p.2))

def readItems : Nat → Bytes → Option (List Json × Bytes)
  | 0, _ => none
  | fuel + 1, s =>
      match readValue fuel s with
      | none => none
      | some (j, r) =>
          match skipBlanks r with
          | 0x2C :: r => (readItems fuel r).map (fun p => (j :: p.1, p.2))
          | 0x5D :: r => some ([j], r)
          | _ => none

def readMembers : Nat → Bytes → Option (List (Bytes × Json) × Bytes)
  | 0, _ => none
  | fuel + 1, s =>
      match skipBlanks s with
      | 0x22 :: r =>
          match readString r with
          | none => none
          | some (name, r) =>
              match skipBlanks r with
              | 0x3A :: r =>
                  match readValue fuel r with
                  | none => none
                  | some (j, r) =>
                      match skipBlanks r with
                      | 0x2C :: r => (readMembers fuel r).map (fun p => ((name, j) :: p.1, p.2))
                      | 0x7D :: r => some ([(name, j)], r)
                      | _ => none
              | _ => none
      | _ => none

end

def parse? (s : Bytes) : Option Json :=
  -- two calls at most are made for each byte
  match readValue (2 * s.length + 2) s with
  | some (j, r) => if (skipBlanks r).isEmpty then some j else none
  | none => none

def text? : Json → Option String
  | .string t => QuorumStore.text? t
  | _ => none

def natBelow? (bound : Nat) : Json → Option Nat
  | .number literal =>
      if literal.all isDigit then
        let n := literal.foldl (fun n b => 10 * n + (b.toNat - 0x30)) 0
        if n < bound then some n else none
      else none
  | _ => none

def uint64? (j : Json) : Option UInt64 := (j.natBelow? UInt64.size).map UInt64.ofNat

def bool? : Json → Option Bool
  | .bool b => some b
  | _ => none

def items? : Json → Option (List Json)
  | .array js => some js
  | _ => none

def byte? (j : Json) : Option UInt8 := (j.natBelow? UInt8.size).map UInt8.ofNat

def bytes? (j : Json) : Option Bytes := j.items?.bind (·.mapM byte?)

def members? (names : List String) : Json → Option (List (Option Json))
  | .array js =>
      if js.length ≤ names.length then
        some (js.map some ++ List.replicate (names.length - js.length) none)
      else none
  | .object ms => do
      let named ← ms.mapM (fun m => (QuorumStore.text? m.1).map (fun name => (name, m.2)))
      names.mapM (fun name => match named.filter (fun m => m.1 = name) with
        | [] => some none
        | [m] => some (some m.2)
        | _ => none)
  | _ => none

end QuorumStore.Json
