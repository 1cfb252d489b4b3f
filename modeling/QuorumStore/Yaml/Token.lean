import QuorumStore.Yaml.Scalar

namespace QuorumStore.Yaml

inductive Token where
  | documentStart
  | documentEnd
  | blockSequence
  | blockMapping
  | blockEnd
  | flowSequence
  | flowSequenceEnd
  | flowMapping
  | flowMappingEnd
  | blockEntry
  | flowEntry
  | key
  | value
  | scalar (text : String) (isPlain : Bool)
  deriving DecidableEq

structure PossibleKey where
  required : Bool
  token : Nat
  line : Nat
  index : Nat
  column : Nat

structure Scanner where
  cursor : Cursor
  indents : List Nat
  keys : List (Option PossibleKey)
  keyAllowed : Bool
  tokens : List Token

namespace Scanner

def start (text : List Char) : Scanner := ⟨.start text, [], [none], true, []⟩

def inFlow (s : Scanner) : Bool := decide (1 < s.keys.length)

def emit (t : Token) (s : Scanner) : Scanner := { s with tokens := t :: s.tokens }

def emitAt (place : Nat) (t : Token) (s : Scanner) : Scanner :=
  let after := s.tokens.length - place
  { s with tokens := s.tokens.take after ++ t :: s.tokens.drop after }

def advance (n : Nat) (s : Scanner) : Scanner := { s with cursor := s.cursor.passes n }

def toNext : Nat → Bool → Scanner → Scanner
  | 0, _, s => s
  | fuel + 1, inComment, s =>
      match s.cursor.rest with
      | [] => s
      | c :: _ =>
          if isBreak c then
            toNext fuel false { s.advance 1 with keyAllowed := s.keyAllowed || !s.inFlow }
          else if inComment then toNext fuel true (s.advance 1)
          else if c = ' ' || (c = '\t' && (s.inFlow || !s.keyAllowed)) then
            toNext fuel false (s.advance 1)
          else if c = '#' then toNext fuel true (s.advance 1)
          else s

def isStale (s : Scanner) (k : PossibleKey) : Bool :=
  decide (k.line < s.cursor.line) || decide (k.index + 1024 < s.cursor.index)

def dropStale (s : Scanner) : Option Scanner :=
  if s.keys.any (fun k => k.any (fun k => s.isStale k && k.required)) then none
  else some { s with keys := s.keys.map (fun k => k.filter (fun k => !s.isStale k)) }

def dropKey (s : Scanner) : Option Scanner :=
  match s.keys with
  | [] => some s
  | k :: ks => if k.any (·.required) then none else some { s with keys := none :: ks }

def saveKey (s : Scanner) : Option Scanner :=
  if s.keyAllowed then do
    let s ← s.dropKey
    let k : PossibleKey :=
      ⟨!s.inFlow && s.indents.head? = some s.cursor.column, s.tokens.length, s.cursor.line,
        s.cursor.index, s.cursor.column⟩
    pure { s with keys := some k :: s.keys.tail }
  else some s

def unroll (column : Nat) : List Nat → Scanner → Scanner
  | [], s => { s with indents := [] }
  | i :: is, s =>
      if column < i then unroll column is (s.emit .blockEnd) else { s with indents := i :: is }

def closeBlocks : List Nat → Scanner → Scanner
  | [], s => { s with indents := [] }
  | _ :: is, s => closeBlocks is (s.emit .blockEnd)

def roll (column place : Nat) (t : Token) (s : Scanner) : Scanner :=
  if s.inFlow || s.indents.head?.any (fun i => decide (column ≤ i)) then s
  else { s.emitAt place t with indents := column :: s.indents }

def documentMark (t : Token) (s : Scanner) : Option Scanner := do
  let s := if s.inFlow then s else closeBlocks s.indents s
  let s ← s.dropKey
  pure ((({ s with keyAllowed := false } : Scanner).advance 3).emit t)

def openFlow (t : Token) (s : Scanner) : Option Scanner := do
  let s ← s.saveKey
  pure ((({ s with keys := none :: s.keys, keyAllowed := true } : Scanner).advance 1).emit t)

def closeFlow (t : Token) (s : Scanner) : Option Scanner := do
  let s ← s.dropKey
  let keys := if s.inFlow then s.keys.tail else s.keys
  pure ((({ s with keys, keyAllowed := false } : Scanner).advance 1).emit t)

def flowEntry (s : Scanner) : Option Scanner := do
  let s ← s.dropKey
  pure ((({ s with keyAllowed := true } : Scanner).advance 1).emit .flowEntry)

def blockEntry (s : Scanner) : Option Scanner := do
  if !s.inFlow && !s.keyAllowed then none
  let s := s.roll s.cursor.column s.tokens.length .blockSequence
  let s ← s.dropKey
  pure ((({ s with keyAllowed := true } : Scanner).advance 1).emit .blockEntry)

def explicitKey (s : Scanner) : Option Scanner := do
  if !s.inFlow && !s.keyAllowed then none
  let s := s.roll s.cursor.column s.tokens.length .blockMapping
  let s ← s.dropKey
  pure ((({ s with keyAllowed := !s.inFlow } : Scanner).advance 1).emit .key)

def value (s : Scanner) : Option Scanner :=
  match s.keys with
  | some k :: ks =>
      let s := (s.emitAt k.token .key).roll k.column k.token .blockMapping
      some ((({ s with keys := none :: ks, keyAllowed := false } : Scanner).advance 1).emit .value)
  | _ =>
      if s.inFlow then some ((({ s with keyAllowed := false } : Scanner).advance 1).emit .value)
      else if s.keyAllowed then
        some (((s.roll s.cursor.column s.tokens.length .blockMapping).advance 1).emit .value)
      else none

def quoted (mark : Char) (s : Scanner) : Option Scanner := do
  let s ← s.saveKey
  let start := s.cursor.pass
  let (cursor, text) ← readQuoted mark (start.rest.length + 1) start []
  pure (({ s with cursor, keyAllowed := false } : Scanner).emit (.scalar (String.ofList text) false))

def plain (s : Scanner) : Option Scanner := do
  let s ← s.saveKey
  let margin := match s.indents with
    | [] => 0
    | i :: _ => i + 1
  let (cursor, text, newLine) ←
    readPlain s.inFlow margin (s.cursor.rest.length + 1) s.cursor [] .none
  pure (({ s with cursor, keyAllowed := newLine } : Scanner).emit
    (.scalar (String.ofList text) true))

def indicators : List Char :=
  ['-', '?', ':', ',', '[', ']', '{', '}', '#', '&', '*', '!', '|', '>', '\'', '"', '%', '@',
    Char.ofNat 0x60]

-- tags, anchors, aliases, directives and block scalars are not taken
def step (s : Scanner) : Option Scanner := do
  let s ← s.dropStale
  let s := if s.inFlow then s else unroll s.cursor.column s.indents s
  match s.cursor.rest with
  | [] => none
  | c :: r =>
      if s.cursor.atDocumentMark then
        s.documentMark (if c = '-' then .documentStart else .documentEnd)
      else if c = '%' && s.cursor.column = 0 then none
      else if c = '[' then s.openFlow .flowSequence
      else if c = '{' then s.openFlow .flowMapping
      else if c = ']' then s.closeFlow .flowSequenceEnd
      else if c = '}' then s.closeFlow .flowMappingEnd
      else if c = ',' then s.flowEntry
      else if c = '-' && atGap r then s.blockEntry
      else if c = '?' && (s.inFlow || atGap r) then s.explicitKey
      else if c = ':' && (s.inFlow || atGap r) then s.value
      else if c = '\'' || c = '"' then s.quoted c
      else if (!indicators.contains c && !isBlank c) || (c = '-' && !(r.head?.any isBlank)) ||
          (!s.inFlow && (c = '?' || c = ':')) then s.plain
      else none

def run : Nat → Scanner → Option (List Token)
  | 0, _ => none
  | fuel + 1, s =>
      let s := toNext (s.cursor.rest.length + 1) false s
      if s.cursor.rest.isEmpty then do
        let s ← s.dropStale
        let s := if s.inFlow then s else closeBlocks s.indents s
        let s ← s.dropKey
        pure s.tokens.reverse
      else
        match s.step with
        | none => none
        | some s => run fuel s

end Scanner

def Token.scan? (text : String) : Option (List Token) :=
  let text := dropMark text.toList
  if text.all isAllowed then
    let text := plainBreaks text
    Scanner.run (text.length + 1) (.start text)
  else none

end QuorumStore.Yaml
