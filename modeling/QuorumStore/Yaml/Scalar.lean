import QuorumStore.Yaml.Cursor

namespace QuorumStore.Yaml

structure Gap where
  blanks : List Char
  lead : Option (List Char)
  trail : List Char

namespace Gap

def none : Gap := ⟨[], Option.none, []⟩

def text (g : Gap) : List Char :=
  match g.lead with
  | Option.none => g.blanks
  | some ['\n'] => if g.trail.isEmpty then [' '] else g.trail
  | some lead => lead ++ g.trail

def onNewLine (g : Gap) : Bool := g.lead.isSome

def read (margin : Nat) : Nat → Cursor → Gap → Option (Cursor × Gap)
  | 0, _, _ => Option.none
  | fuel + 1, c, g =>
      match c.rest with
      | [] => some (c, g)
      | x :: _ =>
          if isBlank x then
            if g.onNewLine then
              if x = '\t' && decide (c.column < margin) then Option.none
              else read margin fuel c.pass g
            else read margin fuel c.pass { g with blanks := g.blanks ++ [x] }
          else if isBreak x then
            match g.lead with
            | Option.none => read margin fuel c.pass { g with blanks := [], lead := some [x] }
            | some _ => read margin fuel c.pass { g with trail := g.trail ++ [x] }
          else some (c, g)

end Gap

def isFlowIndicator (c : Char) : Bool := c = ',' || c = '[' || c = ']' || c = '{' || c = '}'

def readPlainWord (inFlow : Bool) : Nat → Cursor → Option (Cursor × List Char)
  | 0, _ => none
  | fuel + 1, c =>
      match c.rest with
      | [] => some (c, [])
      | x :: r =>
          if isBlank x || isBreak x then some (c, [])
          else if inFlow && x = ':' && (match r with
              | [] => false
              | y :: _ => isFlowIndicator y || y = '?') then none
          else if (x = ':' && atGap r) || (inFlow && isFlowIndicator x) then some (c, [])
          else (readPlainWord inFlow fuel c.pass).map (fun p => (p.1, x :: p.2))

def readPlain (inFlow : Bool) (margin : Nat) : Nat → Cursor → List Char → Gap →
    Option (Cursor × List Char × Bool)
  | 0, _, _, _ => none
  | fuel + 1, c, text, g =>
      if c.atDocumentMark || c.rest.head? = some '#' then some (c, text, g.onNewLine)
      else
        match readPlainWord inFlow (c.rest.length + 1) c with
        | none => none
        | some (c, word) =>
            let text := if word.isEmpty then text else text ++ g.text ++ word
            let g := if word.isEmpty then g else .none
            if c.rest.isEmpty || !atGap c.rest then some (c, text, g.onNewLine)
            else
              match Gap.read margin (c.rest.length + 1) c g with
              | none => none
              | some (c, g) =>
                  if !inFlow && decide (c.column < margin) then some (c, text, g.onNewLine)
                  else readPlain inFlow margin fuel c text g

def hexValue? (c : Char) : Option Nat :=
  if '0' ≤ c ∧ c ≤ '9' then some (c.toNat - 48)
  else if 'a' ≤ c ∧ c ≤ 'f' then some (c.toNat - 87)
  else if 'A' ≤ c ∧ c ≤ 'F' then some (c.toNat - 55)
  else none

def hexChar? (n : Nat) (s : List Char) : Option Char := do
  let digits := s.take n
  if digits.length != n then none
  let values ← digits.mapM hexValue?
  let code := values.foldl (fun acc d => 16 * acc + d) 0
  if code < 0xD800 ∨ (0xDFFF < code ∧ code ≤ 0x10FFFF) then some (Char.ofNat code) else none

def escape? : List Char → Option (Char × Nat)
  | [] => none
  | 'x' :: r => (hexChar? 2 r).map (·, 3)
  | 'u' :: r => (hexChar? 4 r).map (·, 5)
  | 'U' :: r => (hexChar? 8 r).map (·, 9)
  | c :: _ =>
      ([('0', 0x00), ('a', 0x07), ('b', 0x08), ('t', 0x09), ('\t', 0x09), ('n', 0x0A), ('v', 0x0B),
        ('f', 0x0C), ('r', 0x0D), ('e', 0x1B), (' ', 0x20), ('"', 0x22), ('/', 0x2F), ('\\', 0x5C),
        ('\'', 0x27), ('N', 0x85), ('_', 0xA0), ('L', 0x2028), ('P', 0x2029)].find?
          (fun p => p.1 = c)).map (fun p => (Char.ofNat p.2, 1))

inductive QuotedStop where
  | closed
  | gap
  | escapedBreak

def readQuotedWord (mark : Char) : Nat → Cursor → Option (Cursor × List Char × QuotedStop)
  | 0, _ => none
  | fuel + 1, c =>
      match c.rest with
      | [] => some (c, [], .gap)
      | x :: r =>
          if isBlank x || isBreak x then some (c, [], .gap)
          else if x = mark then
            if mark = '\'' && r.head? = some '\'' then
              (readQuotedWord mark fuel (c.passes 2)).map (fun p => (p.1, '\'' :: p.2.1, p.2.2))
            else some (c.pass, [], .closed)
          else if x = '\\' && mark = '"' then
            match r with
            | [] => none
            | y :: _ =>
                if isBreak y then some (c.passes 2, [], .escapedBreak)
                else
                  match escape? r with
                  | none => none
                  | some (z, n) =>
                      (readQuotedWord mark fuel (c.passes (n + 1))).map
                        (fun p => (p.1, z :: p.2.1, p.2.2))
          else (readQuotedWord mark fuel c.pass).map (fun p => (p.1, x :: p.2.1, p.2.2))

def readQuoted (mark : Char) : Nat → Cursor → List Char → Option (Cursor × List Char)
  | 0, _, _ => none
  | fuel + 1, c, text =>
      if c.atDocumentMark || c.rest.isEmpty then none
      else
        match readQuotedWord mark (c.rest.length + 1) c with
        | none => none
        | some (c, word, .closed) => some (c, text ++ word)
        | some (c, word, stop) =>
            let g : Gap := match stop with
              | .escapedBreak => ⟨[], some [], []⟩
              | _ => .none
            match Gap.read 0 (c.rest.length + 1) c g with
            | none => none
            | some (c, g) => readQuoted mark fuel c (text ++ word ++ g.text)

end QuorumStore.Yaml
