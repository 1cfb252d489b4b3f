namespace QuorumStore.Yaml

structure Cursor where
  rest : List Char
  index : Nat
  line : Nat
  column : Nat

def isOtherBreak (c : Char) : Bool := c.toNat = 0x2028 || c.toNat = 0x2029

def isBreak (c : Char) : Bool := c = '\n' || isOtherBreak c

def isBlank (c : Char) : Bool := c = ' ' || c = '\t'

def atGap : List Char → Bool
  | [] => true
  | c :: _ => isBlank c || isBreak c

def isAllowed (c : Char) : Bool :=
  let n := c.toNat
  n = 0x09 || n = 0x0A || n = 0x0D || (0x20 ≤ n && n ≤ 0x7E) || n = 0x85 ||
    (0xA0 ≤ n && n ≤ 0xD7FF) || (0xE000 ≤ n && n ≤ 0xFFFD) || 0x10000 ≤ n

def plainBreaks : List Char → List Char
  | [] => []
  | '\r' :: '\n' :: r => '\n' :: plainBreaks r
  | '\r' :: r => '\n' :: plainBreaks r
  | c :: r => (if c.toNat = 0x85 then '\n' else c) :: plainBreaks r

def dropMark : List Char → List Char
  | [] => []
  | c :: r => if c.toNat = 0xFEFF then r else c :: r

namespace Cursor

def start (text : List Char) : Cursor := ⟨text, 0, 0, 0⟩

def pass (c : Cursor) : Cursor :=
  match c.rest with
  | [] => c
  | x :: r =>
      if isBreak x then ⟨r, c.index + 1, c.line + 1, 0⟩ else ⟨r, c.index + 1, c.line, c.column + 1⟩

def passes : Nat → Cursor → Cursor
  | 0, c => c
  | n + 1, c => passes n c.pass

def atDocumentMark (c : Cursor) : Bool :=
  c.column = 0 &&
    match c.rest with
    | '-' :: '-' :: '-' :: r => atGap r
    | '.' :: '.' :: '.' :: r => atGap r
    | _ => false

end Cursor

end QuorumStore.Yaml
