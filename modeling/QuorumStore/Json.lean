import QuorumStore.Bytes

namespace QuorumStore

inductive Json where
  | null
  | bool (b : Bool)
  | number (literal : Bytes)
  | string (text : Bytes)
  | array (items : List Json)
  | object (members : List (Bytes × Json))

namespace Json

def ofNat (n : Nat) : Json := .number ((Nat.toDigits 10 n).map (fun c => c.toUInt8))

def ofText (s : String) : Json := .string (utf8 s)

instance : Inhabited Json := ⟨.null⟩

def hexDigit (n : UInt8) : UInt8 := if n < 10 then 48 + n else 87 + n

def escape (b : UInt8) : Bytes :=
  if b = 0x22 then [0x5C, 0x22]
  else if b = 0x5C then [0x5C, 0x5C]
  else if b = 0x08 then [0x5C, 0x62]
  else if b = 0x09 then [0x5C, 0x74]
  else if b = 0x0A then [0x5C, 0x6E]
  else if b = 0x0C then [0x5C, 0x66]
  else if b = 0x0D then [0x5C, 0x72]
  else if b < 0x20 then [0x5C, 0x75, 0x30, 0x30, hexDigit (b >>> 4), hexDigit (b &&& 15)]
  else [b]

def quote (text : Bytes) : Bytes := 0x22 :: text.flatMap escape ++ [0x22]

mutual

def render : Json → Bytes
  | .null => [0x6E, 0x75, 0x6C, 0x6C]
  | .bool true => [0x74, 0x72, 0x75, 0x65]
  | .bool false => [0x66, 0x61, 0x6C, 0x73, 0x65]
  | .number literal => literal
  | .string text => quote text
  | .array [] => [0x5B, 0x5D]
  | .array (j :: js) => 0x5B :: render j ++ renderItems js ++ [0x5D]
  | .object [] => [0x7B, 0x7D]
  | .object ((name, j) :: ms) =>
      0x7B :: quote name ++ 0x3A :: render j ++ renderMembers ms ++ [0x7D]

def renderItems : List Json → Bytes
  | [] => []
  | j :: js => 0x2C :: render j ++ renderItems js

def renderMembers : List (Bytes × Json) → Bytes
  | [] => []
  | (name, j) :: ms => 0x2C :: quote name ++ 0x3A :: render j ++ renderMembers ms

end

example : (Json.object [(utf8 "a", .array [.null, .bool true, ofNat 10, ofText "\"\n\x01"])]).render =
    utf8 "\x7b\"a\":[null,true,10,\"\\\"\\n\\u0001\"]\x7d" := by decide +kernel

end Json

end QuorumStore
