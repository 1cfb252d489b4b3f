import QuorumStore.Yaml.Token

namespace QuorumStore.Yaml

inductive Node where
  | scalar (text : String) (isPlain : Bool)
  | sequence (items : List Node)
  | mapping (entries : List (Node × Node))

namespace Node

def empty : Node := .scalar "" true

instance : Inhabited Node := ⟨empty⟩

def nextIs (ts : List Token) (among : List Token) : Bool :=
  match ts with
  | [] => true
  | t :: _ => among.contains t

mutual

def read (inBlock bare : Bool) : Nat → List Token → Option (Node × List Token)
  | 0, _ => none
  | fuel + 1, ts =>
      match ts with
      | .scalar text isPlain :: ts => some (.scalar text isPlain, ts)
      | .flowSequence :: ts => (readFlowItems true fuel ts).map (fun p => (.sequence p.1, p.2))
      | .flowMapping :: ts => (readFlowEntries true fuel ts).map (fun p => (.mapping p.1, p.2))
      | .blockSequence :: ts =>
          if inBlock then (readItems fuel ts).map (fun p => (.sequence p.1, p.2)) else none
      | .blockMapping :: ts =>
          if inBlock then (readEntries fuel ts).map (fun p => (.mapping p.1, p.2)) else none
      | .blockEntry :: ts =>
          if bare then (readBareItems fuel (.blockEntry :: ts)).map (fun p => (.sequence p.1, p.2))
          else none
      | _ => none

def readUnless (among : List Token) (inBlock bare : Bool) :
    Nat → List Token → Option (Node × List Token)
  | 0, _ => none
  | fuel + 1, ts => if nextIs ts among then some (empty, ts) else read inBlock bare fuel ts

def readItems : Nat → List Token → Option (List Node × List Token)
  | 0, _ => none
  | fuel + 1, ts =>
      match ts with
      | .blockEnd :: ts => some ([], ts)
      | .blockEntry :: ts =>
          match readUnless [.blockEntry, .blockEnd] true false fuel ts with
          | none => none
          | some (item, ts) => (readItems fuel ts).map (fun p => (item :: p.1, p.2))
      | _ => none

def readBareItems : Nat → List Token → Option (List Node × List Token)
  | 0, _ => none
  | fuel + 1, ts =>
      match ts with
      | .blockEntry :: ts =>
          match readUnless [.blockEntry, .key, .value, .blockEnd] true false fuel ts with
          | none => none
          | some (item, ts) => (readBareItems fuel ts).map (fun p => (item :: p.1, p.2))
      | ts => some ([], ts)

def readEntries : Nat → List Token → Option (List (Node × Node) × List Token)
  | 0, _ => none
  | fuel + 1, ts =>
      match ts with
      | .blockEnd :: ts => some ([], ts)
      | .key :: ts =>
          match readUnless [.key, .value, .blockEnd] true true fuel ts with
          | none => none
          | some (k, .value :: ts) =>
              match readUnless [.key, .value, .blockEnd] true true fuel ts with
              | none => none
              | some (v, ts) => (readEntries fuel ts).map (fun p => ((k, v) :: p.1, p.2))
          | some (k, ts) => (readEntries fuel ts).map (fun p => ((k, empty) :: p.1, p.2))
      | _ => none

def readFlowPair (close : Token) : Nat → List Token → Option ((Node × Node) × List Token)
  | 0, _ => none
  | fuel + 1, ts =>
      match readUnless [.value, .flowEntry, close] false false fuel ts with
      | none => none
      | some (k, .value :: ts) =>
          (readUnless [.flowEntry, close] false false fuel ts).map (fun p => ((k, p.1), p.2))
      | some (k, ts) => some ((k, empty), ts)

def readFlowItems (isFirst : Bool) : Nat → List Token → Option (List Node × List Token)
  | 0, _ => none
  | fuel + 1, ts =>
      let ts? := match ts with
        | .flowSequenceEnd :: _ => some ts
        | .flowEntry :: ts => if isFirst then none else some ts
        | ts => if isFirst then some ts else none
      match ts? with
      | none => none
      | some (.flowSequenceEnd :: ts) => some ([], ts)
      | some (.key :: ts) =>
          match readFlowPair .flowSequenceEnd fuel ts with
          | none => none
          | some (pair, ts) =>
              (readFlowItems false fuel ts).map (fun p => (.mapping [pair] :: p.1, p.2))
      | some ts =>
          match read false false fuel ts with
          | none => none
          | some (item, ts) => (readFlowItems false fuel ts).map (fun p => (item :: p.1, p.2))

def readFlowEntries (isFirst : Bool) : Nat → List Token → Option (List (Node × Node) × List Token)
  | 0, _ => none
  | fuel + 1, ts =>
      let ts? := match ts with
        | .flowMappingEnd :: _ => some ts
        | .flowEntry :: ts => if isFirst then none else some ts
        | ts => if isFirst then some ts else none
      match ts? with
      | none => none
      | some (.flowMappingEnd :: ts) => some ([], ts)
      | some (.key :: ts) =>
          match readFlowPair .flowMappingEnd fuel ts with
          | none => none
          | some (pair, ts) => (readFlowEntries false fuel ts).map (fun p => (pair :: p.1, p.2))
      | some ts =>
          match read false false fuel ts with
          | none => none
          | some (k, ts) => (readFlowEntries false fuel ts).map (fun p => ((k, empty) :: p.1, p.2))

end

def ofTokens? (ts : List Token) : Option Node :=
  let fuel := 4 * ts.length + 4
  let ts := ts.dropWhile (fun t => t = .documentEnd)
  let content := match ts with
    | [] => none
    | .documentStart :: ts => readUnless [.documentStart, .documentEnd] true false fuel ts
    | ts => read true false fuel ts
  match content with
  | none => none
  | some (node, ts) => if (ts.dropWhile (fun t => t = .documentEnd)).isEmpty then some node else none

def parse? (text : String) : Option Node := (Token.scan? text).bind ofTokens?

end Node

end QuorumStore.Yaml
