import QuorumStore.Bytes.Hex
import QuorumStore.Engine

namespace QuorumStore

structure Hint where
  versions : List Version
  recordedAt : UInt64
  attempts : Nat
  deriving DecidableEq

namespace Hint

def toJson (h : Hint) : Json :=
  .object
    [(utf8 "versions", .array (h.versions.map Version.toJson)),
     (utf8 "recorded_at_ms", .ofNat h.recordedAt.toNat),
     (utf8 "attempts", .ofNat h.attempts)]

def ofJson? (j : Json) : Option Hint :=
  match j.members? ["versions", "recorded_at_ms", "attempts"] with
  | some [some versions, some recordedAt, attempts] => do
      pure
        { versions := ← (← versions.items?).mapM Version.ofJson?
          recordedAt := ← recordedAt.uint64?
          attempts := ← match attempts with
            | none => some 0
            | some n => n.natBelow? UInt32.size }
  | _ => none

def decode? (b : Bytes) : Option Hint := (Json.parse? b).bind ofJson?

def toVersion (h : Hint) : Version :=
  .live h.toJson.render (Version.mergedVector h.versions) h.recordedAt

def ofVersions? : List Version → Option Hint
  | [] => none
  | v :: _ => decode? v.value

def fold (h : Hint) (v : Version) : Hint :=
  { h with versions := Version.reconcile (h.versions ++ [v]) }

-- the count is a 32-bit word and starts again after the greatest one
def fail (h : Hint) : Hint := { h with attempts := (h.attempts + 1) % UInt32.size }

def settles (settled : List Version) (v : Version) : Bool :=
  settled.any (fun s => decide (s = v) || decide (s.vector.compare v.vector = .dominates))

end Hint

inductive HintTableError where
  | engine (error : EngineError)
  deriving DecidableEq

def HintTableError.message : HintTableError → String
  | .engine e => "storage error: " ++ e.message

structure HintTable where
  engine : Engine
  deriving DecidableEq

namespace HintTable

def volatile : HintTable := ⟨.volatile⟩

instance : Inhabited HintTable := ⟨volatile⟩

def open? (file : LogFile) : Except HintTableError HintTable :=
  match Engine.open? file with
  | .error e => .error (.engine e)
  | .ok e => .ok ⟨e⟩

def keyStart (target : NodeId) : String := Hex.encode (utf8 target) ++ ":"

def keyOf (target : NodeId) (key : Key) : Key := keyStart target ++ key

def parseKey? (k : Key) : Option (NodeId × Key) :=
  match k.toList.dropWhile (fun c => c != ':') with
  | [] => none
  | _ :: key => do
      let target ← Hex.ofDigits? (k.toList.takeWhile (fun c => c != ':'))
      pure (← text? target, String.ofList key)

def load? (t : HintTable) (k : Key) : Option Hint := (t.engine.get? k).bind Hint.ofVersions?

def get? (t : HintTable) (target : NodeId) (key : Key) : Option Hint := t.load? (keyOf target key)

def save (t : HintTable) (k : Key) (h : Hint) : HintTable := ⟨t.engine.replace k [h.toVersion]⟩

def record (t : HintTable) (target : NodeId) (key : Key) (v : Version) (now : UInt64) : HintTable :=
  t.save (keyOf target key) (match t.get? target key with
    | some h => h.fold v
    | none => ⟨[v], now, 0⟩)

def hintsFor (t : HintTable) (target : NodeId) : List (Key × Hint) :=
  (t.engine.table.keysWith (keyStart target)).filterMap (fun k =>
    (t.load? k).map (fun h => (String.ofList (k.toList.drop (keyStart target).toList.length), h)))

def hinted (t : HintTable) (key : Key) : List Version :=
  Version.reconcile (t.engine.table.keys.flatMap (fun k =>
    if (parseKey? k).map (·.2) = some key then
      match t.load? k with
      | some h => h.versions
      | none => []
    else []))

def countFailure (t : HintTable) (target : NodeId) (key : Key) : Option Nat × HintTable :=
  match t.get? target key with
  | none => (none, t)
  | some h => (some h.fail.attempts, t.save (keyOf target key) h.fail)

def settle (t : HintTable) (target : NodeId) (key : Key) (settled : List Version) :
    Bool × HintTable :=
  match t.get? target key with
  | none => (true, t)
  | some h =>
      match h.versions.filter (fun v => !Hint.settles settled v) with
      | [] => (true, ⟨t.engine.remove (keyOf target key)⟩)
      | rest => (false, t.save (keyOf target key) { h with versions := rest })

def targets (t : HintTable) : List NodeId :=
  (SortedMap.ofList (t.engine.table.keys.filterMap (fun k =>
    (parseKey? k).map (fun p => (p.1, ()))))).keys

def count (t : HintTable) : Nat := t.engine.table.size

end HintTable

end QuorumStore
