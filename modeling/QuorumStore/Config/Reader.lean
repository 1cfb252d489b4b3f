import QuorumStore.Config
import QuorumStore.Json.Reader
import QuorumStore.Yaml.Node

namespace QuorumStore

structure Format (δ : Type) where
  text? : δ → Option String
  word? : δ → Option String
  natBelow? : Nat → δ → Option Nat
  bool? : δ → Option Bool
  isNull : δ → Bool
  items? : δ → Option (List δ)
  members? : List String → δ → Option (List (Option δ))

namespace Json

def word? : Json → Option String
  | .object [(name, .null)] => QuorumStore.text? name
  | j => j.text?

def isNull : Json → Bool
  | .null => true
  | _ => false

def format : Format Json := ⟨text?, word?, natBelow?, bool?, isNull, items?, members?⟩

end Json

namespace Yaml.Node

def text? : Node → Option String
  | .scalar text _ => some text
  | _ => none

def plain? : Node → Option String
  | .scalar text true => some text
  | _ => none

def digitsIn (base : Nat) (digits : List Char) : Option Nat :=
  if digits.isEmpty then none
  else digits.foldlM (fun n c => do
    let d ← hexValue? c
    if d < base then some (base * n + d) else none) 0

def number? (s : List Char) : Option Nat :=
  match (match s with
    | '+' :: r => r
    | r => r) with
  | '0' :: 'x' :: r => digitsIn 16 r
  | '0' :: 'o' :: r => digitsIn 8 r
  | '0' :: 'b' :: r => digitsIn 2 r
  | ['0'] => some 0
  | '0' :: _ => none
  | r => digitsIn 10 r

def natBelow? (bound : Nat) (n : Node) : Option Nat := do
  let k ← number? (← n.plain?).toList
  if k < bound then some k else none

def bool? (n : Node) : Option Bool :=
  match n.plain? with
  | some "true" => some true
  | some "True" => some true
  | some "TRUE" => some true
  | some "false" => some false
  | some "False" => some false
  | some "FALSE" => some false
  | _ => none

def isEmpty (n : Node) : Bool := n.plain? = some ""

def isNull (n : Node) : Bool := n.plain?.any (fun s => ["", "~", "null", "Null", "NULL"].contains s)

def items? : Node → Option (List Node)
  | .sequence items => some items
  | n => if n.isEmpty then some [] else none

def members? (names : List String) : Node → Option (List (Option Node))
  | .mapping entries => do
      let named ← entries.mapM (fun e => e.1.text?.map (fun name => (name, e.2)))
      names.mapM (fun name => match named.filter (fun m => m.1 = name) with
        | [] => some none
        | [m] => some (some m.2)
        | _ => none)
  | n => if n.isEmpty then some (List.replicate names.length none) else none

def format : Format Node := ⟨text?, text?, natBelow?, bool?, isNull, items?, members?⟩

end Yaml.Node

namespace Format

variable {δ α : Type}

def optional (default : α) (read : δ → Option α) : Option δ → Option α
  | none => some default
  | some d => read d

def nat? (f : Format δ) : δ → Option Nat := f.natBelow? UInt64.size

def readRepair? (f : Format δ) (d : δ) : Option ReadRepair :=
  match f.word? d with
  | some "disabled" => some .disabled
  | some "background" => some .background
  | some "inline" => some .inline
  | _ => none

def policy? (f : Format δ) (d : δ) : Option ConflictPolicy :=
  match f.word? d with
  | some "siblings" => some .siblings
  | some "last_writer_wins" => some .lastWriterWins
  | _ => none

def maxAttempts? (f : Format δ) (d : δ) : Option (Option Nat) :=
  if f.isNull d then some none else (f.natBelow? UInt32.size d).map some

def ring? (f : Format δ) (d : δ) : Option RingConfig :=
  match f.members? ["virtual_nodes"] d with
  | some [virtualNodes] => do pure ⟨← optional 64 f.nat? virtualNodes⟩
  | _ => none

def quorum? (f : Format δ) (d : δ) : Option QuorumConfig :=
  let default : QuorumConfig := {}
  match f.members? ["n", "r", "w", "read_timeout_ms", "write_timeout_ms", "read_repair",
      "conflict_policy", "sloppy_quorum"] d with
  | some [n, r, w, readTimeout, writeTimeout, readRepair, policy, sloppy] => do
      pure
        { n := ← optional default.n f.nat? n
          r := ← optional default.r f.nat? r
          w := ← optional default.w f.nat? w
          readTimeout := ← optional default.readTimeout f.nat? readTimeout
          writeTimeout := ← optional default.writeTimeout f.nat? writeTimeout
          readRepair := ← optional default.readRepair f.readRepair? readRepair
          policy := ← optional default.policy f.policy? policy
          sloppy := ← optional default.sloppy f.bool? sloppy }
  | _ => none

def hints? (f : Format δ) (d : δ) : Option HintConfig :=
  let default : HintConfig := {}
  match f.members? ["enabled", "delivery_interval_secs", "max_hints_per_cycle", "max_attempts"] d with
  | some [enabled, interval, maxPerCycle, maxAttempts] => do
      pure
        { enabled := ← optional default.enabled f.bool? enabled
          interval := ← optional default.interval f.nat? interval
          maxPerCycle := ← optional default.maxPerCycle f.nat? maxPerCycle
          maxAttempts := ← optional default.maxAttempts f.maxAttempts? maxAttempts }
  | _ => none

def repair? (f : Format δ) (d : δ) : Option RepairConfig :=
  let default : RepairConfig := {}
  match f.members? ["anti_entropy_interval_secs", "digest_depth"] d with
  | some [interval, digestDepth] => do
      pure
        { interval := ← optional default.interval f.nat? interval
          digestDepth := ← optional default.digestDepth (f.natBelow? UInt8.size) digestDepth }
  | _ => none

def storage? (f : Format δ) (d : δ) : Option StorageConfig :=
  let default : StorageConfig := {}
  match f.members? ["data_dir", "fsync", "batch_sync_interval_ms", "durable"] d with
  | some [directory, sync, batchInterval, durable] => do
      pure
        { directory := ← optional default.directory f.text? directory
          sync := ← optional default.sync f.text? sync
          batchInterval := ← optional default.batchInterval f.nat? batchInterval
          durable := ← optional default.durable f.bool? durable }
  | _ => none

def config? (f : Format δ) (d : δ) : Option Config :=
  match f.members? ["node_id", "nodes", "ring", "kv", "hints", "repair", "storage"] d with
  | some [some nodeId, some nodes, ring, quorum, hints, repair, storage] => do
      pure
        { nodeId := ← f.text? nodeId
          nodes := ← (← f.items? nodes).mapM f.text?
          ring := ← optional {} f.ring? ring
          quorum := ← optional {} f.quorum? quorum
          hints := ← optional {} f.hints? hints
          repair := ← optional {} f.repair? repair
          storage := ← optional {} f.storage? storage }
  | _ => none

end Format

namespace Config

def ofJson? (j : Json) : Option Config := Json.format.config? j

def ofYaml (text : String) : Except ConfigError Config :=
  match (Yaml.Node.parse? text).bind Yaml.Node.format.config? with
  | none => .error .malformed
  | some c => (c.validate.mapError .invalid).map (fun _ => c)

def ofFile (content : Option Bytes) : Except ConfigError Config :=
  match content.bind text? with
  | none => .error .unreadable
  | some text => ofYaml text

end Config

end QuorumStore
