import QuorumStore.Log

namespace QuorumStore

structure Memtable where
  data : SortedMap Key (List Version)
  deriving DecidableEq

namespace Memtable

def empty : Memtable := ⟨∅⟩

instance : Inhabited Memtable := ⟨empty⟩

def get? (t : Memtable) (key : Key) : Option (List Version) := t.data.get? key

def remove (t : Memtable) (key : Key) : Memtable := ⟨t.data.erase key⟩

def replace (t : Memtable) (key : Key) (vs : List Version) : Memtable :=
  if vs.isEmpty then t.remove key else ⟨t.data.insert key vs⟩

def apply (t : Memtable) (r : Record) : Memtable := t.replace r.key r.versions

def ofRecords (rs : List Record) : Memtable := rs.foldl apply empty

def keys (t : Memtable) : List Key := t.data.keys

def keysWith (t : Memtable) (start : String) : List Key :=
  t.keys.filter (fun k => start.toList.isPrefixOf k.toList)

def size (t : Memtable) : Nat := t.data.size

def versionCount (t : Memtable) : Nat := t.data.values.flatten.length

@[simp, grind =] theorem get?_remove (t : Memtable) (key k : Key) :
    (t.remove key).get? k = if k = key then none else t.get? k :=
  SortedMap.get?_erase ..

@[simp, grind =] theorem get?_replace (t : Memtable) (key k : Key) (vs : List Version) :
    (t.replace key vs).get? k =
      if k = key then (if vs.isEmpty then none else some vs) else t.get? k := by
  unfold replace
  split
  · exact get?_remove ..
  · exact SortedMap.get?_insert ..

end Memtable

structure Engine where
  table : Memtable
  log : Option Bytes
  deriving DecidableEq

inductive EngineError where
  | log (error : LogError)
  deriving DecidableEq

def EngineError.message : EngineError → String
  | .log e => "WAL error: " ++ e.message

namespace Engine

def volatile : Engine := ⟨.empty, none⟩

instance : Inhabited Engine := ⟨volatile⟩

def open? (file : LogFile) : Except EngineError Engine :=
  match file.replay, file.open? with
  | .error e, _ => .error (.log e)
  | .ok _, .error e => .error (.log e)
  | .ok records, .ok log => .ok ⟨.ofRecords records, some log⟩

def isDurable (e : Engine) : Bool := e.log.isSome

def get? (e : Engine) (key : Key) : Option (List Version) := e.table.get? key

def write (e : Engine) (r : Record) : Engine :=
  ⟨e.table.apply r, e.log.map (· ++ Log.frame r)⟩

def replace (e : Engine) (key : Key) (vs : List Version) : Engine := e.write ⟨key, vs⟩

def remove (e : Engine) (key : Key) : Engine := e.write (.removal key)

def file (e : Engine) : LogFile :=
  match e.log with
  | none => .absent
  | some log => .content log

end Engine

end QuorumStore
