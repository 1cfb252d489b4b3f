import QuorumStore.Engine
import QuorumStore.Text.Quoted

namespace QuorumStore

structure Store where
  engine : Engine
  damaged : List Key
  deriving DecidableEq

inductive StoreError where
  | corrupt (key : Key)
  | engine (error : EngineError)
  deriving DecidableEq

def StoreError.message : StoreError → String
  | .corrupt key => "corrupt entry for key " ++ quoted key
  | .engine e => "storage error: " ++ e.message

structure MergeOutcome where
  versions : List Version
  changed : Bool
  deriving DecidableEq

namespace Store

def ofEngine (e : Engine) : Store := ⟨e, []⟩

def volatile : Store := ofEngine .volatile

instance : Inhabited Store := ⟨volatile⟩

def open? (file : LogFile) : Except StoreError Store :=
  match Engine.open? file with
  | .error e => .error (.engine e)
  | .ok e => .ok (ofEngine e)

def damage (s : Store) (key : Key) : Store :=
  if key ∈ s.damaged then s else { s with damaged := key :: s.damaged }

def mend (s : Store) (key : Key) : Store :=
  { s with damaged := s.damaged.filter (fun k => k != key) }

def held (s : Store) (key : Key) : List Version := (s.engine.get? key).getD []

def read (s : Store) (key : Key) : Except StoreError (Option (List Version)) :=
  if key ∈ s.damaged then .error (.corrupt key) else .ok (s.engine.get? key)

def replace (s : Store) (key : Key) (vs : List Version) : Except StoreError Store :=
  if key ∈ s.damaged then .error (.corrupt key)
  else .ok { s with engine := s.engine.replace key vs }

def merge (s : Store) (key : Key) (incoming : List Version) :
    Except StoreError (MergeOutcome × Store) :=
  if key ∈ s.damaged then .error (.corrupt key)
  else
    let versions := Version.reconcile (s.held key ++ incoming)
    if versions = s.held key then .ok (⟨versions, false⟩, s)
    else .ok (⟨versions, true⟩, { s with engine := s.engine.replace key versions })

def keys (s : Store) : List Key := s.engine.table.keys

def size (s : Store) : Nat := s.engine.table.size

end Store

end QuorumStore
