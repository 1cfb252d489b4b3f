import QuorumStore.Version

namespace QuorumStore

inductive ConflictPolicy where
  | siblings
  | lastWriterWins
  deriving DecidableEq, Repr, Inhabited

inductive Read where
  | value (version : Version)
  | conflict (siblings : List Version) (context : VersionVector)
  deriving DecidableEq

namespace Read

def context : Read → VersionVector
  | .value v => v.vector
  | .conflict _ c => c

def payload : Read → Option Bytes
  | .value v => some v.value
  | .conflict _ _ => none

def isConflict : Read → Bool
  | .value _ => false
  | .conflict _ _ => true

def versions : Read → List Version
  | .value v => [v]
  | .conflict s _ => s

end Read

structure Resolution where
  read : Option Read
  canonical : List Version
  deriving DecidableEq

namespace Version

def compareAge (v w : Version) : Ordering :=
  (Ord.compare v.timestamp w.timestamp).then (v.vector.compareCanonical w.vector)

def latest? : List Version → Option Version
  | [] => none
  | v :: vs => some (vs.foldl (fun best w => if best.compareAge w = .gt then best else w) v)

def lastWriter? (vs : List Version) : Option Version :=
  (latest? vs).map (fun v => { v with vector := mergedVector vs })

def readSiblings (vs : List Version) : Option Read :=
  match vs.filter (fun v => !v.tombstone) with
  | [] => none
  | [v] => some (.value { v with vector := mergedVector vs })
  | live => some (.conflict live (mergedVector vs))

def resolve (policy : ConflictPolicy) (vs : List Version) : Resolution :=
  match policy with
  | .siblings => ⟨readSiblings vs, vs⟩
  | .lastWriterWins =>
      if vs.length ≤ 1 then ⟨readSiblings vs, vs⟩
      else match lastWriter? vs with
        | none => ⟨none, []⟩
        | some w => ⟨if w.tombstone then none else some (.value w), [w]⟩

def differs (held canonical : List Version) : Bool :=
  held.length != canonical.length ||
    canonical.any (fun c => !held.any (fun h => decide (h.vector = c.vector)))

end Version

end QuorumStore
