import QuorumStore.Token

namespace QuorumStore

structure Ring where
  perMember : Nat
  positions : SortedMap Token NodeId
  members : SortedMap NodeId Unit
  deriving DecidableEq

structure Shortage where
  needed : Nat
  available : Nat
  deriving DecidableEq, Repr

def Shortage.message (s : Shortage) : String :=
  "not enough nodes on the ring: need " ++ toString s.needed ++ ", have " ++ toString s.available

def firstOccurrences (l : List NodeId) : List NodeId :=
  l.foldl (fun out n => if n ∈ out then out else out ++ [n]) []

namespace Ring

def empty (perMember : Nat) : Ring := ⟨max perMember 1, ∅, ∅⟩

def contains (r : Ring) (n : NodeId) : Bool := r.members.contains n

def position (n : NodeId) (i : Nat) : Token := Token.ofText (n ++ "-" ++ toString i)

def claim (perMember : Nat) (n : NodeId) (m : SortedMap Token NodeId) : SortedMap Token NodeId :=
  (List.range perMember).foldl (fun m i => m.insert (position n i) n) m

def add (r : Ring) (n : NodeId) : Ring :=
  if r.contains n then r
  else { r with positions := claim r.perMember n r.positions, members := r.members.insert n () }

def remove (r : Ring) (n : NodeId) : Ring :=
  if r.contains n then
    { r with positions := r.positions.filter (fun _ owner => owner != n)
             members := r.members.erase n }
  else r

def ofNodes (perMember : Nat) (ns : List NodeId) : Ring := ns.foldl add (empty perMember)

def nodes (r : Ring) : List NodeId := r.members.keys

def turn (r : Ring) (t : Token) : List NodeId :=
  let after := r.positions.entries.filter (fun e => decide (t < e.1))
  let wrapped := r.positions.entries.filter (fun e => decide (e.1 ≤ t))
  (after ++ wrapped).map (·.2)

def preference (r : Ring) (key : Key) : List NodeId := firstOccurrences (r.turn (Token.ofText key))

def replicas (r : Ring) (key : Key) (n : Nat) : Except Shortage (List NodeId) :=
  let found := (r.preference key).take n
  if found.length < n then .error ⟨n, found.length⟩ else .ok found

theorem length_replicas {r : Ring} {key : Key} {n : Nat} {ns : List NodeId}
    (h : r.replicas key n = .ok ns) : ns.length = n := by
  simp only [replicas] at h
  split at h
  · cases h
  · cases h
    rename_i hn
    have := List.length_take_le n (r.preference key)
    omega

end Ring

end QuorumStore
