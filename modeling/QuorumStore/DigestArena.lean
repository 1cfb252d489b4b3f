import QuorumStore.DigestTree

namespace QuorumStore

structure DigestNode where
  hash : Hash
  bucket : Option Nat
  left : Option Nat
  right : Option Nat
  deriving DecidableEq

namespace DigestNode

def leaf (bucket : Nat) (es : List DigestEntry) : DigestNode :=
  ⟨DigestEntry.bucketHash es, some bucket, none, none⟩

def above (l r : Nat) (left right : DigestNode) : DigestNode :=
  ⟨DigestTree.joinHash left.hash right.hash, none, some l, some r⟩

def links (n : DigestNode) : Option Nat × Option Nat × Option Nat := (n.bucket, n.left, n.right)

end DigestNode

structure DigestArena where
  depth : Nat
  nodes : Array DigestNode
  root : Nat
  deriving DecidableEq

namespace DigestArena

def deposit (buckets : List (List DigestEntry)) (e : DigestEntry) : Option (List (List DigestEntry)) :=
  buckets[e.bucket]?.map (fun es => buckets.set e.bucket (es ++ [e]))

def pairUp : List Nat → Array DigestNode → Option (List Nat × Array DigestNode)
  | [], nodes => some ([], nodes)
  | [_], _ => none
  | l :: r :: rest, nodes => do
      let left ← nodes[l]?
      let right ← nodes[r]?
      let (level, grown) ← pairUp rest (nodes.push (.above l r left right))
      some (nodes.size :: level, grown)

theorem length_pairUp {level level' : List Nat} {nodes nodes' : Array DigestNode}
    (h : pairUp level nodes = some (level', nodes')) : level.length = 2 * level'.length := by
  fun_induction pairUp level nodes generalizing level' nodes' with
  | case1 => cases h; rfl
  | case2 => cases h
  | case3 l r rest nodes ih =>
    simp only [Option.bind_eq_bind, Option.bind_eq_some_iff, Option.some.injEq, Prod.exists,
      Prod.mk.injEq] at h
    obtain ⟨left, -, right, -, upper, grown, hupper, rfl, -⟩ := h
    rw [List.length_cons, List.length_cons, ih left right hupper, List.length_cons]
    omega

def raise (level : List Nat) (nodes : Array DigestNode) : Option (Nat × Array DigestNode) :=
  match level with
  | [] => none
  | [root] => some (root, nodes)
  | l :: r :: rest =>
      match h : pairUp (l :: r :: rest) nodes with
      | none => none
      | some (upper, grown) =>
          have : upper.length < rest.length + 1 + 1 := by
            have := length_pairUp h
            simp only [List.length_cons] at this
            omega
          raise upper grown
termination_by level.length

def ofEntries (depth : Nat) (entries : List (Key × Hash)) : Option DigestArena := do
  let buckets ← (entries.map (fun e => (⟨bucketOf e.1 depth, e.1, e.2⟩ : DigestEntry))).foldlM deposit
    (List.replicate (1 <<< depth) [])
  let (root, nodes) ← raise (List.range (1 <<< depth)) (buckets.mapIdx DigestNode.leaf).toArray
  some ⟨depth, nodes, root⟩

def rootHash? (a : DigestArena) : Option Hash := a.nodes[a.root]?.map DigestNode.hash

def descend (a b : DigestArena) : Nat → Nat → Option (List Nat)
  -- a way down with more steps than there are nodes never ends
  | 0, _ => none
  | steps + 1, i => do
      let mine ← a.nodes[i]?
      let theirs ← b.nodes[i]?
      if mine.hash = theirs.hash then some []
      else
        match mine.bucket with
        | some bucket => some [bucket]
        | none =>
            let left ← match mine.left with
              | none => some []
              | some l => descend a b steps l
            let right ← match mine.right with
              | none => some []
              | some r => descend a b steps r
            some (left ++ right)

def diff (a b : DigestArena) : Option (List Nat) :=
  if a.depth = b.depth then descend a b a.nodes.size a.root
  else some (List.range (max (1 <<< a.depth) (1 <<< b.depth)))

end DigestArena

end QuorumStore
