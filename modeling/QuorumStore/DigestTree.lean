import QuorumStore.Fingerprint
import QuorumStore.Token

namespace QuorumStore

inductive DigestTree where
  | leaf (hash : Hash)
  | node (hash : Hash) (left right : DigestTree)
  deriving DecidableEq

structure DigestEntry where
  bucket : Nat
  key : Key
  hash : Hash
  deriving DecidableEq

namespace DigestEntry

def message (e : DigestEntry) : Bytes := utf8 e.key ++ 0 :: e.hash.bytes

def bucketMessage (es : List DigestEntry) : Bytes :=
  (sortBy (fun a b => decide (a.key ≤ b.key)) es).flatMap message

def bucketHash (es : List DigestEntry) : Hash :=
  if es.isEmpty then Hash.zero else Sha1.hash (bucketMessage es)

end DigestEntry

namespace DigestTree

def hash : DigestTree → Hash
  | .leaf h => h
  | .node h _ _ => h

def joinHash (l r : Hash) : Hash :=
  if l = Hash.zero ∧ r = Hash.zero then Hash.zero else Sha1.hash (l.bytes ++ r.bytes)

def join (l r : DigestTree) : DigestTree := .node (joinHash l.hash r.hash) l r

def build : Nat → List DigestEntry → DigestTree
  | 0, es => .leaf (DigestEntry.bucketHash es)
  | depth + 1, es =>
      join (build depth (es.filter (fun e => !e.bucket.testBit depth)))
        (build depth (es.filter (fun e => e.bucket.testBit depth)))

def leaves : DigestTree → List Hash
  | .leaf h => [h]
  | .node _ l r => l.leaves ++ r.leaves

def diff (place : Nat) : DigestTree → DigestTree → List Nat
  | .leaf h, .leaf h' => if h = h' then [] else [place]
  | .node h l r, .node h' l' r' =>
      if h = h' then [] else diff (2 * place) l l' ++ diff (2 * place + 1) r r'
  | _, _ => []

end DigestTree

structure Digest where
  depth : Nat
  tree : DigestTree
  deriving DecidableEq

namespace Digest

def maxDepth : Nat := 16

def ofEntries (depth : Nat) (entries : List (Key × Hash)) : Digest :=
  ⟨depth, DigestTree.build depth (entries.map (fun e => ⟨bucketOf e.1 depth, e.1, e.2⟩))⟩

def root (d : Digest) : Hash := d.tree.hash

def buckets (d : Digest) : Nat := 1 <<< d.depth

def diff (d d' : Digest) : List Nat :=
  if d.depth = d'.depth then DigestTree.diff 0 d.tree d'.tree
  else List.range (max d.buckets d'.buckets)

end Digest

end QuorumStore
