import QuorumStore.Proofs.Survival

namespace QuorumStore

def Request.brings (key : Key) : Request → List Version
  | .put k v => if k = key then [v] else []
  | .repairPush k vs => if k = key then vs else []
  | .handoff k vs => if k = key then vs else []
  | _ => []

namespace Version

variable {vs received stored received' stored' : List Version} {v w : Version}

def maximal (vs : List Version) : List Version :=
  vs.filter (fun v => vs.all (fun w => decide (w.vector.compare v.vector ≠ .dominates)))

theorem mem_maximal_iff :
    v ∈ maximal vs ↔ v ∈ vs ∧ ∀ w ∈ vs, w.vector.compare v.vector ≠ .dominates := by
  simp [maximal]

def SameVectors (vs ws : List Version) : Prop :=
  (∀ v ∈ vs, ∃ w ∈ ws, v.vector.compare w.vector = .equal) ∧
    ∀ w ∈ ws, ∃ v ∈ vs, v.vector.compare w.vector = .equal

structure Summary (received stored : List Version) : Prop where
  among : ∀ v ∈ stored, v ∈ received
  apart : stored.Pairwise Concurrent
  covers : ∀ v ∈ received, Covered stored v.vector

theorem nodup_of_pairwise_concurrent (h : vs.Pairwise Concurrent) : vs.Nodup := by
  refine h.imp fun {v w} hvw heq => ?_
  subst heq
  exact hvw.1 v.vector.le_refl

theorem eq_of_compare_equal (h : vs.Pairwise Concurrent) (hv : v ∈ vs) (hw : w ∈ vs)
    (heq : v.vector.compare w.vector = .equal) : v = w := by
  by_contra hne
  exact (h.forall hv hw hne).1 (VersionVector.compare_eq_equal_iff.mp heq).2

theorem perm_of_covered (hvs : vs.Pairwise Concurrent) (hws : ws.Pairwise Concurrent)
    (hcovered : ∀ u, Covered vs u ↔ Covered ws u)
    (hident : ∀ v ∈ vs, ∀ w ∈ ws, v.vector.compare w.vector = .equal → v = w) : vs.Perm ws := by
  have hequal : ∀ {vs ws : List Version}, vs.Pairwise Concurrent → (∀ u, Covered vs u ↔ Covered ws u) →
      ∀ v ∈ vs, ∃ w ∈ ws, v.vector.compare w.vector = .equal := by
    intro vs ws hvs hcovered v hv
    obtain ⟨w, hw, hvw⟩ := (hcovered v.vector).mp ⟨v, hv, v.vector.le_refl⟩
    obtain ⟨k, hk, hwk⟩ := (hcovered w.vector).mpr ⟨w, hw, w.vector.le_refl⟩
    obtain rfl : v = k := by
      by_contra hne
      exact (hvs.forall hv hk hne).1 (VersionVector.le_trans hvw hwk)
    exact ⟨w, hw, VersionVector.compare_eq_equal_iff.mpr ⟨hwk, hvw⟩⟩
  refine (List.perm_ext_iff_of_nodup (nodup_of_pairwise_concurrent hvs)
    (nodup_of_pairwise_concurrent hws)).mpr fun v => ⟨fun hv => ?_, fun hv => ?_⟩
  · obtain ⟨w, hw, heq⟩ := hequal hvs hcovered v hv
    exact hident v hv w hw heq ▸ hw
  · obtain ⟨w, hw, heq⟩ := hequal hws (fun u => (hcovered u).symm) v hv
    obtain ⟨hwv, hvw⟩ := VersionVector.compare_eq_equal_iff.mp heq
    exact hident w hw v hv (VersionVector.compare_eq_equal_iff.mpr ⟨hvw, hwv⟩) ▸ hw

namespace Summary

theorem nil : Summary [] [] :=
  ⟨fun _ h => h, .nil, fun _ h => absurd h List.not_mem_nil⟩

theorem reconcile (h : Summary received stored) (vs : List Version) :
    Summary (received ++ vs) (reconcile (stored ++ vs)) := by
  refine ⟨fun v hv => ?_, pairwise_reconcile _, fun v hv => covered_reconcile.mpr ?_⟩
  · exact (List.mem_append.mp (mem_of_mem_reconcile hv)).elim
      (fun hv => List.mem_append_left _ (h.among v hv)) (List.mem_append_right _)
  · rcases List.mem_append.mp hv with hv | hv
    · simp [h.covers v hv]
    · exact covered_append.mpr (.inr ⟨v, hv, v.vector.le_refl⟩)

theorem mem_maximal (h : Summary received stored) (hv : v ∈ stored) : v ∈ maximal received :=
  mem_maximal_iff.mpr ⟨h.among v hv, fun w hw => not_dominates_of_covered h.apart (h.covers w hw) hv⟩

theorem exists_equal (h : Summary received stored) (hv : v ∈ maximal received) :
    ∃ k ∈ stored, k.vector.compare v.vector = .equal := by
  obtain ⟨hmem, hmax⟩ := mem_maximal_iff.mp hv
  obtain ⟨k, hk, hvk⟩ := h.covers v hmem
  refine ⟨k, hk, VersionVector.compare_eq_equal_iff.mpr ⟨hvk, ?_⟩⟩
  by_contra hkv
  exact hmax k (h.among k hk) (VersionVector.compare_eq_dominates_iff.mpr ⟨hvk, hkv⟩)

theorem sameVectors_maximal (h : Summary received stored) :
    SameVectors stored (maximal received) :=
  ⟨fun v hv => ⟨v, h.mem_maximal hv, v.vector.compare_self⟩, fun _ hv => h.exists_equal hv⟩

theorem of_same (h : Summary received stored) (hsame : ∀ v, v ∈ received ↔ v ∈ received') :
    Summary received' stored :=
  ⟨fun v hv => (hsame v).mp (h.among v hv), h.apart, fun v hv => h.covers v ((hsame v).mpr hv)⟩

theorem sameVectors (h : Summary received stored) (h' : Summary received stored') :
    SameVectors stored stored' := by
  refine ⟨fun v hv => ?_, fun v hv => h.exists_equal (h'.mem_maximal hv)⟩
  obtain ⟨k, hk, heq⟩ := h'.exists_equal (h.mem_maximal hv)
  exact ⟨k, hk, VersionVector.compare_eq_equal_iff.mpr
    (VersionVector.compare_eq_equal_iff.mp heq).symm⟩

theorem mem_iff (h : Summary received stored)
    (hident : ∀ v ∈ received, ∀ w ∈ received, v.vector.compare w.vector = .equal → v = w) :
    v ∈ stored ↔ v ∈ maximal received := by
  refine ⟨h.mem_maximal, fun hv => ?_⟩
  obtain ⟨k, hk, heq⟩ := h.exists_equal hv
  exact hident k (h.among k hk) v (mem_maximal_iff.mp hv).1 heq ▸ hk

end Summary

end Version

namespace Replica

variable {p : Placement} {self : NodeId} {r : Replica} {key : Key} {received : List Version}

def serve (p : Placement) (self : NodeId) (r : Replica) (requests : List (UInt64 × Request)) : Replica :=
  requests.foldl (fun r q => (r.handle p self q.1 q.2).2) r

def brought (key : Key) (requests : List (UInt64 × Request)) : List Version :=
  requests.flatMap (fun q => q.2.brings key)

theorem held_merge (hkey : key ∉ r.store.damaged) (k : Key) (vs : List Version) :
    (r.merge k vs).2.store.held key =
      if k = key then Version.reconcile (r.store.held key ++ vs) else r.store.held key := by
  unfold merge
  cases hm : r.store.merge k vs with
  | error e =>
    unfold Store.merge at hm
    split at hm
    · rename_i hdamaged
      have hne : k ≠ key := fun h => hkey (h ▸ hdamaged)
      rw [if_neg hne]
    · dsimp only at hm
      split at hm <;> cases hm
  | ok result =>
    dsimp only
    rw [(Store.held_merge hm key).1]
    grind

theorem summary_merge (hkey : key ∉ r.store.damaged) (h : Version.Summary received (r.store.held key))
    (k : Key) (vs : List Version) :
    Version.Summary (received ++ if k = key then vs else []) ((r.merge k vs).2.store.held key) := by
  rw [held_merge hkey]
  split
  · exact h.reconcile vs
  · rwa [List.append_nil]

theorem summary_handle (hkey : key ∉ r.store.damaged)
    (h : Version.Summary received (r.store.held key)) (now : UInt64) (request : Request) :
    Version.Summary (received ++ request.brings key)
      ((r.handle p self now request).2.store.held key) := by
  have hnothing : Version.Summary (received ++ []) (r.store.held key) := by
    rwa [List.append_nil]
  cases request with
  | put k v => exact summary_merge hkey h k [v]
  | repairPush k vs => exact summary_merge hkey h k vs
  | handoff k vs => exact summary_merge hkey h k vs
  | get k => exact hnothing
  | putHinted target k v => exact hnothing
  | digest peer depth => exact hnothing
  | bucketKeys peer depth buckets => exact hnothing

theorem summary_serve (requests : List (UInt64 × Request)) (hkey : key ∉ r.store.damaged)
    (h : Version.Summary received (r.store.held key)) :
    Version.Summary (received ++ Replica.brought key requests)
      ((r.serve p self requests).store.held key) := by
  induction requests generalizing r received with
  | nil => rwa [Replica.brought, List.flatMap_nil, List.append_nil]
  | cons q requests ih =>
    rw [Replica.brought, List.flatMap_cons, ← List.append_assoc]
    refine ih ?_ (summary_handle hkey h q.1 q.2)
    rwa [(handle_change q.2).damaged]

def Populated (r : Replica) : Prop := ∀ key, r.store.engine.get? key ≠ some []

theorem Change.populated {r' : Replica} {request : Request} (h : Change r request r')
    (hr : r.Populated) : r'.Populated := by
  cases h with
  | none => exact hr
  | hint => exact hr
  | @merge _ k vs outcome store hm =>
    unfold Store.merge at hm
    split at hm
    · cases hm
    · dsimp only at hm
      split at hm <;> cases hm
      · exact hr
      · intro key
        have hkey := hr key
        grind

theorem populated_serve (requests : List (UInt64 × Request)) (hr : r.Populated) :
    (r.serve p self requests).Populated := by
  induction requests generalizing r with
  | nil => exact hr
  | cons q requests ih => exact ih ((handle_change q.2).populated hr)

end Replica

structure Store.Fresh (s : Store) : Prop where
  empty : s.engine.table = .empty
  intact : s.damaged = []

namespace Store.Fresh

variable {s : Store}

theorem get? (h : s.Fresh) (key : Key) : s.engine.get? key = none := by
  rw [Engine.get?, h.empty]
  rfl

theorem held (h : s.Fresh) (key : Key) : s.held key = [] := by
  rw [Store.held, h.get?]
  rfl

end Store.Fresh

theorem Replica.summary_of_fresh {r : Replica} (h : r.store.Fresh) (p : Placement) (self : NodeId)
    (key : Key) (requests : List (UInt64 × Request)) :
    Version.Summary (brought key requests) ((r.serve p self requests).store.held key) := by
  have hstart : Version.Summary [] (r.store.held key) := by
    rw [h.held]
    exact .nil
  refine summary_serve requests ?_ hstart
  rw [h.intact]
  exact List.not_mem_nil

theorem replicas_converge {r r' : Replica} (hr : r.store.Fresh) (hr' : r'.store.Fresh)
    (p p' : Placement) (self self' : NodeId) {key : Key} {requests requests' : List (UInt64 × Request)}
    (hsame : ∀ v, v ∈ Replica.brought key requests ↔ v ∈ Replica.brought key requests') :
    let sent := Replica.brought key requests
    let held := (r.serve p self requests).store.held key
    let held' := (r'.serve p' self' requests').store.held key
    Version.SameVectors held held' ∧
      Version.SameVectors held (Version.maximal sent) ∧
      (∀ v ∈ held, v ∈ Version.maximal sent) ∧
      ((∀ v ∈ sent, ∀ w ∈ sent, v.vector.compare w.vector = .equal → v = w) →
        held.Perm held' ∧ ∀ v, v ∈ held ↔ v ∈ Version.maximal sent) ∧
      ∀ k, (∀ vs, (r.serve p self requests).store.engine.get? k = some vs →
          vs ≠ [] ∧ vs.Pairwise fun v w => v.vector.compare w.vector = .concurrent) ∧
        ∀ v ∈ Replica.brought k requests, ∃ w ∈ (r.serve p self requests).store.held k,
          v.vector.compare w.vector = .equal ∨ v.vector.compare w.vector = .dominatedBy := by
  intro sent held held'
  have h : Version.Summary sent held := Replica.summary_of_fresh hr p self key requests
  have h' : Version.Summary sent held' :=
    (Replica.summary_of_fresh hr' p' self' key requests').of_same fun v => (hsame v).symm
  refine ⟨h.sameVectors h', h.sameVectors_maximal, fun v hv => h.mem_maximal hv, fun hident => ?_,
    fun k => ?_⟩
  · refine ⟨?_, fun v => h.mem_iff hident⟩
    refine (List.perm_ext_iff_of_nodup (Version.nodup_of_pairwise_concurrent h.apart)
      (Version.nodup_of_pairwise_concurrent h'.apart)).mpr fun v => ?_
    rw [h.mem_iff hident, h'.mem_iff hident]
  · have hk := Replica.summary_of_fresh hr p self k requests
    have hpopulated : (r.serve p self requests).Populated :=
      Replica.populated_serve requests fun key hkey => Option.some_ne_none [] (hkey.symm.trans (hr.get? key))
    constructor
    · intro vs hvs
      have hheld : (r.serve p self requests).store.held k = vs := congrArg (Option.getD · []) hvs
      refine ⟨fun hnil => hpopulated k (hnil ▸ hvs), ?_⟩
      rw [← hheld]
      exact hk.apart.imp fun hvw => VersionVector.compare_eq_concurrent_iff.mpr hvw
    · intro v hv
      obtain ⟨w, hw, hvw⟩ := hk.covers v hv
      refine ⟨w, hw, ?_⟩
      by_cases hwv : w.vector ≤ v.vector
      · exact .inl (VersionVector.compare_eq_equal_iff.mpr ⟨hwv, hvw⟩)
      · exact .inr (VersionVector.compare_eq_dominatedBy_iff.mpr ⟨hvw, hwv⟩)

namespace Reordered

def placement : Placement := ⟨Ring.ofNodes 1 ["A", "B"], 2⟩

def older : Version := .live [1] (.ofEntries [("A", 1)]) 10

def newer : Version := .live [2] (.ofEntries [("A", 2)]) 20

def removal : Version := .deletion (.ofEntries [("B", 1)]) 30

def oneByOne : List (UInt64 × Request) := [(1, .put "k" older), (2, .repairPush "k" [removal, newer])]

def together : List (UInt64 × Request) :=
  [(1, .handoff "k" [newer, removal, newer]), (2, .get "k"), (3, .put "k" older)]

def durable : Replica := ⟨.ofEngine ⟨.empty, some []⟩, .volatile⟩

theorem siblings_converge :
    (∀ v, v ∈ Replica.brought "k" oneByOne ↔ v ∈ Replica.brought "k" together) ∧
    ((Replica.volatile.serve placement "A" oneByOne).store.held "k").Perm
      ((durable.serve placement "B" together).store.held "k") ∧
    (durable.serve placement "B" together).store.held "k" = [newer, removal] := by
  have hsame : ∀ v, v ∈ Replica.brought "k" oneByOne ↔ v ∈ Replica.brought "k" together := by
    intro v
    simp only [Replica.brought, oneByOne, together, Request.brings, if_true, List.flatMap_cons,
      List.flatMap_nil, List.append_nil, List.nil_append, List.cons_append, List.mem_cons,
      List.not_mem_nil, or_false]
    grind
  have hident : ∀ v ∈ Replica.brought "k" oneByOne, ∀ w ∈ Replica.brought "k" oneByOne,
      v.vector.compare w.vector = .equal → v = w := by decide +kernel
  refine ⟨hsame, ?_, by decide +kernel⟩
  exact ((replicas_converge ⟨rfl, rfl⟩ ⟨rfl, rfl⟩ placement placement "A" "B" hsame).2.2.2.1 hident).1

end Reordered

end QuorumStore
