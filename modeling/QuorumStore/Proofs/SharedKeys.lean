import Mathlib.Data.List.Nodup
import QuorumStore.Proofs.DigestDiff
import QuorumStore.Proofs.Survival

namespace QuorumStore

theorem Placement.shared_comm (p : Placement) (a b : NodeId) (key : Key) :
    p.shared a b key = p.shared b a key :=
  Bool.and_comm ..

theorem SortedMap.get?_ofList_eq_some_iff {α : Type} {l : List (Key × α)}
    (h : (l.map Prod.fst).Nodup) {key : Key} {a : α} :
    (ofList l).get? key = some a ↔ (key, a) ∈ l := by
  rw [get?_ofList]
  constructor
  · intro hlast
    obtain ⟨e, he, rfl⟩ := Option.map_eq_some_iff.mp hlast
    obtain rfl : key = e.1 := by simpa using List.find?_some he
    exact List.mem_reverse.mp (List.mem_of_find?_eq_some he)
  · intro hmem
    cases hlast : l.reverse.find? (fun e => decide (key = e.1)) with
    | none =>
      have hne := List.find?_eq_none.mp hlast _ (List.mem_reverse.mpr hmem)
      simp at hne
    | some e =>
      have hkey : key = e.1 := by simpa using List.find?_some hlast
      have he := List.mem_reverse.mp (List.mem_of_find?_eq_some hlast)
      rw [List.inj_on_of_nodup_map h he hmem hkey.symm]
      rfl

namespace Replica

variable {r r' : Replica} {p : Placement} {self peer : NodeId} {depth : Nat} {pass pass' : Key → Bool}

def fingerprint? (r : Replica) (pass : Key → Bool) (key : Key) : Option Hash :=
  if pass key then (r.store.engine.get? key).map Version.setFingerprint else none

def listing (r : Replica) (pass : Key → Bool) : List (Key × Hash) :=
  r.store.keys.filterMap (fun key => (r.fingerprint? pass key).map (key, ·))

def Legible (r : Replica) (pass : Key → Bool) : Prop :=
  ∀ key ∈ r.store.keys, pass key = true → key ∉ r.store.damaged

theorem entries_eq_ok_iff {keys : List Key} {listed : List (Key × Hash)} :
    r.entries pass keys = .ok listed ↔
      (∀ key ∈ keys, pass key = true → key ∉ r.store.damaged) ∧
      listed = keys.filterMap (fun key => (r.fingerprint? pass key).map (key, ·)) := by
  induction keys generalizing listed with
  | nil =>
    simp only [entries, Except.ok.injEq, List.filterMap_nil]
    exact ⟨fun h => ⟨fun _ hmem => absurd hmem List.not_mem_nil, h.symm⟩, fun h => h.2.symm⟩
  | cons key keys ih =>
    by_cases hpass : pass key = true
    · by_cases hdamaged : key ∈ r.store.damaged
      · simp [entries, Store.read, hpass, hdamaged]
      · cases hget : r.store.engine.get? key with
        | none => simp [entries, Store.read, fingerprint?, hpass, hdamaged, hget, ih]
        | some vs =>
          have hprint : r.fingerprint? pass key = some (Version.setFingerprint vs) := by
            simp [fingerprint?, hpass, hget]
          simp only [entries, Store.read, hpass, hdamaged, hget, if_true, if_false, List.forall_mem_cons,
            forall_const, not_false_eq_true, true_and, List.filterMap_cons, hprint, Option.map_some]
          cases hrest : r.entries pass keys with
          | error e =>
            have hbad := mt (fun h => ih.mpr ⟨h, rfl⟩) (by simp [hrest])
            simp [Except.map, hbad]
          | ok rest =>
            obtain ⟨hintact, rfl⟩ := ih.mp hrest
            simp only [Except.map, Except.ok.injEq]
            exact ⟨fun h => ⟨hintact, h.symm⟩, fun h => h.2.symm⟩
    · simp [entries, fingerprint?, hpass, ih]

theorem mem_listing {key : Key} {hash : Hash} :
    (key, hash) ∈ r.listing pass ↔ r.fingerprint? pass key = some hash := by
  simp only [listing, List.mem_filterMap, Option.map_eq_some_iff, Prod.mk.injEq]
  constructor
  · rintro ⟨k, -, hash', hk, rfl, rfl⟩
    exact hk
  · intro h
    refine ⟨key, ?_, hash, h, rfl, rfl⟩
    simp only [fingerprint?] at h
    split at h
    · obtain ⟨vs, hvs, -⟩ := Option.map_eq_some_iff.mp h
      apply SortedMap.mem_keys_iff.mpr
      simp [show r.store.engine.table.data.get? key = some vs from hvs]
    · cases h

theorem ascending_listing (r : Replica) (pass : Key → Bool) :
    (r.listing pass).Pairwise (fun e e' => e.1 < e'.1) := by
  apply List.Pairwise.filterMap _ _ (List.pairwise_map.mpr r.store.engine.table.data.ascending)
  intro key key' hlt e he e' he'
  obtain ⟨hash, -, rfl⟩ := Option.map_eq_some_iff.mp he
  obtain ⟨hash', -, rfl⟩ := Option.map_eq_some_iff.mp he'
  exact hlt

theorem nodup_listing (r : Replica) (pass : Key → Bool) : ((r.listing pass).map Prod.fst).Nodup := by
  apply List.pairwise_map.mpr
  apply (r.ascending_listing pass).imp
  intro e e' hlt heq
  exact Std.lt_irrefl (heq ▸ hlt)

theorem listing_congr (h : ∀ key, r.fingerprint? pass key = r'.fingerprint? pass' key) :
    r.listing pass = r'.listing pass' := by
  apply Entries.ext_find (r.ascending_listing pass) (r'.ascending_listing pass')
  intro key
  apply Option.ext
  intro hash
  rw [Entries.find_eq_some_iff (r.ascending_listing pass),
    Entries.find_eq_some_iff (r'.ascending_listing pass'), mem_listing, mem_listing, h]

def digestEntries (r : Replica) (p : Placement) (self peer : NodeId) (depth : Nat) : List DigestEntry :=
  (r.listing (p.shared self peer)).map (fun e => ⟨bucketOf e.1 depth, e.1, e.2⟩)

theorem mem_digestEntries {e : DigestEntry} :
    e ∈ r.digestEntries p self peer depth ↔
      e.bucket = bucketOf e.key depth ∧ r.fingerprint? (p.shared self peer) e.key = some e.hash := by
  simp only [digestEntries, List.mem_map, ← mem_listing]
  constructor
  · rintro ⟨l, hl, rfl⟩
    exact ⟨rfl, hl⟩
  · rintro ⟨hbucket, hl⟩
    refine ⟨_, hl, ?_⟩
    rw [← hbucket]

theorem digest_eq_ok_iff {d : Digest} :
    r.digest p self peer depth = .ok d ↔
      r.Legible (p.shared self peer) ∧
      d = ⟨min depth Digest.maxDepth, .build (min depth Digest.maxDepth)
        (r.digestEntries p self peer (min depth Digest.maxDepth))⟩ := by
  rw [digest]
  cases hentries : r.entries (p.shared self peer) r.store.keys with
  | error e =>
    have hbad : ¬ r.Legible (p.shared self peer) := by
      intro h
      have hok := entries_eq_ok_iff.mpr ⟨h, rfl⟩
      rw [hentries] at hok
      cases hok
    simp [Except.map, hbad]
  | ok listed =>
    obtain ⟨hlegible, rfl⟩ := entries_eq_ok_iff.mp hentries
    simp only [Except.map, Except.ok.injEq]
    constructor
    · rintro rfl
      exact ⟨hlegible, rfl⟩
    · rintro ⟨-, rfl⟩
      rfl

theorem digest_of_legible (h : r.Legible (p.shared self peer)) (depth : Nat) :
    r.digest p self peer depth = .ok ⟨min depth Digest.maxDepth, .build (min depth Digest.maxDepth)
      (r.digestEntries p self peer (min depth Digest.maxDepth))⟩ :=
  digest_eq_ok_iff.mpr ⟨h, rfl⟩

theorem get?_of_bucketKeys {buckets : List Nat} {keys : SortedMap Key Hash}
    (h : r.bucketKeys p self peer depth buckets = .ok keys) (key : Key) :
    keys.get? key =
      if bucketOf key (min depth Digest.maxDepth) ∈ buckets then
        r.fingerprint? (p.shared self peer) key
      else none := by
  rw [bucketKeys] at h
  generalize hpass : (fun key => decide (bucketOf key (min depth Digest.maxDepth) ∈ buckets) &&
    p.shared self peer key) = pass at h
  cases hentries : r.entries pass r.store.keys with
  | error e =>
    rw [hentries] at h
    cases h
  | ok listed =>
    rw [hentries] at h
    cases h
    obtain ⟨-, rfl⟩ := entries_eq_ok_iff.mp hentries
    apply Option.ext
    intro hash
    refine (SortedMap.get?_ofList_eq_some_iff (r.nodup_listing pass)).trans (mem_listing.trans ?_)
    subst hpass
    by_cases hbucket : bucketOf key (min depth Digest.maxDepth) ∈ buckets <;>
      simp [fingerprint?, hbucket]

end Replica

end QuorumStore
