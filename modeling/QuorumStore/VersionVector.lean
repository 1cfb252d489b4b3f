import QuorumStore.SortedMap

namespace QuorumStore

abbrev NodeId := String

structure VersionVector where
  counters : SortedMap NodeId UInt64
  deriving DecidableEq

inductive Causality where
  | equal
  | dominates
  | dominatedBy
  | concurrent
  deriving DecidableEq, Repr

namespace VersionVector

protected def empty : VersionVector := ⟨∅⟩

instance : EmptyCollection VersionVector := ⟨VersionVector.empty⟩

instance : Inhabited VersionVector := ⟨∅⟩

def get (v : VersionVector) (n : NodeId) : UInt64 := (v.counters.get? n).getD 0

def entries (v : VersionVector) : List (NodeId × UInt64) := v.counters.entries

def describe (v : VersionVector) : String :=
  "VersionVector \x7b entries: \x7b" ++
    ", ".intercalate (v.entries.map (fun e => "NodeId(" ++ e.1 ++ "): " ++ toString e.2.toNat)) ++
    "\x7d \x7d"

def ofEntries (l : List (NodeId × UInt64)) : VersionVector :=
  ⟨SortedMap.ofList (l.filter (fun e => e.2 != 0))⟩

def increment? (v : VersionVector) (n : NodeId) : Option VersionVector :=
  if v.get n = UInt64.ofNat (UInt64.size - 1) then none
  else some ⟨v.counters.insert n (v.get n + 1)⟩

def merge (v w : VersionVector) : VersionVector := ⟨SortedMap.unionWith max v.counters w.counters⟩

instance : LE VersionVector := ⟨fun v w => ∀ n, v.get n ≤ w.get n⟩

theorem le_iff_entries {v w : VersionVector} : v ≤ w ↔ ∀ e ∈ v.entries, e.2 ≤ w.get e.1 := by
  constructor
  · intro h e he
    have := h e.1
    rwa [get, SortedMap.mem_entries_iff.mp he, Option.getD_some] at this
  · intro h n
    cases hn : v.counters.get? n with
    | none =>
        rw [get, hn, Option.getD_none]
        exact UInt64.le_iff_toNat_le.mpr (Nat.zero_le _)
    | some c =>
        rw [get, hn, Option.getD_some]
        exact h (n, c) (SortedMap.mem_entries_iff.mpr hn)

instance (v w : VersionVector) : Decidable (v ≤ w) := decidable_of_iff _ le_iff_entries.symm

def compare (v w : VersionVector) : Causality :=
  let above := v.entries.all (fun e => decide (w.get e.1 ≤ e.2)) &&
    w.entries.all (fun e => v.counters.contains e.1 || e.2 == 0)
  let below := v.entries.all (fun e => decide (e.2 ≤ w.get e.1))
  match above, below with
  | true, true => .equal
  | true, false => .dominates
  | false, true => .dominatedBy
  | false, false => .concurrent

theorem get_of_mem_entries {v : VersionVector} {e : NodeId × UInt64} (he : e ∈ v.entries) :
    v.get e.1 = e.2 := by
  rw [get, SortedMap.mem_entries_iff.mp he, Option.getD_some]

theorem get_eq_zero {v : VersionVector} {n : NodeId} (h : v.counters.contains n = false) :
    v.get n = 0 := by
  rw [get, Option.isNone_iff_eq_none.mp (Option.isSome_eq_false_iff.mp h), Option.getD_none]

theorem le_iff_entries_above {v w : VersionVector} :
    w ≤ v ↔ (∀ e ∈ v.entries, w.get e.1 ≤ e.2) ∧
      ∀ e ∈ w.entries, v.counters.contains e.1 = true ∨ e.2 = 0 := by
  constructor
  · intro h
    refine ⟨fun e he => ?_, fun e he => ?_⟩
    · rw [← get_of_mem_entries he]
      exact h e.1
    · cases hv : v.counters.contains e.1 with
      | true => exact Or.inl rfl
      | false =>
          have hle := h e.1
          rw [get_of_mem_entries he, get_eq_zero hv] at hle
          exact Or.inr (UInt64.le_antisymm hle (UInt64.le_iff_toNat_le.mpr (Nat.zero_le _)))
  · rintro ⟨hboth, hmissing⟩
    refine le_iff_entries.mpr fun e he => ?_
    rcases hmissing e he with hv | hzero
    · obtain ⟨c, hc⟩ := Option.isSome_iff_exists.mp hv
      have hle := hboth (e.1, c) (SortedMap.mem_entries_iff.mpr hc)
      rwa [get_of_mem_entries he, ← get_of_mem_entries (SortedMap.mem_entries_iff.mpr hc)] at hle
    · rw [hzero]
      exact UInt64.le_iff_toNat_le.mpr (Nat.zero_le _)

theorem compare_eq (v w : VersionVector) : v.compare w =
    match decide (w ≤ v), decide (v ≤ w) with
    | true, true => .equal
    | true, false => .dominates
    | false, true => .dominatedBy
    | false, false => .concurrent := by
  have habove : (v.entries.all (fun e => decide (w.get e.1 ≤ e.2)) &&
      w.entries.all (fun e => v.counters.contains e.1 || e.2 == 0)) = decide (w ≤ v) := by
    rw [Bool.eq_iff_iff]
    simp [le_iff_entries_above]
  have hbelow : v.entries.all (fun e => decide (e.2 ≤ w.get e.1)) = decide (v ≤ w) := by
    rw [Bool.eq_iff_iff]
    simp [le_iff_entries]
  rw [compare, habove, hbelow]

@[simp] protected theorem le_refl (v : VersionVector) : v ≤ v := fun _ => UInt64.le_refl _

protected theorem le_trans {u v w : VersionVector} (h : u ≤ v) (h' : v ≤ w) : u ≤ w :=
  fun n => UInt64.le_trans (h n) (h' n)

@[simp, grind =] theorem get_merge (v w : VersionVector) (n : NodeId) :
    (v.merge w).get n = max (v.get n) (w.get n) := by
  have hmax : ∀ x : UInt64, max x 0 = x ∧ max 0 x = x := by
    intro x
    have h0 : (0 : UInt64) ≤ x := UInt64.le_iff_toNat_le.mpr (Nat.zero_le _)
    constructor
    · rw [show max x 0 = if x ≤ 0 then (0 : UInt64) else x from rfl]
      split
      · rename_i h
        exact UInt64.le_antisymm h0 h
      · rfl
    · rw [show max 0 x = if (0 : UInt64) ≤ x then x else 0 from rfl, if_pos h0]
  simp only [get, merge, SortedMap.get?_unionWith]
  cases v.counters.get? n <;> cases w.counters.get? n <;>
    simp [(hmax _).1, (hmax _).2]

@[simp] theorem get_empty (n : NodeId) : (∅ : VersionVector).get n = 0 := rfl

def compareEntries : List (NodeId × UInt64) → List (NodeId × UInt64) → Ordering
  | [], [] => .eq
  | [], _ :: _ => .lt
  | _ :: _, [] => .gt
  | (n, c) :: r, (n', c') :: r' =>
      ((Ord.compare n n').then (Ord.compare c c')).then (compareEntries r r')

def compareCanonical (v w : VersionVector) : Ordering := compareEntries v.entries w.entries

end VersionVector

end QuorumStore
