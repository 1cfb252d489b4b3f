import Mathlib.Data.List.Nodup
import Mathlib.Data.List.Perm.Subperm
import QuorumStore.Proofs.HintKeeping

namespace QuorumStore

theorem SortedMap.mem_keys_ofList {α : Type} {l : List (NodeId × α)} {n : NodeId} :
    n ∈ (SortedMap.ofList l).keys ↔ n ∈ l.map Prod.fst := by
  simp [SortedMap.mem_keys_iff, eq_comm (a := n)]

namespace HintTable

variable {t t' : HintTable} {target : NodeId} {key : Key} {h : Hint}

theorem exists_keyOf_of_start {k : Key} (h : (keyStart target).toList.isPrefixOf k.toList = true) :
    k = keyOf target (String.ofList (k.toList.drop (keyStart target).toList.length)) := by
  obtain ⟨rest, hrest⟩ := List.isPrefixOf_iff_prefix.mp h
  refine String.toList_injective ?_
  rw [keyOf, String.toList_append, String.toList_ofList, ← hrest, List.drop_left]

theorem start_keyOf (target : NodeId) (key : Key) :
    (keyStart target).toList.isPrefixOf (keyOf target key).toList = true := by
  refine List.isPrefixOf_iff_prefix.mpr ?_
  rw [keyOf, String.toList_append]
  exact List.prefix_append _ _

def keysFor (t : HintTable) (target : NodeId) : List Key := t.engine.table.keysWith (keyStart target)

theorem mem_keysFor {k : Key} :
    k ∈ t.keysFor target ↔ (t.engine.get? k).isSome ∧ ∃ key, k = keyOf target key := by
  rw [keysFor, Memtable.keysWith, List.mem_filter, Memtable.keys, SortedMap.mem_keys_iff]
  refine and_congr_right fun _ => ⟨fun h => ⟨_, exists_keyOf_of_start h⟩, ?_⟩
  rintro ⟨key, rfl⟩
  exact start_keyOf target key

theorem isSome_of_get? (hget : t.get? target key = some h) : (t.engine.get? (keyOf target key)).isSome := by
  obtain ⟨vs, hvs, -⟩ := Option.bind_eq_some_iff.mp hget
  rw [hvs]
  rfl

@[simp] theorem drop_keyOf (target : NodeId) (key : Key) :
    String.ofList ((keyOf target key).toList.drop (keyStart target).toList.length) = key := by
  rw [keyOf, String.toList_append, List.drop_left, String.ofList_toList]

theorem mem_hintsFor : (key, h) ∈ t.hintsFor target ↔ t.get? target key = some h := by
  constructor
  · intro hmem
    obtain ⟨k, hk, hload⟩ := List.mem_filterMap.mp hmem
    obtain ⟨-, key', rfl⟩ := mem_keysFor.mp hk
    obtain ⟨h', hload, heq⟩ := Option.map_eq_some_iff.mp hload
    rw [drop_keyOf] at heq
    cases heq
    exact hload
  · intro hget
    refine List.mem_filterMap.mpr ⟨keyOf target key, mem_keysFor.mpr ⟨isSome_of_get? hget, key, rfl⟩, ?_⟩
    rw [drop_keyOf, show t.load? (keyOf target key) = some h from hget]
    rfl

theorem length_hintsFor_le (t : HintTable) (target : NodeId) :
    (t.hintsFor target).length ≤ (t.keysFor target).length :=
  List.length_filterMap_le _ _

theorem mem_targets (hget : t.get? target key = some h) : target ∈ t.targets := by
  refine SortedMap.mem_keys_ofList.mpr (List.mem_map.mpr ⟨(target, ()), ?_, rfl⟩)
  refine List.mem_filterMap.mpr ⟨keyOf target key, SortedMap.mem_keys_iff.mpr (isSome_of_get? hget), ?_⟩
  rw [parseKey?_keyOf]
  rfl

theorem nodup_keysFor (t : HintTable) (targets : List NodeId) (htargets : targets.Nodup) :
    (targets.flatMap t.keysFor).Nodup := by
  refine List.nodup_flatMap.mpr ⟨fun target _ => (SortedMap.nodup_keys _).filter _, ?_⟩
  refine htargets.imp fun {a b} hne k ha hb => ?_
  obtain ⟨-, key, rfl⟩ := mem_keysFor.mp ha
  obtain ⟨-, key', heq⟩ := mem_keysFor.mp hb
  exact hne (keyOf_inj.mp heq).1

@[simp] theorem length_keys (t : HintTable) : t.engine.table.keys.length = t.count := List.length_map _

theorem length_keysFor_le_count (t : HintTable) : (t.targets.flatMap t.keysFor).length ≤ t.count := by
  have hsub : t.targets.flatMap t.keysFor ⊆ t.engine.table.keys := by
    intro k hk
    obtain ⟨target, -, hk⟩ := List.mem_flatMap.mp hk
    exact SortedMap.mem_keys_iff.mpr (mem_keysFor.mp hk).1
  have hle := (List.subperm_of_subset (nodup_keysFor t _ (SortedMap.nodup_keys _)) hsub).length_le
  rwa [length_keys] at hle

theorem isSome_of_save (hget : t.get? target key = some h) (h' : Hint) {k : Key}
    (hk : ((t.save (keyOf target key) h').engine.get? k).isSome = true) :
    (t.engine.get? k).isSome = true := by
  rw [get?_engine_save] at hk
  split at hk
  · rename_i heq
    exact heq ▸ isSome_of_get? hget
  · exact hk

theorem filter_settles_nil {vs settled : List Version} (h : vs = settled) :
    vs.filter (fun v => !Hint.settles settled v) = [] := by
  refine List.filter_eq_nil_iff.mpr fun v hv => ?_
  simp only [Hint.settles, Bool.not_eq_true', Bool.not_eq_false]
  exact List.any_eq_true.mpr ⟨v, h ▸ hv, by simp⟩

theorem get?_settle_whole {vs : List Version} (hwhole : ∀ h, t.get? target key = some h → h.versions = vs) :
    (t.settle target key vs).2.get? target key = none := by
  unfold settle
  split
  · rename_i hnone
    exact hnone
  · rename_i h hget
    rw [filter_settles_nil (hwhole h hget)]
    simp [get?, load?]

structure Fades (live : List NodeId) (t t' : HintTable) : Prop where
  keys : ∀ k, (t'.engine.get? k).isSome = true → (t.engine.get? k).isSome = true
  hints : ∀ r ∈ live, ∀ key h, t'.get? r key = some h → t.get? r key = some h

variable {live : List NodeId}

namespace Fades

theorem refl (t : HintTable) : Fades live t t := ⟨fun _ h => h, fun _ _ _ _ h => h⟩

theorem trans {t'' : HintTable} (h : Fades live t t') (h' : Fades live t' t'') : Fades live t t'' :=
  ⟨fun k hk => h.keys k (h'.keys k hk),
    fun r hr key hint hget => h.hints r hr key hint (h'.hints r hr key hint hget)⟩

theorem keysFor_subset (h : Fades live t t') (targets : List NodeId) :
    targets.flatMap t'.keysFor ⊆ targets.flatMap t.keysFor := by
  intro k hk
  obtain ⟨target, htarget, hk⟩ := List.mem_flatMap.mp hk
  obtain ⟨hsome, hform⟩ := mem_keysFor.mp hk
  exact List.mem_flatMap.mpr ⟨target, htarget, mem_keysFor.mpr ⟨h.keys k hsome, hform⟩⟩

theorem count_le (h : Fades live t t') : t'.count ≤ t.count := by
  have hsub : t'.engine.table.keys ⊆ t.engine.table.keys := fun k hk =>
    SortedMap.mem_keys_iff.mpr (h.keys k (SortedMap.mem_keys_iff.mp hk))
  have hnodup : t'.engine.table.keys.Nodup := SortedMap.nodup_keys _
  have hle := (List.subperm_of_subset hnodup hsub).length_le
  rwa [length_keys, length_keys] at hle

theorem settle {vs : List Version}
    (hwhole : target ∈ live → ∀ h, t.get? target key = some h → h.versions = vs) :
    Fades live t (t.settle target key vs).2 := by
  unfold HintTable.settle
  split
  · exact refl t
  · rename_i h hget
    have hattempts := attempts_lt hget
    split
    · refine ⟨fun k hk => ?_, fun r hr key' h' hget' => ?_⟩
      · by_cases hkey : k = keyOf target key <;> simp_all
      · by_cases hsame : r = target ∧ key' = key
        · simp [HintTable.get?, load?, hsame] at hget'
        · rwa [get?_remove_of_ne hsame] at hget'
    · rename_i rest hrest
      refine ⟨fun k => isSome_of_save hget _, fun r hr key' h' hget' => ?_⟩
      by_cases hsame : r = target ∧ key' = key
      · obtain ⟨rfl, rfl⟩ := hsame
        exact absurd (filter_settles_nil (hwhole hr h hget)) hrest
      · rwa [get?_save_of_ne hsame] at hget'

theorem countFailure (htarget : target ∉ live) : Fades live t (t.countFailure target key).2 := by
  unfold HintTable.countFailure
  split
  · exact refl t
  · rename_i h hget
    refine ⟨fun k => isSome_of_save hget _, fun r hr key' h' hget' => ?_⟩
    have hne : ¬ (r = target ∧ key' = key) := fun hsame => htarget (hsame.1 ▸ hr)
    rwa [get?_save_of_ne hne] at hget'

end Fades

structure Planned (live : List NodeId) (t : HintTable) (upcoming : List (NodeId × Key × Hint))
    (targets : List NodeId) (budget : Nat) : Prop where
  ahead : ∀ r ∈ live, ∀ key h, t.get? r key = some h → r ∈ targets ∨ (r, key, h) ∈ upcoming
  fresh : ∀ p ∈ upcoming, p.1 ∈ live → ∀ h, t.get? p.1 p.2.1 = some h → h = p.2.2
  distinct : targets.Nodup
  room : upcoming.length + (targets.flatMap t.keysFor).length ≤ budget

namespace Planned

variable {upcoming : List (NodeId × Key × Hint)} {targets : List NodeId} {budget : Nat} {hint : Hint}

theorem start (t : HintTable) (hbudget : t.count ≤ budget) : Planned live t [] t.targets budget where
  ahead _ _ _ _ hget := .inl (mem_targets hget)
  fresh _ hp := absurd hp List.not_mem_nil
  distinct := SortedMap.nodup_keys _
  room := by
    have hle := t.length_keysFor_le_count
    rw [List.length_nil]
    omega

theorem fades (h : Planned live t upcoming targets budget) (hfades : Fades live t t') :
    Planned live t' upcoming targets budget where
  ahead r hr key hint hget := h.ahead r hr key hint (hfades.hints r hr key hint hget)
  fresh p hp hr hint hget := h.fresh p hp hr hint (hfades.hints p.1 hr p.2.1 hint hget)
  distinct := h.distinct
  room := by
    have hle := (List.subperm_of_subset (nodup_keysFor t' targets h.distinct)
      (hfades.keysFor_subset targets)).length_le
    have hroom := h.room
    omega

theorem lookUp (h : Planned live t [] (target :: targets) budget) :
    Planned live t ((t.hintsFor target).map (fun p => (target, p))) targets budget where
  ahead r hr key hint hget := by
    rcases h.ahead r hr key hint hget with hmem | hmem
    · rcases List.mem_cons.mp hmem with rfl | hmem
      · exact .inr (List.mem_map_of_mem (mem_hintsFor.mpr hget))
      · exact .inl hmem
    · cases hmem
  fresh := by
    rintro p hp - hint hget
    obtain ⟨⟨key, hint'⟩, hmem, rfl⟩ := List.mem_map.mp hp
    exact Option.some.inj (hget.symm.trans (mem_hintsFor.mp hmem))
  distinct := h.distinct.of_cons
  room := by
    have hle := t.length_hintsFor_le target
    have hroom := h.room
    simp only [List.length_nil, List.flatMap_cons, List.length_append] at hroom
    rw [List.length_map]
    omega

theorem settle (h : Planned live t ((target, key, hint) :: upcoming) targets (budget + 1)) :
    Planned live (t.settle target key hint.versions).2 upcoming targets budget := by
  have hwhole : target ∈ live → ∀ h', t.get? target key = some h' → h' = hint :=
    h.fresh (target, key, hint) (List.mem_cons_self ..)
  have hfades : t.Fades live (t.settle target key hint.versions).2 :=
    .settle fun hr h' hget => congrArg Hint.versions (hwhole hr h' hget)
  have hroom := (h.fades hfades).room
  refine ⟨fun r hr k x hget => ?_, fun p hp => ?_, h.distinct, ?_⟩
  · -- the settled hint is the one there is, so nothing is left of it to deliver
    rcases h.ahead r hr k x (hfades.hints r hr k x hget) with hmem | hmem
    · exact .inl hmem
    · rcases List.mem_cons.mp hmem with heq | hmem
      · cases heq
        rw [get?_settle_whole fun h' hget' => congrArg Hint.versions (hwhole hr h' hget')] at hget
        cases hget
      · exact .inr hmem
  · exact (h.fades hfades).fresh p (List.mem_cons_of_mem _ hp)
  · rw [List.length_cons] at hroom
    omega

theorem skip {hints : List (Key × Hint)} (htarget : target ∉ live)
    (h : Planned live t ((target, key, hint) :: hints.map (fun p => (target, p))) targets (budget + 1)) :
    Planned live t [] targets budget where
  ahead r hr k x hget := by
    refine .inl ((h.ahead r hr k x hget).resolve_right fun hmem => ?_)
    have hall : ∀ p ∈ (target, key, hint) :: hints.map (fun p => (target, p)), p.1 = target := by
      intro p hp
      rcases List.mem_cons.mp hp with rfl | hp
      · rfl
      · obtain ⟨q, -, rfl⟩ := List.mem_map.mp hp
        rfl
    have hr' : r = target := hall _ hmem
    exact htarget (hr' ▸ hr)
  fresh _ hp := absurd hp List.not_mem_nil
  distinct := h.distinct
  room := by
    have hroom := h.room
    rw [List.length_cons] at hroom
    rw [List.length_nil]
    omega

end Planned

end HintTable

end QuorumStore
