import QuorumStore.Proofs.RecordText
import QuorumStore.Proofs.Survival

namespace QuorumStore

theorem Hex.digit_ne_colon (x : UInt8) : digit (x >>> 4) ≠ ':' ∧ digit (x &&& 15) ≠ ':' := by
  have h : ∀ n : Fin 256, digit (UInt8.ofFin n >>> 4) ≠ ':' ∧ digit (UInt8.ofFin n &&& 15) ≠ ':' := by
    decide +kernel
  simpa using h x.toFin

theorem Hex.colon_not_mem_digits (b : Bytes) : ':' ∉ digits b := by
  intro h
  obtain ⟨x, -, hx⟩ := List.mem_flatMap.mp h
  simp only [List.mem_cons, List.not_mem_nil, or_false] at hx
  rcases hx with hx | hx
  · exact (digit_ne_colon x).1 hx.symm
  · exact (digit_ne_colon x).2 hx.symm

@[simp, grind =] theorem Engine.get?_remove (e : Engine) (key k : Key) :
    (e.remove key).get? k = if k = key then none else e.get? k :=
  Memtable.get?_replace ..

namespace Hint

theorem attempts_lt_of_decode? {b : Bytes} {h : Hint} (hb : decode? b = some h) :
    h.attempts < UInt32.size := by
  obtain ⟨j, -, hj⟩ := Option.bind_eq_some_iff.mp hb
  unfold ofJson? at hj
  split at hj
  · rename_i attempts _
    simp only [Option.bind_eq_bind, Option.bind_eq_some_iff] at hj
    obtain ⟨-, -, vs, -, recordedAt, -, hj⟩ := hj
    split at hj
    · cases hj
      exact show 0 < UInt32.size by decide
    · rename_i n
      obtain ⟨k, hk, hj⟩ := Option.bind_eq_some_iff.mp hj
      cases hj
      exact Json.lt_of_natBelow? hk
  · cases hj

end Hint

namespace HintTable

theorem toList_keyOf (target : NodeId) (key : Key) :
    (keyOf target key).toList = Hex.digits (utf8 target) ++ ':' :: key.toList := by
  simp [keyOf, keyStart, Hex.encode]

@[simp] theorem parseKey?_keyOf (target : NodeId) (key : Key) :
    parseKey? (keyOf target key) = some (target, key) := by
  have hdigits : ∀ c ∈ Hex.digits (utf8 target), (c != ':') = true := by
    intro c hc
    rw [bne_iff_ne]
    rintro rfl
    exact Hex.colon_not_mem_digits _ hc
  have hdrop : (keyOf target key).toList.dropWhile (fun c => c != ':') = ':' :: key.toList := by
    rw [toList_keyOf, List.dropWhile_append_of_pos hdigits]
    rfl
  have htake : (keyOf target key).toList.takeWhile (fun c => c != ':') =
      Hex.digits (utf8 target) := by
    rw [toList_keyOf, List.takeWhile_append_of_pos hdigits]
    simp
  rw [parseKey?, hdrop, htake]
  simp [Hex.ofDigits?_digits, text?_utf8]

@[simp, grind =] theorem keyOf_inj {target target' : NodeId} {key key' : Key} :
    keyOf target key = keyOf target' key' ↔ target = target' ∧ key = key' := by
  constructor
  · intro h
    have hparse := parseKey?_keyOf target key
    rw [h, parseKey?_keyOf] at hparse
    cases hparse
    exact ⟨rfl, rfl⟩
  · rintro ⟨rfl, rfl⟩
    rfl

variable {t : HintTable} {target target' : NodeId} {key key' : Key} {w : VersionVector}

@[simp, grind =] theorem get?_engine_save (t : HintTable) (k k' : Key) (h : Hint) :
    (t.save k h).engine.get? k' = if k' = k then some [h.toVersion] else t.engine.get? k' := by
  simp [save]

@[simp] theorem load?_save {k : Key} {h : Hint} (hattempts : h.attempts < UInt32.size) (k' : Key) :
    (t.save k h).load? k' = if k' = k then some h else t.load? k' := by
  rw [load?, get?_engine_save]
  split
  · exact Hint.decode?_render hattempts
  · rfl

@[simp] theorem get?_save {h : Hint} (hattempts : h.attempts < UInt32.size) :
    (t.save (keyOf target key) h).get? target' key' =
      if target' = target ∧ key' = key then some h else t.get? target' key' := by
  simp [get?, hattempts]

theorem get?_save_of_ne (hne : ¬ (target' = target ∧ key' = key)) (h : Hint) :
    (t.save (keyOf target key) h).get? target' key' = t.get? target' key' := by
  simp [get?, load?, hne]

theorem get?_remove_of_ne (hne : ¬ (target' = target ∧ key' = key)) :
    (HintTable.mk (t.engine.remove (keyOf target key))).get? target' key' = t.get? target' key' := by
  simp [get?, load?, hne]

theorem attempts_lt {h : Hint} (hget : t.get? target key = some h) : h.attempts < UInt32.size := by
  obtain ⟨vs, -, hvs⟩ := Option.bind_eq_some_iff.mp hget
  cases vs with
  | nil => cases hvs
  | cons v vs => exact Hint.attempts_lt_of_decode? hvs

def Hints (t : HintTable) (target : NodeId) (key : Key) (w : VersionVector) : Prop :=
  ∃ h, t.get? target key = some h ∧ Version.Covered h.versions w

theorem hints_save {h : Hint} (h' : Hint) (hget : t.get? target key = some h)
    (hattempts : h'.attempts < UInt32.size)
    (hcovers : ∀ w, Version.Covered h.versions w → Version.Covered h'.versions w)
    (hw : t.Hints target' key' w) : (t.save (keyOf target key) h').Hints target' key' w := by
  obtain ⟨k, hk, hkw⟩ := hw
  rw [Hints, get?_save hattempts]
  split
  · rename_i heq
    obtain ⟨rfl, rfl⟩ := heq
    rw [hget] at hk
    cases hk
    exact ⟨h', rfl, hcovers w hkw⟩
  · exact ⟨k, hk, hkw⟩

theorem covered_fold {h : Hint} {v : Version} :
    Version.Covered (h.fold v).versions w ↔ Version.Covered h.versions w ∨ w ≤ v.vector := by
  simp [Hint.fold]

theorem hints_record (t : HintTable) (target : NodeId) (key : Key) (v : Version) (now : UInt64) :
    (t.record target key v now).Hints target key v.vector := by
  unfold record
  split
  · rename_i h hget
    have hattempts := attempts_lt hget
    refine ⟨h.fold v, ?_, covered_fold.mpr (.inr v.vector.le_refl)⟩
    simp [Hint.fold, hattempts]
  · refine ⟨⟨[v], now, 0⟩, ?_, v, List.mem_singleton_self v, v.vector.le_refl⟩
    simp

theorem hints_record_of_hints {v : Version} {now : UInt64} (hw : t.Hints target' key' w) :
    (t.record target key v now).Hints target' key' w := by
  unfold record
  split
  · rename_i h hget
    have hattempts := attempts_lt hget
    exact hints_save (h.fold v) hget hattempts (fun w hw => covered_fold.mpr (.inl hw)) hw
  · rename_i hget
    obtain ⟨k, hk, hkw⟩ := hw
    rw [Hints, get?_save (show 0 < UInt32.size by decide)]
    split
    · rename_i heq
      obtain ⟨rfl, rfl⟩ := heq
      rw [hget] at hk
      cases hk
    · exact ⟨k, hk, hkw⟩

theorem hints_countFailure (hw : t.Hints target' key' w) :
    (t.countFailure target key).2.Hints target' key' w := by
  unfold countFailure
  split
  · exact hw
  · rename_i h hget
    exact hints_save h.fail hget (Nat.mod_lt _ (by decide)) (fun _ hw => hw) hw

theorem hints_settle {vs : List Version} (hne : ¬ (target' = target ∧ key' = key))
    (hw : t.Hints target' key' w) : (t.settle target key vs).2.Hints target' key' w := by
  obtain ⟨k, hk, hkw⟩ := hw
  unfold settle
  split
  · exact ⟨k, hk, hkw⟩
  · split
    · exact ⟨k, (get?_remove_of_ne hne).trans hk, hkw⟩
    · exact ⟨k, (get?_save_of_ne hne _).trans hk, hkw⟩

theorem covered_hinted (hw : t.Hints target key w) : Version.Covered (t.hinted key) w := by
  obtain ⟨h, hget, v, hv, hvw⟩ := hw
  refine Version.covered_reconcile.mpr ⟨v, List.mem_flatMap.mpr ⟨keyOf target key, ?_, ?_⟩, hvw⟩
  · obtain ⟨vs, hvs, -⟩ := Option.bind_eq_some_iff.mp hget
    refine SortedMap.mem_keys_iff.mpr ?_
    rw [show t.engine.table.data.get? (keyOf target key) = some vs from hvs]
    rfl
  · rw [parseKey?_keyOf, Option.map_some, if_pos rfl, show t.load? (keyOf target key) = some h from hget]
    exact hv

end HintTable

end QuorumStore
