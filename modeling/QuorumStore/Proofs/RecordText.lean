import QuorumStore.HintTable
import QuorumStore.Proofs.JsonText

namespace QuorumStore

theorem mapM_eq_some {α β : Type} {f : α → Option β} {g : α → β} {l : List α}
    (h : ∀ a ∈ l, f a = some (g a)) : l.mapM f = some (l.map g) := by
  induction l with
  | nil => rfl
  | cons a l ih =>
    rw [List.mapM_cons, h a (List.mem_cons_self ..), ih fun b hb => h b (List.mem_cons_of_mem _ hb)]
    rfl

theorem filter_name_eq {ms : List (String × Json)} (hms : (ms.map (·.1)).Nodup)
    {m : String × Json} (hm : m ∈ ms) : ms.filter (fun k => k.1 = m.1) = [m] := by
  induction ms with
  | nil => exact nomatch hm
  | cons k ms ih =>
    obtain ⟨hk, hms⟩ := List.nodup_cons.mp hms
    rcases List.mem_cons.mp hm with rfl | hm'
    · have hnone : ms.filter (fun k => k.1 = m.1) = [] := by
        refine List.filter_eq_nil_iff.mpr fun n hn => ?_
        simp only [decide_eq_true_eq]
        exact fun h => hk (List.mem_map.mpr ⟨n, hn, h⟩)
      rw [List.filter_cons_of_pos (by simp), hnone]
    · have hne : k.1 ≠ m.1 := fun h => hk (List.mem_map.mpr ⟨m, hm', h.symm⟩)
      rw [List.filter_cons_of_neg (by simp [hne]), ih hms hm']

theorem Json.members?_object (ms : List (String × Json)) (hms : (ms.map (·.1)).Nodup) :
    (Json.object (ms.map (fun m => (utf8 m.1, m.2)))).members? (ms.map (·.1)) =
      some (ms.map (fun m => some m.2)) := by
  have hnamed : (ms.map (fun m => (utf8 m.1, m.2))).mapM
      (fun m => (QuorumStore.text? m.1).map (fun name => (name, m.2))) = some ms := by
    rw [List.mapM_map]
    have h := mapM_eq_some (f := fun m : String × Json =>
      (QuorumStore.text? (utf8 m.1)).map (fun name => (name, m.2))) (g := id) (l := ms)
      (fun m _ => by rw [text?_utf8]; rfl)
    rw [List.map_id] at h
    exact h
  simp only [Json.members?, hnamed, Option.bind_eq_bind, Option.bind_some]
  rw [List.mapM_map]
  exact mapM_eq_some fun m hm => by rw [Function.comp_apply, filter_name_eq hms hm]

structure Json.Hereditary (P : Json → Prop) : Prop where
  string : ∀ text, P (.string text)
  bool : ∀ b, P (.bool b)
  ofNat : ∀ n, P (ofNat n)
  array : ∀ {js}, (∀ j ∈ js, P j) → P (.array js)
  object : ∀ {ms}, (∀ m ∈ ms, P m.2) → P (.object ms)

theorem Json.hereditary_legible : Hereditary Legible :=
  ⟨legible_string, legible_bool, legible_ofNat, legible_array, legible_object⟩

variable {P : Json → Prop}

namespace VersionVector

theorem ofList_entries (v : VersionVector) : SortedMap.ofList v.entries = v.counters := by
  have hunion : SortedMap.ofList v.entries = SortedMap.unionWith (fun _ b => b) ∅ v.counters := by
    refine congrFun (congrFun (congrArg List.foldl ?_) _) _
    funext m e
    split <;> rfl
  rw [hunion]
  refine SortedMap.ext_get? fun k => ?_
  rw [SortedMap.get?_unionWith]
  cases v.counters.get? k <;> rfl

theorem hereditary_toJson (hP : Json.Hereditary P) (v : VersionVector) : P v.toJson := by
  refine hP.object fun m hm => ?_
  obtain rfl := List.mem_singleton.mp hm
  refine hP.object fun e he => ?_
  obtain ⟨e, -, rfl⟩ := List.mem_map.mp he
  exact hP.ofNat e.2.toNat

@[simp] theorem ofJson?_toJson (v : VersionVector) : ofJson? v.toJson = some v := by
  have hmembers := Json.members?_object [("entries",
    .object (v.entries.map (fun e => (utf8 e.1, .ofNat e.2.toNat))))] (by simp)
  simp only [List.map_cons, List.map_nil] at hmembers
  have hentries : (v.entries.map (fun e => (utf8 e.1, Json.ofNat e.2.toNat))).mapM
      (fun m => do pure (← text? m.1, ← m.2.uint64?)) = some v.entries := by
    rw [List.mapM_map]
    have h := mapM_eq_some (f := fun e : NodeId × UInt64 =>
      (do pure (← text? (utf8 e.1), ← (Json.ofNat e.2.toNat).uint64?) : Option _)) (g := id)
      (l := v.entries) (fun e _ => by rw [text?_utf8, Json.uint64?_ofNat]; rfl)
    rw [List.map_id] at h
    exact h
  simp only [Option.bind_eq_bind] at hentries
  rw [ofJson?, toJson, hmembers]
  simp only [Option.bind_eq_bind, Option.bind_some, hentries, ofList_entries]
  rfl

end VersionVector

namespace Version

theorem hereditary_toJson (hP : Json.Hereditary P) (v : Version) : P v.toJson := by
  refine hP.object fun m hm => ?_
  simp only [List.mem_cons, List.not_mem_nil, or_false] at hm
  rcases hm with rfl | rfl | rfl | rfl
  · refine hP.array fun j hj => ?_
    obtain ⟨b, -, rfl⟩ := List.mem_map.mp hj
    exact hP.ofNat b.toNat
  · exact v.vector.hereditary_toJson hP
  · exact hP.ofNat v.timestamp.toNat
  · exact hP.bool v.tombstone

@[simp] theorem ofJson?_toJson (v : Version) : ofJson? v.toJson = some v := by
  have hmembers := Json.members?_object [
    ("value", .array (v.value.map (fun b => .ofNat b.toNat))), ("vclock", v.vector.toJson),
    ("timestamp_ms", .ofNat v.timestamp.toNat), ("tombstone", .bool v.tombstone)] (by simp)
  simp only [List.map_cons, List.map_nil] at hmembers
  have hvalue : (Json.array (v.value.map (fun b => .ofNat b.toNat))).bytes? = some v.value := by
    simp only [Json.bytes?, Json.items?, Option.bind_some]
    rw [List.mapM_map]
    have h := mapM_eq_some (g := id) fun b (_ : b ∈ v.value) => Json.byte?_ofNat b
    rw [List.map_id] at h
    exact h
  rw [ofJson?, toJson, hmembers]
  simp only [hvalue, VersionVector.ofJson?_toJson, Json.uint64?_ofNat, Json.bool?,
    Option.bind_eq_bind, Option.bind_some]
  rfl

@[simp] theorem mapM_ofJson?_toJson (vs : List Version) :
    (vs.map toJson).mapM ofJson? = some vs := by
  rw [List.mapM_map]
  have h := mapM_eq_some (g := id) fun v (_ : v ∈ vs) => ofJson?_toJson v
  rw [List.map_id] at h
  exact h

theorem hereditary_toJson_array (hP : Json.Hereditary P) (vs : List Version) :
    P (.array (vs.map toJson)) := by
  refine hP.array fun j hj => ?_
  obtain ⟨v, -, rfl⟩ := List.mem_map.mp hj
  exact v.hereditary_toJson hP

end Version

namespace Record

theorem hereditary_toJson (hP : Json.Hereditary P) (r : Record) : P r.toJson := by
  refine hP.object fun m hm => ?_
  simp only [List.mem_cons, List.not_mem_nil, or_false] at hm
  rcases hm with rfl | rfl
  · exact hP.string _
  · exact Version.hereditary_toJson_array hP r.versions

theorem legible_toJson (r : Record) : r.toJson.Legible :=
  r.hereditary_toJson Json.hereditary_legible

@[simp] theorem ofJson?_toJson (r : Record) : ofJson? r.toJson = some r := by
  have hmembers := Json.members?_object [("key", .ofText r.key),
    ("versions", .array (r.versions.map Version.toJson))] (by simp)
  simp only [List.map_cons, List.map_nil] at hmembers
  rw [ofJson?, toJson, hmembers]
  simp only [Json.ofText, Json.text?, text?_utf8, Json.items?, Version.mapM_ofJson?_toJson,
    Option.bind_eq_bind, Option.bind_some]
  rfl

@[simp] theorem decode?_encode (r : Record) : decode? r.encode = some r := by
  rw [decode?, encode, Json.parse?_render r.legible_toJson, Option.bind_some, ofJson?_toJson]

end Record

namespace Hint

theorem decode?_render {h : Hint} (hattempts : h.attempts < UInt32.size) :
    decode? h.toJson.render = some h := by
  have hlegible : h.toJson.Legible := by
    refine Json.legible_object fun m hm => ?_
    simp only [List.mem_cons, List.not_mem_nil, or_false] at hm
    rcases hm with rfl | rfl | rfl
    · exact Version.hereditary_toJson_array Json.hereditary_legible h.versions
    · exact Json.legible_ofNat h.recordedAt.toNat
    · exact Json.legible_ofNat h.attempts
  have hmembers := Json.members?_object [
    ("versions", .array (h.versions.map Version.toJson)),
    ("recorded_at_ms", .ofNat h.recordedAt.toNat), ("attempts", .ofNat h.attempts)] (by simp)
  simp only [List.map_cons, List.map_nil] at hmembers
  rw [decode?, Json.parse?_render hlegible, Option.bind_some, ofJson?, toJson, hmembers]
  simp only [Json.items?, Version.mapM_ofJson?_toJson, Json.uint64?_ofNat,
    Json.natBelow?_ofNat hattempts, Option.bind_eq_bind, Option.bind_some]
  rfl

end Hint

end QuorumStore
