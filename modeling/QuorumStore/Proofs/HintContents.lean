import Mathlib.Data.Set.List
import QuorumStore.Proofs.DeliveryPlan
import QuorumStore.Proofs.EngineContents

namespace QuorumStore

theorem flatMap_ite_nil {α β : Type} (p : α → Prop) [DecidablePred p] (f : α → List β) (l : List α) :
    l.flatMap (fun a => if p a then f a else []) = (l.filter p).flatMap f := by
  induction l with
  | nil => rfl
  | cons a l ih => by_cases ha : p a <;> simp [ha, ih]

theorem Record.fits_removal {key : Key} {vs : List Version} (h : (Record.mk key vs).Fits) :
    (Record.removal key).Fits := by
  refine Nat.lt_of_le_of_lt ?_ h
  cases vs with
  | nil => exact Nat.le_refl _
  | cons v vs =>
    simp only [Record.encode, Record.toJson, Record.removal, List.map_nil, List.map_cons, Json.render,
      Json.renderMembers, List.length_append, List.length_cons, List.length_nil]
    omega

abbrev HintMap := Finmap (fun _ : NodeId × Key => Hint)

namespace HintTable

inductive Access where
  | record (target : NodeId) (key : Key) (version : Version) (now : UInt64)
  | countFailure (target : NodeId) (key : Key)
  | settle (target : NodeId) (key : Key) (settled : List Version)
  | reopen
  deriving DecidableEq

inductive Answer where
  | done
  | attempts (number : Option Nat)
  | settled (nothingLeft : Bool)
  deriving DecidableEq

namespace Access

def place? : Access → Option (NodeId × Key)
  | record target key _ _ => some (target, key)
  | countFailure target key => some (target, key)
  | settle target key _ => some (target, key)
  | reopen => none

def onHint : Access → Option Hint → Answer × Option Hint
  | record _ _ version now, none => (.done, some ⟨[version], now, 0⟩)
  | record _ _ version _, some h =>
      (.done, some { h with versions := Version.reconcile (h.versions ++ [version]) })
  | countFailure _ _, none => (.attempts none, none)
  | countFailure _ _, some h =>
      (.attempts (some (h.attempts + 1)), some { h with attempts := h.attempts + 1 })
  | settle _ _ _, none => (.settled true, none)
  | settle _ _ settled, some h =>
      match h.versions.filter (fun v => !Hint.settles settled v) with
      | [] => (.settled true, none)
      | rest => (.settled false, some { h with versions := rest })
  | reopen, h => (.done, h)

end Access

def perform (t : HintTable) : Access → Except HintTableError (Answer × HintTable)
  | .record target key version now => .ok (.done, t.record target key version now)
  | .countFailure target key =>
      .ok (.attempts (t.countFailure target key).1, (t.countFailure target key).2)
  | .settle target key settled =>
      .ok (.settled (t.settle target key settled).1, (t.settle target key settled).2)
  | .reopen => (open? t.engine.file).map (.done, ·)

def run : HintTable → List Access → Except HintTableError (List Answer × HintTable)
  | t, [] => .ok ([], t)
  | t, a :: as =>
      match t.perform a with
      | .error error => .error error
      | .ok (answer, next) => (run next as).map (fun r => (answer :: r.1, r.2))

end HintTable

namespace HintMap

variable {m : HintMap} {place place' : NodeId × Key} {a : HintTable.Access}

def put (m : HintMap) (place : NodeId × Key) : Option Hint → HintMap
  | none => m.erase place
  | some h => m.insert place h

def step (m : HintMap) (a : HintTable.Access) : HintTable.Answer × HintMap :=
  match a.place? with
  | none => (.done, m)
  | some place =>
      ((a.onHint (m.lookup place)).1, m.put place (a.onHint (m.lookup place)).2)

def after (m : HintMap) (as : List HintTable.Access) : HintMap :=
  as.foldl (fun m a => (m.step a).2) m

def answers : HintMap → List HintTable.Access → List HintTable.Answer
  | _, [] => []
  | m, a :: as => (m.step a).1 :: answers (m.step a).2 as

def versions (m : HintMap) (place : NodeId × Key) : List Version :=
  ((m.lookup place).map Hint.versions).getD []

def CountsFit (m : HintMap) : Prop := ∀ place, ∀ h ∈ m.lookup place, h.attempts < UInt32.size

def RecordsFit (m : HintMap) : Prop :=
  ∀ place, ∀ h ∈ m.lookup place, (Record.mk (HintTable.keyOf place.1 place.2) [h.toVersion]).Fits

@[simp, grind =] theorem lookup_put (m : HintMap) (place place' : NodeId × Key) (h : Option Hint) :
    (m.put place h).lookup place' = if place' = place then h else m.lookup place' := by
  split
  · rename_i heq
    subst heq
    cases h with
    | none => exact Finmap.lookup_erase _ _
    | some h => exact Finmap.lookup_insert _
  · rename_i hne
    cases h with
    | none => exact Finmap.lookup_erase_ne hne
    | some h => exact Finmap.lookup_insert_of_ne _ hne

end HintMap

namespace HintTable

variable {t next : HintTable} {m : HintMap} {a : Access} {answer : Answer} {target target' : NodeId}
  {key key' : Key} {durable : Prop}

def put (t : HintTable) (target : NodeId) (key : Key) : Option Hint → HintTable
  | some h => t.save (keyOf target key) h
  | none => if t.get? target key = none then t else ⟨t.engine.remove (keyOf target key)⟩

theorem perform_eq (hplace : a.place? = some (target, key))
    (hcounts : ∀ h ∈ (a.onHint (t.get? target key)).2, h.attempts < UInt32.size) :
    t.perform a =
      .ok ((a.onHint (t.get? target key)).1, t.put target key (a.onHint (t.get? target key)).2) := by
  cases a with
  | record target' key' version now =>
    cases hplace
    rw [perform, record]
    cases t.get? target key <;> rfl
  | countFailure target' key' =>
    cases hplace
    rw [perform, countFailure]
    cases hget : t.get? target key with
    | none => simp [Access.onHint, put, hget]
    | some h =>
      rw [hget] at hcounts
      have hfail : h.fail = { h with attempts := h.attempts + 1 } := by
        rw [Hint.fail, Nat.mod_eq_of_lt (hcounts _ rfl)]
      simp only [hfail, Access.onHint, put]
  | settle target' key' settled =>
    cases hplace
    rw [perform, settle]
    cases hget : t.get? target key with
    | none => simp [Access.onHint, put, hget]
    | some h =>
      cases hrest : h.versions.filter (fun v => !Hint.settles settled v) with
      | nil => simp [Access.onHint, put, hget, hrest]
      | cons v vs => simp only [Access.onHint, put, hrest]
  | reopen => cases hplace

theorem get?_perform_of_ne (hplace : a.place? = some (target, key))
    (hne : ¬ (target' = target ∧ key' = key)) (hperform : t.perform a = .ok (answer, next)) :
    next.get? target' key' = t.get? target' key' := by
  cases a with
  | record target key version now =>
    cases hplace
    cases hperform
    exact get?_save_of_ne hne _
  | countFailure target key =>
    cases hplace
    cases hperform
    rw [countFailure]
    split
    · rfl
    · exact get?_save_of_ne hne _
  | settle target key settled =>
    cases hplace
    cases hperform
    rw [settle]
    split
    · rfl
    · split
      · exact get?_remove_of_ne hne
      · exact get?_save_of_ne hne _
  | reopen => cases hplace

structure Stands (durable : Prop) (t : HintTable) (m : HintMap) : Prop where
  stored : ∀ target key, t.engine.get? (keyOf target key) =
    (m.lookup (target, key)).map (fun h => [h.toVersion])
  keyed : ∀ k, (t.engine.get? k).isSome → ∃ target key, k = keyOf target key
  counts : m.CountsFit
  records : durable → m.RecordsFit
  logged : durable → t.engine.Logged

structure Mirrors (t : HintTable) (m : HintMap) : Prop where
  get? : ∀ target key, t.get? target key = m.lookup (target, key)
  hintsFor : ∀ target, ((t.hintsFor target).map Prod.fst).Nodup ∧
    ∀ key h, (key, h) ∈ t.hintsFor target ↔ m.lookup (target, key) = some h
  hinted : ∀ key, ∃ targets : List NodeId, targets.Nodup ∧ (∀ n, n ∈ targets ↔ (n, key) ∈ m) ∧
    t.hinted key = Version.reconcile (targets.flatMap (fun n => m.versions (n, key)))
  targets : t.targets.Nodup ∧ ∀ n, n ∈ t.targets ↔ ∃ key, (n, key) ∈ m
  count : t.count = m.keys.card
  decodes : ∀ k vs, t.engine.get? k = some vs → ∃ target key h,
    parseKey? k = some (target, key) ∧ Hint.ofVersions? vs = some h ∧ m.lookup (target, key) = some h

theorem nodup_hintsFor (t : HintTable) (target : NodeId) : ((t.hintsFor target).map Prod.fst).Nodup := by
  have hkeys : (t.keysFor target).Nodup := (SortedMap.nodup_keys _).filter _
  rw [List.Nodup, List.pairwise_map, hintsFor, List.pairwise_filterMap]
  refine hkeys.imp_of_mem fun hk hk' hne p hp p' hp' heq => hne ?_
  obtain ⟨-, key, rfl⟩ := mem_keysFor.mp hk
  obtain ⟨-, key', rfl⟩ := mem_keysFor.mp hk'
  obtain ⟨h, -, rfl⟩ := Option.map_eq_some_iff.mp hp
  obtain ⟨h', -, rfl⟩ := Option.map_eq_some_iff.mp hp'
  simp only [drop_keyOf] at heq
  rw [heq]

namespace Stands

theorem get? (hstands : Stands durable t m) (target : NodeId) (key : Key) :
    t.get? target key = m.lookup (target, key) := by
  rw [HintTable.get?, load?, hstands.stored]
  cases hlookup : m.lookup (target, key) with
  | none => rfl
  | some h => exact Hint.decode?_render (hstands.counts _ h hlookup)

theorem mono {durable' : Prop} (hstands : Stands durable t m) (h : durable' → durable) :
    Stands durable' t m :=
  ⟨hstands.stored, hstands.keyed, hstands.counts, hstands.records ∘ h, hstands.logged ∘ h⟩

theorem put (hstands : Stands durable t m) (h : Option Hint)
    (hcounts : (m.put (target, key) h).CountsFit) (hrecords : durable → (m.put (target, key) h).RecordsFit) :
    Stands durable (t.put target key h) (m.put (target, key) h) := by
  have hlookup := m.lookup_put (target, key) (target, key) h
  rw [if_pos rfl] at hlookup
  cases h with
  | some h =>
    refine ⟨fun target' key' => ?_, fun k hk => ?_, hcounts, hrecords, fun hdurable => ?_⟩
    · by_cases hsame : target' = target ∧ key' = key <;> simp [HintTable.put, hstands.stored, hsame]
    · rw [HintTable.put, get?_engine_save] at hk
      split at hk
      · exact ⟨target, key, ‹_›⟩
      · exact hstands.keyed k hk
    · have hwrite := (hstands.logged hdurable).write (hrecords hdurable _ h hlookup)
      exact hwrite
  | none =>
    rw [HintTable.put]
    split
    · rename_i hnone
      have hsame : m.put (target, key) none = m := by
        refine Finmap.ext_lookup fun place => ?_
        by_cases hplace : place = (target, key)
        · simp [hplace, ← hstands.get?, hnone]
        · simp [hplace]
      rwa [hsame]
    · rename_i hsome
      refine ⟨fun target' key' => ?_, fun k hk => ?_, hcounts, hrecords, fun hdurable => ?_⟩
      · by_cases hsame : target' = target ∧ key' = key <;> simp [hstands.stored, hsame]
      · rw [Engine.get?_remove] at hk
        split at hk
        · cases hk
        · exact hstands.keyed k hk
      · obtain ⟨h, hget⟩ := Option.ne_none_iff_exists'.mp hsome
        rw [hstands.get?] at hget
        have hwrite := (hstands.logged hdurable).write
          (Record.fits_removal (hstands.records hdurable _ h hget))
        exact hwrite

theorem perform (later : Prop) (hstands : Stands durable t m) (hreopen : a = .reopen → durable)
    (hlater : later → durable) (hcounts : (m.step a).2.CountsFit)
    (hrecords : later → (m.step a).2.RecordsFit) :
    ∃ next, t.perform a = .ok ((m.step a).1, next) ∧ Stands later next (m.step a).2 := by
  cases hplace : a.place? with
  | none =>
    obtain rfl : a = .reopen := by
      cases a <;> first | rfl | cases hplace
    refine ⟨t, ?_, hstands.mono hlater⟩
    rw [HintTable.perform, open?, (hstands.logged (hreopen rfl)).open?]
    rfl
  | some place =>
    obtain ⟨target, key⟩ := place
    simp only [HintMap.step, hplace] at hcounts hrecords ⊢
    rw [← hstands.get?] at hcounts hrecords ⊢
    refine ⟨_, perform_eq hplace fun h hh => ?_, (hstands.mono hlater).put _ hcounts hrecords⟩
    refine hcounts (target, key) h ?_
    simpa using hh

theorem run {as : List Access} (hstands : Stands (.reopen ∈ as) t m)
    (hcounts : ∀ done, done <+: as → (m.after done).CountsFit)
    (hrecords : ∀ done ahead, as = done ++ ahead → .reopen ∈ ahead → (m.after done).RecordsFit) :
    ∃ last, t.run as = .ok (m.answers as, last) ∧ Stands False last (m.after as) := by
  induction as generalizing t m with
  | nil => exact ⟨t, rfl, hstands.mono False.elim⟩
  | cons a as ih =>
    obtain ⟨next, hperform, hnext⟩ := hstands.perform (a := a) (.reopen ∈ as)
      (fun h => h ▸ List.mem_cons_self) (List.mem_cons_of_mem a)
      (hcounts [a] (List.prefix_append [a] as)) (hrecords [a] as rfl)
    obtain ⟨last, hrun, hlast⟩ := ih hnext
      (fun done hdone => hcounts (a :: done) (List.cons_prefix_cons.mpr ⟨rfl, hdone⟩))
      (fun done ahead h => hrecords (a :: done) ahead (congrArg (List.cons a) h))
    refine ⟨last, ?_, hlast⟩
    rw [HintTable.run, hperform]
    dsimp only
    rw [hrun]
    rfl

theorem mem_iff (hstands : Stands durable t m) :
    (target, key) ∈ m ↔ (t.engine.get? (keyOf target key)).isSome := by
  rw [hstands.stored, Option.isSome_map, Finmap.lookup_isSome]

theorem exists_places (hstands : Stands durable t m) : ∃ places : List (NodeId × Key),
    t.engine.table.keys = places.map (fun place => keyOf place.1 place.2) ∧ places.Nodup ∧
      ∀ place, place ∈ places ↔ place ∈ m := by
  have hrange : t.engine.table.keys ∈
      Set.range (List.map fun place : NodeId × Key => keyOf place.1 place.2) := by
    rw [Set.range_list_map]
    intro k hk
    obtain ⟨target, key, rfl⟩ := hstands.keyed k (Memtable.mem_keys_iff.mp hk)
    exact ⟨(target, key), rfl⟩
  obtain ⟨places, hplaces⟩ := hrange
  have hnodup : t.engine.table.keys.Nodup := SortedMap.nodup_keys _
  rw [← hplaces] at hnodup
  refine ⟨places, hplaces.symm, hnodup.of_map, fun place => ?_⟩
  rw [hstands.mem_iff, Engine.get?, ← Memtable.mem_keys_iff, ← hplaces, List.mem_map]
  constructor
  · exact fun h => ⟨place, h, rfl⟩
  · rintro ⟨place', hmem, heq⟩
    exact Prod.ext_iff.mpr (keyOf_inj.mp heq) ▸ hmem

theorem targets (hstands : Stands durable t m) :
    t.targets.Nodup ∧ ∀ n, n ∈ t.targets ↔ ∃ key, (n, key) ∈ m := by
  obtain ⟨places, hkeys, -, hplaces⟩ := hstands.exists_places
  refine ⟨SortedMap.nodup_keys _, fun n => ?_⟩
  rw [HintTable.targets, hkeys, SortedMap.mem_keys_ofList, List.filterMap_map]
  simp only [Function.comp_def, parseKey?_keyOf, Option.map_some, List.filterMap_eq_map']
  simp [hplaces]

theorem count (hstands : Stands durable t m) : t.count = m.keys.card := by
  obtain ⟨places, hkeys, hnodup, hplaces⟩ := hstands.exists_places
  have hset : places.toFinset = m.keys := by
    ext place
    rw [List.mem_toFinset, hplaces, Finmap.mem_keys]
  rw [← length_keys, hkeys, List.length_map, ← hset, List.toFinset_card_of_nodup hnodup]

theorem hinted (hstands : Stands durable t m) (key : Key) :
    ∃ targets : List NodeId, targets.Nodup ∧ (∀ n, n ∈ targets ↔ (n, key) ∈ m) ∧
      t.hinted key = Version.reconcile (targets.flatMap (fun n => m.versions (n, key))) := by
  obtain ⟨places, hkeys, hnodup, hplaces⟩ := hstands.exists_places
  have hkeyed : ∀ place ∈ places.filter (fun place => place.2 = key), (place.1, key) = place := by
    rintro ⟨n, key'⟩ hplace
    obtain rfl : key' = key := by simpa using (List.mem_filter.mp hplace).2
    rfl
  refine ⟨(places.filter (fun place => place.2 = key)).map Prod.fst, ?_, fun n => ?_, ?_⟩
  · refine (hnodup.filter _).map_on fun place hplace place' hplace' heq => ?_
    rw [← hkeyed place hplace, ← hkeyed place' hplace', heq]
  · rw [← hplaces]
    simp
  · rw [HintTable.hinted, hkeys, List.flatMap_map, List.flatMap_map]
    simp only [parseKey?_keyOf, Option.map_some, Option.some.injEq]
    rw [flatMap_ite_nil]
    refine congrArg Version.reconcile (List.flatMap_congr fun place hplace => ?_)
    rw [hkeyed place hplace, HintMap.versions, show t.load? (keyOf place.1 place.2) = m.lookup place from
      hstands.get? place.1 place.2]
    cases m.lookup place <;> rfl

theorem decodes (hstands : Stands durable t m) {k : Key} {vs : List Version}
    (hk : t.engine.get? k = some vs) : ∃ target key h,
      parseKey? k = some (target, key) ∧ Hint.ofVersions? vs = some h ∧
        m.lookup (target, key) = some h := by
  obtain ⟨target, key, rfl⟩ := hstands.keyed k (by rw [hk]; rfl)
  have hstored := hstands.stored target key
  rw [hk] at hstored
  obtain ⟨h, hlookup, hvs⟩ := Option.map_eq_some_iff.mp hstored.symm
  refine ⟨target, key, h, parseKey?_keyOf target key, ?_, hlookup⟩
  rw [← hvs]
  exact Hint.decode?_render (hstands.counts _ h hlookup)

theorem mirrors (hstands : Stands durable t m) : t.Mirrors m where
  get? := hstands.get?
  hintsFor target := by
    refine ⟨t.nodup_hintsFor target, fun key h => ?_⟩
    rw [mem_hintsFor, hstands.get?]
  hinted := hstands.hinted
  targets := hstands.targets
  count := hstands.count
  decodes _ _ := hstands.decodes

protected theorem volatile : Stands False volatile ∅ where
  stored target key := by
    rw [Finmap.lookup_empty]
    rfl
  keyed k hk := nomatch hk
  counts place h hh := by
    rw [Finmap.lookup_empty] at hh
    cases hh
  records := False.elim
  logged := False.elim

protected theorem created : Stands True ⟨.created⟩ ∅ where
  stored := Stands.volatile.stored
  keyed := Stands.volatile.keyed
  counts := Stands.volatile.counts
  records _ place h hh := by
    rw [Finmap.lookup_empty] at hh
    cases hh
  logged _ := .created

end Stands

theorem hints_refine_map {start : HintTable} {history : List Access}
    (hstart : start = volatile ∧ .reopen ∉ history ∨ open? .absent = .ok start)
    (hcounts : ∀ done, done <+: history → (HintMap.after ∅ done).CountsFit)
    (hrecords : ∀ done ahead, history = done ++ ahead → .reopen ∈ ahead →
      (HintMap.after ∅ done).RecordsFit) :
    ∃ last, start.run history = .ok (HintMap.answers ∅ history, last) ∧
      last.Mirrors (HintMap.after ∅ history) ∧
      ∀ a target key target' key', a.place? = some (target, key) → ¬ (target' = target ∧ key' = key) →
        ∀ answer next, last.perform a = .ok (answer, next) →
          next.get? target' key' = last.get? target' key' := by
  have hstands : Stands (.reopen ∈ history) start ∅ := by
    rcases hstart with ⟨rfl, hnever⟩ | hopen
    · exact Stands.volatile.mono hnever
    · cases hopen
      exact Stands.created.mono fun _ => trivial
  obtain ⟨last, hrun, hlast⟩ := hstands.run hcounts hrecords
  refine ⟨last, hrun, hlast.mirrors, ?_⟩
  intro a target key target' key' hplace hne answer next hperform
  exact get?_perform_of_ne hplace hne hperform

namespace Adjoining

def value : Version := .live [1] (.ofEntries [("A", 1)]) 3

def history : List Access :=
  [.record "a:" "b" value 7, .record "a" ":b" value 8, .reopen, .countFailure "a:" "b"]

def places : List ((NodeId × Key) × Hint) :=
  [(("a:", "b"), ⟨[value], 7, 0⟩), (("a:", "b"), ⟨[value], 7, 1⟩), (("a", ":b"), ⟨[value], 8, 0⟩)]

theorem mem_places {done : List Access} (hdone : done <+: history) {place : NodeId × Key} {h : Hint}
    (hh : h ∈ (HintMap.after ∅ done).lookup place) : (place, h) ∈ places := by
  simp only [history, List.prefix_cons_iff, List.prefix_nil] at hdone
  rcases hdone with rfl | ⟨_, rfl, rfl | ⟨_, rfl, rfl | ⟨_, rfl, rfl | ⟨_, rfl, rfl⟩⟩⟩⟩ <;>
    simp [HintMap.after, HintMap.step, Access.place?, HintMap.lookup_put, Access.onHint, places] at hh ⊢
  all_goals grind

theorem reopened_hints_apart : ∃ last,
    (⟨.created⟩ : HintTable).run history = .ok ([.done, .done, .done, .attempts (some 1)], last) ∧
      last.get? "a:" "b" = some ⟨[value], 7, 1⟩ ∧ last.get? "a" ":b" = some ⟨[value], 8, 0⟩ := by
  obtain ⟨last, hrun, hmirrors, -⟩ := @hints_refine_map ⟨.created⟩ history (.inr rfl)
    (by
      have hcounts : ∀ e ∈ places, e.2.attempts < UInt32.size := by decide
      exact fun done hdone place h hh => hcounts (place, h) (mem_places hdone hh))
    (by
      have hfits : ∀ e ∈ places, (Record.mk (keyOf e.1.1 e.1.2) [e.2.toVersion]).Fits := by decide +kernel
      intro done ahead hsplit _ place h hh
      exact hfits (place, h) (mem_places (hsplit ▸ List.prefix_append done ahead) hh))
  refine ⟨last, ?_, ?_, ?_⟩
  · rw [hrun]
    simp [HintMap.answers, history, HintMap.step, Access.place?, HintMap.lookup_put, Access.onHint]
  · rw [hmirrors.get?]
    simp [HintMap.after, history, HintMap.step, Access.place?, HintMap.lookup_put, Access.onHint]
  · rw [hmirrors.get?]
    simp [HintMap.after, history, HintMap.step, Access.place?, HintMap.lookup_put, Access.onHint]

end Adjoining

end HintTable

end QuorumStore
