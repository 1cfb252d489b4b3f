import Mathlib.Data.Finmap
import Mathlib.Algebra.BigOperators.Group.Finset.Basic
import QuorumStore.Proofs.Recovery

namespace QuorumStore

abbrev Contents := Finmap (fun _ : Key => {vs : List Version // vs ≠ []})

namespace Engine

inductive Query where
  | get (key : Key)
  | keys
  | keysWith (start : String)
  | size
  | versionCount
  deriving DecidableEq

inductive Answer where
  | versions (versions : Option (List Version))
  | keys (keys : List Key)
  | count (number : Nat)
  deriving DecidableEq

inductive Access where
  | change (change : Change)
  | query (query : Query)
  | sync
  | reopen
  deriving DecidableEq

def answer (e : Engine) : Query → Answer
  | .get key => .versions (e.get? key)
  | .keys => .keys e.table.keys
  | .keysWith start => .keys (e.table.keysWith start)
  | .size => .count e.table.size
  | .versionCount => .count e.table.versionCount

def perform (e : Engine) : Access → Except EngineError (Option Answer × Engine)
  | .change c => .ok (none, e.change c)
  | .query q => .ok (some (e.answer q), e)
  | .sync => .ok (none, e)
  | .reopen => (open? e.file).map (none, ·)

def run : Engine → List Access → Except EngineError (List Answer × Engine)
  | e, [] => .ok ([], e)
  | e, a :: as =>
      match e.perform a with
      | .error error => .error error
      | .ok (answer, next) => (run next as).map (fun r => (answer.toList ++ r.1, r.2))

end Engine

namespace Contents

variable {m : Contents} {key : Key}

def get? (m : Contents) (key : Key) : Option (List Version) := (m.lookup key).map (·.1)

def replace (m : Contents) (key : Key) (vs : List Version) : Contents :=
  if h : vs = [] then m.erase key else m.insert key ⟨vs, h⟩

def change (m : Contents) : Change → Contents
  | .replace key versions => m.replace key versions
  | .remove key => m.erase key

def Answers (m : Contents) : Engine.Query → Engine.Answer → Prop
  | .get key, .versions versions => versions = m.get? key
  | .keys, .keys ks => ks.Nodup ∧ ks.toFinset = m.keys
  | .keysWith start, .keys ks =>
      ks.Nodup ∧ ks.toFinset = m.keys.filter (fun k => start.toList <+: k.toList)
  | .size, .count n => n = m.keys.card
  | .versionCount, .count n => n = ∑ k ∈ m.keys, ((m.get? k).getD []).length
  | _, _ => False

inductive Explains : Contents → List Engine.Access → List Engine.Answer → Prop
  | nil (m : Contents) : Explains m [] []
  | change {m : Contents} {c as answers} (h : Explains (m.change c) as answers) :
      Explains m (.change c :: as) answers
  | query {m : Contents} {q as answer answers} (ha : m.Answers q answer) (h : Explains m as answers) :
      Explains m (.query q :: as) (answer :: answers)
  | sync {m : Contents} {as answers} (h : Explains m as answers) : Explains m (.sync :: as) answers
  | reopen {m : Contents} {as answers} (h : Explains m as answers) : Explains m (.reopen :: as) answers

theorem answers_get_iff {answer : Engine.Answer} :
    m.Answers (.get key) answer ↔ answer = .versions (m.get? key) := by
  cases answer <;> simp [Answers]

theorem answers_size_iff {answer : Engine.Answer} :
    m.Answers .size answer ↔ answer = .count m.keys.card := by
  cases answer <;> simp [Answers]

@[simp, grind =] theorem get?_erase (m : Contents) (key k : Key) :
    get? (m.erase key) k = if k = key then none else m.get? k := by
  rw [get?]
  split
  · rename_i h
    rw [h, Finmap.lookup_erase]
    rfl
  · rename_i h
    rw [Finmap.lookup_erase_ne h, get?]

@[simp, grind =] theorem get?_replace (m : Contents) (key k : Key) (vs : List Version) :
    (m.replace key vs).get? k =
      if k = key then (if vs.isEmpty then none else some vs) else m.get? k := by
  rw [replace]
  split
  · rename_i h
    rw [get?_erase, h]
    rfl
  · rename_i h
    rw [get?]
    split
    · rename_i hk
      rw [hk, Finmap.lookup_insert, if_neg (by simpa using h)]
      rfl
    · rename_i hk
      rw [Finmap.lookup_insert_of_ne _ hk, get?]

@[simp] theorem mem_keys_iff : key ∈ m.keys ↔ (m.get? key).isSome := by
  rw [Finmap.mem_keys, ← Finmap.lookup_isSome, get?, Option.isSome_map]

end Contents

namespace Memtable

variable {t : Memtable} {m : Contents}

theorem get?_change (h : ∀ key, t.get? key = m.get? key) (c : Change) (key : Key) :
    (t.change c).get? key = (m.change c).get? key := by
  cases c with
  | replace k vs => simp [change, Contents.change, h]
  | remove k => simp [change, Contents.change, h]

@[simp] theorem mem_keys_iff {key : Key} : key ∈ t.keys ↔ (t.get? key).isSome := SortedMap.mem_keys_iff

theorem toFinset_keys (h : ∀ key, t.get? key = m.get? key) : t.keys.toFinset = m.keys := by
  ext key
  simp [h]

theorem toFinset_keysWith (h : ∀ key, t.get? key = m.get? key) (start : String) :
    (t.keysWith start).toFinset = m.keys.filter (fun k => start.toList <+: k.toList) := by
  rw [keysWith, List.toFinset_filter, toFinset_keys h]
  simp only [List.isPrefixOf_iff_prefix]

theorem versionCount_eq (h : ∀ key, t.get? key = m.get? key) :
    t.versionCount = ∑ k ∈ m.keys, ((m.get? k).getD []).length := by
  have hnodup : t.keys.Nodup := SortedMap.nodup_keys _
  rw [← toFinset_keys h, List.sum_toFinset _ hnodup, versionCount, List.length_flatten,
    SortedMap.values, keys, SortedMap.keys, List.map_map, List.map_map]
  refine congrArg List.sum (List.map_congr_left fun e he => ?_)
  have hget : t.get? e.1 = some e.2 := SortedMap.mem_entries_iff.mp he
  simp only [Function.comp_apply, ← h, hget, Option.getD_some]

end Memtable

namespace Engine

variable {e : Engine} {m : Contents}

structure Stands (e : Engine) (m : Contents) : Prop where
  get? : ∀ key, e.get? key = m.get? key
  logged : ∃ records, (∀ r ∈ records, r.Fits) ∧ e.log = some (Log.frames records) ∧
    Memtable.ofRecords records = e.table

namespace Stands

theorem created : Stands created ∅ := by
  refine ⟨fun key => ?_, Logged.created⟩
  rw [Contents.get?, Finmap.lookup_empty]
  rfl

theorem change (h : Stands e m) {c : Change} (hc : c.Fits) : Stands (e.change c) (m.change c) := by
  refine ⟨fun key => ?_, ?_⟩
  · rw [Engine.get?, change_eq, write, ← Memtable.change_eq]
    exact Memtable.get?_change h.get? c key
  · rw [change_eq]
    exact Logged.write h.logged hc

theorem answers (h : Stands e m) (q : Query) : m.Answers q (e.answer q) := by
  cases q with
  | get key => exact h.get? key
  | keys => exact ⟨SortedMap.nodup_keys _, Memtable.toFinset_keys h.get?⟩
  | keysWith start =>
    exact ⟨(SortedMap.nodup_keys _).filter _, Memtable.toFinset_keysWith h.get? start⟩
  | size =>
    have hcard := List.toFinset_card_of_nodup (SortedMap.nodup_keys e.table.data)
    rw [show e.table.data.keys.toFinset = m.keys from Memtable.toFinset_keys h.get?] at hcard
    rw [answer, Contents.Answers, hcard, SortedMap.keys, List.length_map]
    rfl
  | versionCount => exact Memtable.versionCount_eq h.get?

end Stands

def unlogged (e : Engine) : Engine := ⟨e.table, none⟩

theorem unlogged_created : created.unlogged = volatile := rfl

theorem unlogged_change (e : Engine) (c : Change) : e.unlogged.change c = (e.change c).unlogged := by
  cases c <;> rfl

theorem perform_of_stands (h : Stands e m) {a : Access} (ha : ∀ c, a = .change c → c.Fits) :
    ∃ answer next, ∃ m' : Contents, e.perform a = .ok (answer, next) ∧ Stands next m' ∧
      (∀ as answers, m'.Explains as answers → m.Explains (a :: as) (answer.toList ++ answers)) ∧
      if a = .reopen then answer = none ∧ next = e
      else e.unlogged.perform a = .ok (answer, next.unlogged) := by
  cases a with
  | change c =>
    refine ⟨none, e.change c, m.change c, rfl, h.change (ha c rfl), fun _ _ => .change, ?_⟩
    rw [if_neg (by simp), perform, unlogged_change]
  | query q =>
    refine ⟨some (e.answer q), e, m, rfl, h, fun _ _ => .query (h.answers q), ?_⟩
    rw [if_neg (by simp)]
    cases q <;> rfl
  | sync => exact ⟨none, e, m, rfl, h, fun _ _ => .sync, by rw [if_neg (by simp), perform]⟩
  | reopen =>
    refine ⟨none, e, m, ?_, h, fun _ _ => .reopen, by rw [if_pos rfl]; exact ⟨rfl, rfl⟩⟩
    rw [perform, Logged.open? h.logged]
    rfl

theorem run_cons {next : Engine} {a : Access} {answer : Option Answer}
    (h : e.perform a = .ok (answer, next)) (as : List Access) :
    e.run (a :: as) = (next.run as).map (fun r => (answer.toList ++ r.1, r.2)) := by
  rw [run, h]

theorem run_of_stands (h : Stands e m) {as : List Access} (has : ∀ c, .change c ∈ as → c.Fits) :
    ∃ answers last, e.run as = .ok (answers, last) ∧ m.Explains as answers ∧
      (∃ final, Stands last final) ∧
      e.unlogged.run (as.filter (· ≠ .reopen)) = .ok (answers, last.unlogged) := by
  induction as generalizing e m with
  | nil => exact ⟨[], e, rfl, .nil m, ⟨m, h⟩, rfl⟩
  | cons a as ih =>
    obtain ⟨answer, next, m', hperform, hnext, hexplains, hunlogged⟩ :=
      perform_of_stands h (a := a) fun c hc => has c (hc ▸ List.mem_cons_self ..)
    obtain ⟨answers, last, hrun, hrest, hlast, hmemory⟩ :=
      ih hnext fun c hc => has c (List.mem_cons_of_mem _ hc)
    refine ⟨answer.toList ++ answers, last, ?_, hexplains as answers hrest, hlast, ?_⟩
    · rw [run_cons hperform, hrun]
      rfl
    · split at hunlogged
      · rename_i hreopen
        obtain ⟨rfl, rfl⟩ := hunlogged
        rw [List.filter_cons_of_neg (by simpa using hreopen), hmemory]
        rfl
      · rename_i hreopen
        rw [List.filter_cons_of_pos (by simpa using hreopen), run_cons hunlogged, hmemory]
        rfl

theorem engine_refines_map (as : List Access) (has : ∀ c, .change c ∈ as → c.Fits) :
    ∃ answers last, created.run as = .ok (answers, last) ∧ Contents.Explains ∅ as answers ∧
      (∃ records, last.file.replay = .ok records ∧ Memtable.ofRecords records = last.table) ∧
      volatile.run (as.filter (· ≠ .reopen)) = .ok (answers, last.unlogged) := by
  obtain ⟨answers, last, hrun, hexplains, ⟨final, hstands⟩, hmemory⟩ := run_of_stands .created has
  exact ⟨answers, last, hrun, hexplains, Logged.replay hstands.logged, unlogged_created ▸ hmemory⟩

theorem reopened_engine_answers : ∃ last,
    created.run [.change (.mark "" 0), .reopen, .query (.get ""), .change (.replace "" []), .reopen,
      .query .size] = .ok ([.versions (some [.live [] ∅ 0]), .count 0], last) := by
  have hempty : (Change.replace "" []).Fits := by decide +kernel
  obtain ⟨answers, last, hrun, hexplains, -, -⟩ := engine_refines_map
    [.change (.mark "" 0), .reopen, .query (.get ""), .change (.replace "" []), .reopen, .query .size]
    (by
      intro c hc
      simp only [List.mem_cons, Access.change.injEq, reduceCtorEq, List.not_mem_nil, or_false,
        false_or] at hc
      rcases hc with rfl | rfl
      · exact Change.fits_mark.1
      · exact hempty)
  cases hexplains with | change h => cases h with | reopen h => cases h with | query hget h =>
  cases h with | change h => cases h with | reopen h => cases h with | query hsize h =>
  cases h
  have hkeys : ((Contents.change ∅ (.mark "" 0)).change (.replace "" [])).keys = ∅ := by
    refine Finset.eq_empty_iff_forall_notMem.mpr fun key hkey => ?_
    rw [Contents.mem_keys_iff, Contents.change, Contents.get?_replace, Change.mark, Contents.change,
      Contents.get?_replace] at hkey
    by_cases h : key = "" <;> simp [h, Contents.get?] at hkey
  rw [Contents.answers_get_iff, Change.mark, Contents.change, Contents.get?_replace, if_pos rfl] at hget
  rw [Contents.answers_size_iff, hkeys, Finset.card_empty] at hsize
  exact ⟨last, hget ▸ hsize ▸ hrun⟩

end Engine

end QuorumStore
