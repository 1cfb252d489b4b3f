namespace QuorumStore

universe u v w

structure SortedMap (κ : Type w) (α : Type u) [LT κ] where
  entries : List (κ × α)
  ascending : entries.Pairwise (fun a b => a.1 < b.1)
  deriving DecidableEq

namespace Entries

variable {κ : Type w} {α : Type u} [DecidableEq κ]

def find (k : κ) : List (κ × α) → Option α
  | [] => none
  | (k', a) :: r => if k = k' then some a else find k r

section Insertion

variable [LT κ] [DecidableLT κ]

def insert (k : κ) (a : α) : List (κ × α) → List (κ × α)
  | [] => [(k, a)]
  | (k', a') :: r =>
      if k < k' then (k, a) :: (k', a') :: r
      else if k = k' then (k, a) :: r
      else (k', a') :: insert k a r

theorem mem_insert {k : κ} {a : α} {l : List (κ × α)} {e : κ × α}
    (h : e ∈ insert k a l) : e = (k, a) ∨ e ∈ l := by
  induction l with
  | nil => simpa [insert] using h
  | cons x r ih =>
      simp only [insert] at h
      split at h
      · simpa using h
      · split at h
        · rcases List.mem_cons.mp h with h | h
          · exact Or.inl h
          · exact Or.inr (List.mem_cons_of_mem _ h)
        · rcases List.mem_cons.mp h with h | h
          · exact Or.inr (by simp [h])
          · rcases ih h with h | h
            · exact Or.inl h
            · exact Or.inr (List.mem_cons_of_mem _ h)

theorem find_insert {k k' : κ} {a : α} {l : List (κ × α)} :
    find k' (insert k a l) = if k' = k then some a else find k' l := by
  induction l with
  | nil => simp [insert, find]
  | cons x r ih =>
      simp only [insert]
      split
      · simp only [find]
      · split
        · rename_i heq
          subst heq
          simp only [find]
          split <;> rfl
        · rename_i hne
          simp only [find, ih]
          split
          · rename_i hx
            rw [if_neg (by rw [hx]; exact fun h => hne h.symm)]
          · rfl

end Insertion

variable [LE κ] [LT κ] [Std.LawfulOrderLT κ]

theorem find_eq_none_of_lt {k : κ} {l : List (κ × α)}
    (h : ∀ e ∈ l, k < e.1) : find k l = none := by
  induction l with
  | nil => rfl
  | cons x r ih =>
      have hx : k < x.1 := h x (List.mem_cons_self ..)
      have hne : k ≠ x.1 := fun he => Std.lt_irrefl (a := k) (by rw [← he] at hx; exact hx)
      simp only [find, if_neg hne]
      exact ih (fun e he => h e (List.mem_cons_of_mem _ he))

theorem find_eq_some_iff {k : κ} {a : α} {l : List (κ × α)}
    (h : l.Pairwise (fun x y => x.1 < y.1)) : find k l = some a ↔ (k, a) ∈ l := by
  induction l with
  | nil => simp [find]
  | cons x r ih =>
      obtain ⟨hx, hr⟩ := List.pairwise_cons.mp h
      simp only [find]
      split
      · rename_i heq
        subst heq
        constructor
        · intro he
          cases he
          exact List.mem_cons_self ..
        · intro he
          rcases List.mem_cons.mp he with he | he
          · rw [← he]
          · exact absurd (hx _ he) Std.lt_irrefl
      · rename_i hne
        rw [ih hr]
        constructor
        · exact fun he => List.mem_cons_of_mem _ he
        · intro he
          rcases List.mem_cons.mp he with he | he
          · exact absurd (congrArg Prod.fst he) hne
          · exact he

variable [Std.IsLinearOrder κ]

theorem ext_find : ∀ {l m : List (κ × α)},
    l.Pairwise (fun x y => x.1 < y.1) → m.Pairwise (fun x y => x.1 < y.1) →
      (∀ k, find k l = find k m) → l = m := by
  intro l
  induction l with
  | nil =>
      intro m _ hm h
      cases m with
      | nil => rfl
      | cons y s =>
          have := h y.1
          simp [find] at this
  | cons x r ih =>
      intro m hl hm h
      obtain ⟨hx, hr⟩ := List.pairwise_cons.mp hl
      cases m with
      | nil =>
          have := h x.1
          simp [find] at this
      | cons y s =>
          obtain ⟨hy, hs⟩ := List.pairwise_cons.mp hm
          have hxm : (x.1, x.2) ∈ y :: s :=
            (find_eq_some_iff hm).mp (by rw [← h x.1]; simp [find])
          have hym : (y.1, y.2) ∈ x :: r :=
            (find_eq_some_iff hl).mp (by rw [h y.1]; simp [find])
          have hxy : x = y := by
            rcases List.mem_cons.mp hxm with he | he
            · exact he
            · rcases List.mem_cons.mp hym with he' | he'
              · exact he'.symm
              · exact absurd (Std.lt_trans (hy _ he) (hx _ he')) Std.lt_irrefl
          subst hxy
          congr 1
          refine ih hr hs (fun k => ?_)
          by_cases hk : k = x.1
          · subst hk
            rw [find_eq_none_of_lt hx, find_eq_none_of_lt hy]
          · have := h k
            simpa only [find, if_neg hk] using this

theorem insert_ascending [DecidableLT κ] {k : κ} {a : α} {l : List (κ × α)}
    (h : l.Pairwise (fun x y => x.1 < y.1)) : (insert k a l).Pairwise (fun x y => x.1 < y.1) := by
  induction l with
  | nil => simp [insert]
  | cons x r ih =>
      obtain ⟨hx, hr⟩ := List.pairwise_cons.mp h
      simp only [insert]
      split
      · rename_i hlt
        refine List.pairwise_cons.mpr ⟨?_, h⟩
        intro e he
        rcases List.mem_cons.mp he with rfl | he
        · exact hlt
        · exact Std.lt_trans hlt (hx e he)
      · rename_i hlt
        split
        · rename_i heq
          refine List.pairwise_cons.mpr ⟨?_, hr⟩
          intro e he
          exact heq ▸ hx e he
        · rename_i hne
          refine List.pairwise_cons.mpr ⟨?_, ih hr⟩
          intro e he
          rcases mem_insert he with rfl | he
          · exact Std.lt_of_le_of_ne (Std.not_lt.mp hlt) (Ne.symm hne)
          · exact hx e he

end Entries

namespace SortedMap

variable {κ : Type w} {α : Type u} {β : Type v} [LT κ]

theorem ext_entries {m m' : SortedMap κ α} (h : m.entries = m'.entries) : m = m' := by
  cases m
  cases m'
  cases h
  rfl

protected def empty : SortedMap κ α := ⟨[], List.Pairwise.nil⟩

instance : EmptyCollection (SortedMap κ α) := ⟨SortedMap.empty⟩

instance : Inhabited (SortedMap κ α) := ⟨∅⟩

def keys (m : SortedMap κ α) : List κ := m.entries.map (·.1)

def values (m : SortedMap κ α) : List α := m.entries.map (·.2)

def size (m : SortedMap κ α) : Nat := m.entries.length

def isEmpty (m : SortedMap κ α) : Bool := m.entries.isEmpty

def filter (m : SortedMap κ α) (p : κ → α → Bool) : SortedMap κ α :=
  ⟨m.entries.filter (fun e => p e.1 e.2), m.ascending.filter _⟩

def mapValues (m : SortedMap κ α) (f : κ → α → β) : SortedMap κ β :=
  ⟨m.entries.map (fun e => (e.1, f e.1 e.2)),
   List.pairwise_map.mpr (m.ascending.imp (fun h => h))⟩

theorem nodup_keys [LE κ] [Std.LawfulOrderLT κ] (m : SortedMap κ α) : m.keys.Nodup := by
  refine List.pairwise_map.mpr (m.ascending.imp ?_)
  intro a b h he
  exact Std.lt_irrefl (he ▸ h)

variable [DecidableEq κ]

def get? (m : SortedMap κ α) (k : κ) : Option α := Entries.find k m.entries

def contains (m : SortedMap κ α) (k : κ) : Bool := (m.get? k).isSome

def erase (m : SortedMap κ α) (k : κ) : SortedMap κ α :=
  m.filter (fun k' _ => !decide (k' = k))

@[simp, grind =] theorem get?_mapValues (m : SortedMap κ α) (f : κ → α → β) (k : κ) :
    (m.mapValues f).get? k = (m.get? k).map (f k) := by
  obtain ⟨l, hl⟩ := m
  simp only [get?, mapValues]
  clear hl
  induction l with
  | nil => rfl
  | cons x r ih =>
      simp only [List.map_cons, Entries.find]
      split
      · rename_i h
        subst h
        rfl
      · exact ih

@[simp] theorem get?_empty (k : κ) : (∅ : SortedMap κ α).get? k = none := rfl

section Ordered

variable [LE κ] [Std.LawfulOrderLT κ]

theorem mem_entries_iff {m : SortedMap κ α} {k : κ} {a : α} :
    (k, a) ∈ m.entries ↔ m.get? k = some a :=
  (Entries.find_eq_some_iff m.ascending).symm

theorem mem_keys_iff {m : SortedMap κ α} {k : κ} : k ∈ m.keys ↔ (m.get? k).isSome := by
  simp only [keys, List.mem_map, Option.isSome_iff_exists]
  constructor
  · rintro ⟨e, he, rfl⟩
    exact ⟨e.2, mem_entries_iff.mp he⟩
  · rintro ⟨a, ha⟩
    exact ⟨(k, a), mem_entries_iff.mpr ha, rfl⟩

@[simp, grind =] theorem get?_filter (m : SortedMap κ α) (p : κ → α → Bool) (k : κ) :
    (m.filter p).get? k = (m.get? k).filter (p k) := by
  cases h : m.get? k with
  | none =>
      cases h' : (m.filter p).get? k with
      | none => rfl
      | some a =>
          have hm := (List.mem_filter.mp (mem_entries_iff.mpr h')).1
          rw [mem_entries_iff.mp hm] at h
          cases h
  | some a =>
      cases hp : p k a with
      | true =>
          simp only [Option.filter, hp, if_true]
          exact mem_entries_iff.mp (List.mem_filter.mpr ⟨mem_entries_iff.mpr h, hp⟩)
      | false =>
          simp only [Option.filter, hp, Bool.false_eq_true, if_false]
          cases h' : (m.filter p).get? k with
          | none => rfl
          | some b =>
              obtain ⟨hm, hb⟩ := List.mem_filter.mp (mem_entries_iff.mpr h')
              rw [mem_entries_iff.mp hm] at h
              cases h
              simp [hp] at hb

@[simp, grind =] theorem get?_erase (m : SortedMap κ α) (k k' : κ) :
    (m.erase k).get? k' = if k' = k then none else m.get? k' := by
  rw [erase, get?_filter]
  cases m.get? k' with
  | none => simp
  | some a => by_cases h : k' = k <;> simp [Option.filter, h]

theorem ext_get? [Std.IsLinearOrder κ] {m m' : SortedMap κ α}
    (h : ∀ k, m.get? k = m'.get? k) : m = m' :=
  ext_entries (Entries.ext_find m.ascending m'.ascending h)

end Ordered

variable [LE κ] [DecidableLT κ] [Std.IsLinearOrder κ] [Std.LawfulOrderLT κ]

def insert (m : SortedMap κ α) (k : κ) (a : α) : SortedMap κ α :=
  ⟨Entries.insert k a m.entries, Entries.insert_ascending m.ascending⟩

def ofList (l : List (κ × α)) : SortedMap κ α :=
  l.foldl (fun m e => m.insert e.1 e.2) ∅

def unionWith (f : α → α → α) (m m' : SortedMap κ α) : SortedMap κ α :=
  m'.entries.foldl (fun acc e =>
    acc.insert e.1 (match acc.get? e.1 with
      | none => e.2
      | some a => f a e.2)) m

@[simp, grind =] theorem get?_insert (m : SortedMap κ α) (k k' : κ) (a : α) :
    (m.insert k a).get? k' = if k' = k then some a else m.get? k' :=
  Entries.find_insert

theorem get?_foldl_insert (l : List (κ × α)) (m : SortedMap κ α) (k : κ) :
    (l.foldl (fun m e => m.insert e.1 e.2) m).get? k =
      ((l.reverse.find? (fun e => decide (k = e.1))).map Prod.snd).or (m.get? k) := by
  induction l generalizing m with
  | nil => simp
  | cons e l ih =>
      rw [List.foldl_cons, ih, get?_insert, List.reverse_cons, List.find?_append]
      cases l.reverse.find? (fun e => decide (k = e.1)) <;> by_cases hk : k = e.1 <;> simp [hk]

@[simp] theorem get?_ofList (l : List (κ × α)) (k : κ) :
    (ofList l).get? k = (l.reverse.find? (fun e => decide (k = e.1))).map Prod.snd := by
  simp [ofList, get?_foldl_insert]

theorem find_foldl_union (f : α → α → α) (k : κ) : ∀ (l : List (κ × α)) (acc : SortedMap κ α),
    l.Pairwise (fun x y => x.1 < y.1) →
      (l.foldl (fun acc e =>
        acc.insert e.1 (match acc.get? e.1 with
          | none => e.2
          | some a => f a e.2)) acc).get? k =
      match Entries.find k l with
      | none => acc.get? k
      | some b => some (match acc.get? k with
        | none => b
        | some a => f a b) := by
  intro l
  induction l with
  | nil => intro acc _; rfl
  | cons x r ih =>
      intro acc h
      obtain ⟨hx, hr⟩ := List.pairwise_cons.mp h
      rw [List.foldl_cons, ih _ hr]
      simp only [Entries.find]
      by_cases hk : k = x.1
      · subst hk
        simp [Entries.find_eq_none_of_lt hx]
      · simp only [if_neg hk, get?_insert]

theorem get?_unionWith (f : α → α → α) (m m' : SortedMap κ α) (k : κ) :
    (unionWith f m m').get? k =
      match m'.get? k with
      | none => m.get? k
      | some b => some (match m.get? k with
        | none => b
        | some a => f a b) :=
  find_foldl_union f k m'.entries m m'.ascending

end SortedMap

end QuorumStore
