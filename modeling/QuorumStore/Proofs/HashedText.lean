import Mathlib.Data.Set.Defs
import QuorumStore.Proofs.LogFrames
import QuorumStore.Hash.Sha1

namespace QuorumStore

theorem bigEndian64_injective {v w : UInt64} (h : bigEndian64 v = bigEndian64 w) : v = w := by
  have hshift : ∀ (u k : UInt64), k.toNat < 64 → (u >>> k).toUInt8.toNat = u.toNat / 2 ^ k.toNat % 256 := by
    intro u k hk
    rw [UInt64.toNat_toUInt8, UInt64.toNat_shiftRight, Nat.mod_eq_of_lt hk, Nat.shiftRight_eq_div_pow]
  have hv := v.toNat_lt
  have hw := w.toNat_lt
  refine UInt64.toNat_inj.mp ?_
  have hbytes := congrArg (List.map UInt8.toNat) h
  simp only [bigEndian64, List.map_cons, List.map_nil, List.cons.injEq, hshift _ 56 (by decide),
    hshift _ 48 (by decide), hshift _ 40 (by decide), hshift _ 32 (by decide), hshift _ 24 (by decide),
    hshift _ 16 (by decide), hshift _ 8 (by decide), UInt64.toNat_toUInt8, UInt64.reduceToNat,
    Nat.reducePow, and_true] at hbytes
  omega

def SelfDelimiting {α : Type} (p : α → Prop) (text : α → Bytes) : Prop :=
  ∀ a b, p a → p b → ∀ x y, text a ++ x = text b ++ y → a = b ∧ x = y

namespace SelfDelimiting

variable {α : Type} {p : α → Prop} {text : α → Bytes} {as bs : List α}

theorem flatMap_append_cases (h : SelfDelimiting p text) (has : ∀ a ∈ as, p a) (hbs : ∀ b ∈ bs, p b)
    {x y : Bytes} (heq : as.flatMap text ++ x = bs.flatMap text ++ y) :
    (as = bs ∧ x = y) ∨ (∃ b, p b ∧ text b <+: x) ∨ ∃ a, p a ∧ text a <+: y := by
  induction as generalizing bs with
  | nil =>
    cases bs with
    | nil => exact .inl ⟨rfl, heq⟩
    | cons b bs =>
      refine .inr (.inl ⟨b, hbs b (List.mem_cons_self ..), bs.flatMap text ++ y, ?_⟩)
      rw [← List.append_assoc]
      exact heq.symm
  | cons a as ih =>
    cases bs with
    | nil =>
      refine .inr (.inr ⟨a, has a (List.mem_cons_self ..), as.flatMap text ++ x, ?_⟩)
      rw [← List.append_assoc]
      exact heq
    | cons b bs =>
      simp only [List.flatMap_cons, List.append_assoc] at heq
      obtain ⟨hab, hrest⟩ := h a b (has a (List.mem_cons_self ..)) (hbs b (List.mem_cons_self ..)) _ _ heq
      rcases ih (fun d hd => has d (List.mem_cons_of_mem _ hd))
        (fun d hd => hbs d (List.mem_cons_of_mem _ hd)) hrest with ⟨has, hxy⟩ | hbegins
      · exact .inl ⟨by rw [hab, has], hxy⟩
      · exact .inr hbegins

theorem flatMap_injective (h : SelfDelimiting p text) (hne : ∀ a, text a ≠ []) (has : ∀ a ∈ as, p a)
    (hbs : ∀ b ∈ bs, p b) (heq : as.flatMap text = bs.flatMap text) : as = bs := by
  rcases h.flatMap_append_cases has hbs (congrArg (· ++ []) heq) with
    ⟨hlists, -⟩ | ⟨b, -, hbegins⟩ | ⟨a, -, hbegins⟩
  · exact hlists
  · exact absurd (List.prefix_nil.mp hbegins) (hne b)
  · exact absurd (List.prefix_nil.mp hbegins) (hne a)

end SelfDelimiting

theorem Hash.ofBytes?_bytes (h : Hash) : ofBytes? h.bytes = some h := by
  simp only [bytes, words, bigEndian32, List.flatMap_cons, List.flatMap_nil, List.append_nil,
    List.cons_append, List.nil_append, ofBytes?, word32_littleEndian32]

theorem Hash.bytes_injective {h k : Hash} (heq : h.bytes = k.bytes) : h = k := by
  have := ofBytes?_bytes h
  rw [heq, ofBytes?_bytes] at this
  exact (Option.some.inj this).symm

theorem Hash.selfDelimiting_bytes : SelfDelimiting (fun _ => True) bytes := by
  intro h k _ _ x y heq
  obtain ⟨hbytes, hrest⟩ := List.append_inj heq rfl
  exact ⟨bytes_injective hbytes, hrest⟩

theorem Hash.flatMap_bytes_injective {hs ks : List Hash} (h : hs.flatMap bytes = ks.flatMap bytes) :
    hs = ks :=
  selfDelimiting_bytes.flatMap_injective (fun _ => List.cons_ne_nil _ _) (fun _ _ => trivial)
    (fun _ _ => trivial) h

theorem utf8_ofList (cs : List Char) : utf8 (String.ofList cs) = cs.flatMap String.utf8EncodeChar := by
  rw [utf8, String.toByteArray_ofList, List.utf8Encode, List.data_toByteArray]

theorem zero_mem_utf8EncodeChar {c : Char} : 0 ∈ String.utf8EncodeChar c ↔ c = '\x00' := by
  have hzero : ∀ n, 0 = UInt8.ofNat n ↔ n % 256 = 0 := by
    intro n
    rw [← UInt8.toNat_inj, UInt8.toNat_ofNat']
    exact eq_comm
  have hc : c.val.toNat = 0 ↔ c = '\x00' := by
    rw [Char.ext_iff, ← UInt32.toNat_inj]
    rfl
  rw [← hc, String.utf8EncodeChar]
  split
  · rw [List.mem_singleton, hzero]
    omega
  · split
    · simp only [List.mem_cons, List.not_mem_nil, or_false, hzero]
      omega
    · split
      · simp only [List.mem_cons, List.not_mem_nil, or_false, hzero]
        omega
      · simp only [List.mem_cons, List.not_mem_nil, or_false, hzero]
        omega

theorem zero_mem_utf8 {s : String} : 0 ∈ utf8 s ↔ '\x00' ∈ s.toList := by
  rw [← String.ofList_toList (s := s), utf8_ofList, List.mem_flatMap, String.toList_ofList]
  simp only [zero_mem_utf8EncodeChar, exists_eq_right]

def Parted (names : Set String) : Prop := ∀ s ∈ names, ∀ t ∈ names, ¬ utf8 s ++ [0] <+: utf8 t

theorem parted_of_zero_not_mem {names : Set String} (h : ∀ s ∈ names, 0 ∉ utf8 s) : Parted names := by
  intro s _ t ht hbegins
  exact h t ht (hbegins.subset (List.mem_append_right _ (List.mem_singleton_self _)))

theorem Parted.eq_of_terminated {names : Set String} (h : Parted names) {s t : String} (hs : s ∈ names)
    (ht : t ∈ names) {x y : Bytes} (heq : utf8 s ++ 0 :: x = utf8 t ++ 0 :: y) : s = t ∧ x = y := by
  rcases List.append_eq_append_iff.mp heq with ⟨z, hz, hx⟩ | ⟨z, hz, hy⟩
  · cases z with
    | nil => exact ⟨utf8_injective (by simpa using hz.symm), by simpa using hx⟩
    | cons b z =>
      obtain ⟨rfl, -⟩ := List.cons.inj hx
      exact absurd ⟨z, by rw [hz, List.append_assoc]; rfl⟩ (h s hs t ht)
  · cases z with
    | nil => exact ⟨utf8_injective (by simpa using hz), by simpa using hy.symm⟩
    | cons b z =>
      obtain ⟨rfl, -⟩ := List.cons.inj hy
      exact absurd ⟨z, by rw [hz, List.append_assoc]; rfl⟩ (h t ht s hs)

end QuorumStore
