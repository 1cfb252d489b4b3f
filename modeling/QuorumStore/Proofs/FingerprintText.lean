import Mathlib.Data.List.Perm.Basic
import QuorumStore.Proofs.DigestDiff
import QuorumStore.Proofs.HashedText

namespace QuorumStore

theorem perm_of_map {α β : Type} {f : α → β} {l l' : List α}
    (hinj : ∀ a ∈ l, ∀ b ∈ l', f a = f b → a = b) (h : (l.map f).Perm (l'.map f)) : l.Perm l' := by
  classical
  induction l generalizing l' with
  | nil => rw [List.map_eq_nil_iff.mp h.symm.eq_nil]
  | cons a l ih =>
    obtain ⟨b, hb, hfb⟩ := List.mem_map.mp (h.subset (List.mem_cons_self ..))
    obtain rfl := hinj a (List.mem_cons_self ..) b hb hfb.symm
    have hl' := List.perm_cons_erase hb
    have hrest := (List.perm_cons _).mp (h.trans (hl'.map f))
    refine ((ih (fun c hc d hd => ?_) hrest).cons a).trans hl'.symm
    exact hinj c (List.mem_cons_of_mem _ hc) d (List.mem_of_mem_erase hd)

namespace Version

variable {names : Set NodeId} {times : Set UInt64} {v w : Version} {vs ws : List Version}

def entryText (e : NodeId × UInt64) : Bytes := utf8 e.1 ++ 0 :: bigEndian64 e.2

def flag (tombstone : Bool) : UInt8 := if tombstone then 1 else 0

def closing (v : Version) : Bytes := bigEndian64 v.timestamp ++ flag v.tombstone :: v.value

theorem message_eq (v : Version) : v.message = v.vector.entries.flatMap entryText ++ v.closing := by
  simp only [message, closing, flag, List.append_assoc, List.singleton_append]
  rfl

def Spells (time : UInt64) (node : NodeId) : Prop :=
  ∃ counter tombstone, bigEndian64 time ++ [flag tombstone] <+: entryText (node, counter)

structure Within (names : Set NodeId) (times : Set UInt64) (v : Version) : Prop where
  names : ∀ e ∈ v.vector.entries, e.1 ∈ names
  time : v.timestamp ∈ times

theorem spells_of_begins {e : NodeId × UInt64} (h : entryText e <+: v.closing) :
    Spells v.timestamp e.1 := by
  refine ⟨e.2, v.tombstone, List.prefix_of_prefix_length_le ⟨v.value, ?_⟩ h ?_⟩
  · rw [List.append_assoc]
    rfl
  · simp only [entryText, List.length_append, List.length_cons, List.length_nil, bigEndian64_length]
    omega

theorem closing_injective (h : v.closing = w.closing) :
    v.timestamp = w.timestamp ∧ v.tombstone = w.tombstone ∧ v.value = w.value := by
  obtain ⟨htime, hrest⟩ := List.append_inj h rfl
  obtain ⟨hflag, hvalue⟩ := List.cons.inj hrest
  refine ⟨bigEndian64_injective htime, ?_, hvalue⟩
  revert hflag
  cases v.tombstone <;> cases w.tombstone <;> decide

theorem selfDelimiting_entryText (hparted : Parted names) :
    SelfDelimiting (fun e => e.1 ∈ names) entryText := by
  intro e e' he he' x y h
  simp only [entryText, List.append_assoc, List.cons_append] at h
  obtain ⟨hname, htail⟩ := hparted.eq_of_terminated he he' h
  obtain ⟨hcounter, hrest⟩ := List.append_inj htail rfl
  exact ⟨Prod.ext hname (bigEndian64_injective hcounter), hrest⟩

theorem message_injective (hparted : Parted names) (hspells : ∀ n ∈ names, ∀ t ∈ times, ¬ Spells t n)
    (hv : v.Within names times) (hw : w.Within names times) (h : v.message = w.message) : v = w := by
  rw [message_eq, message_eq] at h
  rcases (selfDelimiting_entryText hparted).flatMap_append_cases hv.names hw.names h with
    ⟨hentries, hclosing⟩ | ⟨e, he, hbegins⟩ | ⟨e, he, hbegins⟩
  · obtain ⟨htime, htombstone, hvalue⟩ := closing_injective hclosing
    have hvector : v.vector = w.vector := congrArg VersionVector.mk (SortedMap.ext_entries hentries)
    cases v
    cases w
    congr
  · exact absurd (spells_of_begins hbegins) (hspells e.1 he _ hv.time)
  · exact absurd (spells_of_begins hbegins) (hspells e.1 he _ hw.time)

def hashedTexts (vs : List Version) : List Bytes := setMessage vs :: vs.map message

structure Collisionless (vs ws : List Version) : Prop where
  versions : ∀ v ∈ vs, ∀ w ∈ ws, v.fingerprint = w.fingerprint → v.message = w.message
  sets : setFingerprint vs = setFingerprint ws → setMessage vs = setMessage ws

theorem collisionless_of_texts (h : ∀ m ∈ hashedTexts vs ++ hashedTexts ws,
    ∀ m' ∈ hashedTexts vs ++ hashedTexts ws, Sha1.hash m = Sha1.hash m' → m = m') :
    Collisionless vs ws := by
  refine ⟨fun v hv w hw => h _ ?_ _ ?_, h _ ?_ _ ?_⟩
  · exact List.mem_append_left _ (List.mem_cons_of_mem _ (List.mem_map_of_mem hv))
  · exact List.mem_append_right _ (List.mem_cons_of_mem _ (List.mem_map_of_mem hw))
  · exact List.mem_append_left _ (List.mem_cons_self ..)
  · exact List.mem_append_right _ (List.mem_cons_self ..)

theorem fingerprints_perm (h : Collisionless vs ws) (heq : setFingerprint vs = setFingerprint ws) :
    (vs.map fingerprint).Perm (ws.map fingerprint) := by
  have hsorted := Hash.flatMap_bytes_injective (h.sets heq)
  have hws := sortBy_perm Hash.le (ws.map fingerprint)
  rw [← hsorted] at hws
  exact (sortBy_perm _ _).symm.trans hws

theorem setFingerprint_eq_iff_perm (h : Collisionless vs ws)
    (hinj : ∀ v ∈ vs, ∀ w ∈ ws, v.message = w.message → v = w) :
    setFingerprint vs = setFingerprint ws ↔ vs.Perm ws := by
  refine ⟨fun heq => perm_of_map (fun v hv w hw hvw => ?_) (fingerprints_perm h heq),
    setFingerprint_perm⟩
  exact hinj v hv w hw (h.versions v hv w hw hvw)

theorem exists_same_message {node : NodeId} {time : UInt64} (h : Spells time node) :
    ∃ v w : Version, v.message = w.message ∧ v.vector = ∅ ∧ v.timestamp = time ∧
      w.timestamp = time ∧ ∃ counter, w.vector.entries = [(node, counter)] := by
  obtain ⟨counter, tombstone, rest, hrest⟩ := h
  refine ⟨⟨rest ++ bigEndian64 time ++ [0], ∅, time, tombstone⟩,
    ⟨[], ⟨(∅ : SortedMap NodeId UInt64).insert node counter⟩, time, false⟩, ?_, rfl, rfl, rfl, counter, rfl⟩
  have hempty : (∅ : VersionVector).entries = [] := rfl
  have hsingle : VersionVector.entries ⟨(∅ : SortedMap NodeId UInt64).insert node counter⟩ =
      [(node, counter)] := rfl
  rw [message_eq, message_eq, hempty, hsingle, List.flatMap_singleton, ← hrest]
  simp [closing, flag]

theorem setFingerprint_faithful_iff (names : Set NodeId) (hparted : Parted names) (times : Set UInt64) :
    (∀ vs ws : List Version, (∀ v ∈ vs, v.Within names times) → (∀ w ∈ ws, w.Within names times) →
        Collisionless vs ws → (setFingerprint vs = setFingerprint ws ↔ vs.Perm ws)) ↔
      ∀ n ∈ names, ∀ t ∈ times, ¬ Spells t n := by
  constructor
  · intro hfaithful n hn t ht hspells
    obtain ⟨v, w, hmessage, hv, hvt, hwt, counter, hw⟩ := exists_same_message hspells
    have hfingerprint : v.fingerprint = w.fingerprint := congrArg Sha1.hash hmessage
    have hset : setMessage [v] = setMessage [w] := by
      simp only [setMessage, List.map_cons, List.map_nil, hfingerprint]
    have hperm : [v].Perm [w] := by
      refine (hfaithful [v] [w] ?_ ?_ ⟨?_, fun _ => hset⟩).mp (congrArg Sha1.hash hset)
      · refine List.forall_mem_singleton.mpr ⟨?_, hvt ▸ ht⟩
        rw [hv]
        exact List.forall_mem_nil _
      · refine List.forall_mem_singleton.mpr ⟨?_, hwt ▸ ht⟩
        rw [hw]
        exact List.forall_mem_singleton.mpr hn
      · exact List.forall_mem_singleton.mpr (List.forall_mem_singleton.mpr fun _ => hmessage)
    obtain rfl := List.singleton_perm_singleton.mp hperm
    rw [hv] at hw
    exact List.cons_ne_nil _ _ hw.symm
  · intro hspells vs ws hvs hws h
    exact setFingerprint_eq_iff_perm h fun v hv w hw =>
      message_injective hparted hspells (hvs v hv) (hws w hw)

def Plain (v : Version) : Prop := v.Within {n | n ≠ "" ∧ 0 ∉ utf8 n} {t | t.toNat < 2 ^ 56}

theorem parted_plain : Parted {n | n ≠ "" ∧ 0 ∉ utf8 n} := parted_of_zero_not_mem fun _ hn => hn.2

theorem not_spells_plain {node : NodeId} {time : UInt64} (hnode : node ≠ "" ∧ 0 ∉ utf8 node)
    (htime : time.toNat < 2 ^ 56) : ¬ Spells time node := by
  rintro ⟨counter, tombstone, rest, hrest⟩
  cases hbytes : utf8 node with
  | nil => exact hnode.1 (utf8_injective hbytes)
  | cons b bytes =>
    rw [entryText, hbytes] at hrest
    obtain ⟨hfirst, -⟩ := List.cons.inj hrest
    have hzero : (time >>> 56).toUInt8 = 0 := by
      refine UInt8.toNat_inj.mp ?_
      have hshift : (time >>> 56).toNat = 0 := by
        rw [UInt64.toNat_shiftRight, Nat.shiftRight_eq_div_pow]
        exact Nat.div_eq_of_lt htime
      rw [UInt64.toNat_toUInt8, hshift]
      rfl
    refine hnode.2 ?_
    rw [hbytes, ← hzero, hfirst]
    exact List.mem_cons_self ..

end Version

namespace Misread

open Version

def put : Version := .live (utf8 "x") (.ofEntries [("A", 1)]) 1

def removal : Version := .deletion (.ofEntries [("B", 1)]) 2

def laterRemoval : Version := .deletion (.ofEntries [("B", 2)]) 2

theorem later_removal_told_apart : setFingerprint [put, removal] ≠ setFingerprint [laterRemoval, put] := by
  have hput : put.Plain := ⟨by decide +kernel, by decide +kernel⟩
  have hremoval : removal.Plain := ⟨by decide +kernel, by decide +kernel⟩
  have hlater : laterRemoval.Plain := ⟨by decide +kernel, by decide +kernel⟩
  have hcollisionless : Collisionless [put, removal] [laterRemoval, put] :=
    collisionless_of_texts (by decide +kernel)
  have hiff := (setFingerprint_faithful_iff _ parted_plain _).mpr
    (fun _ hn _ ht => not_spells_plain hn ht) [put, removal] [laterRemoval, put]
    (List.forall_mem_cons.mpr ⟨hput, List.forall_mem_singleton.mpr hremoval⟩)
    (List.forall_mem_cons.mpr ⟨hlater, List.forall_mem_singleton.mpr hput⟩) hcollisionless
  exact fun heq => absurd (hiff.mp heq) (by decide +kernel)

def outdated : Version :=
  .live (1 :: bigEndian64 0 ++ 0 :: utf8 "x") (.ofEntries [("A", 1)]) 0x4200000000000000

def current : Version := .live (utf8 "x") (.ofEntries [("A", 1), ("B", 1)]) 0

theorem dominated_version_passes_for_current :
    (∀ m ∈ hashedTexts [outdated] ++ hashedTexts [current],
      ∀ m' ∈ hashedTexts [outdated] ++ hashedTexts [current], Sha1.hash m = Sha1.hash m' → m = m') ∧
    setFingerprint [outdated] = setFingerprint [current] ∧ ¬ [outdated].Perm [current] ∧
    current.vector.compare outdated.vector = .dominates := by
  decide +kernel

end Misread

end QuorumStore
