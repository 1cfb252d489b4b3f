import Mathlib.Data.List.TakeWhile
import QuorumStore.Json.Reader

namespace QuorumStore.Json

section Strings

theorem readPieces_quote (s : Bytes) : readPieces (0x22 :: s) = some ([], s) := by
  rw [readPieces.eq_def]
  rfl

theorem readPieces_letter {e x : UInt8} (he : e ≠ 0x75) (hx : simpleEscape? e = some x) (s : Bytes) :
    readPieces (0x5C :: e :: s) = (readPieces s).map (fun p => (.byte x :: p.1, p.2)) := by
  rw [readPieces.eq_def]
  simp [he, hx]

theorem readPieces_unit {a b c d : UInt8} {n : Nat} (h : codeUnit? a b c d = some n) (s : Bytes) :
    readPieces (0x5C :: 0x75 :: a :: b :: c :: d :: s) =
      (readPieces s).map (fun p => (.unit n :: p.1, p.2)) := by
  rw [readPieces.eq_def]
  simp [h]

theorem readPieces_plain {b : UInt8} (hquote : b ≠ 0x22) (hslash : b ≠ 0x5C) (hcontrol : ¬ b < 0x20)
    (s : Bytes) : readPieces (b :: s) = (readPieces s).map (fun p => (.byte b :: p.1, p.2)) := by
  rw [readPieces.eq_def]
  simp only [if_neg hquote, if_neg hslash, if_neg hcontrol]

theorem codeUnit?_control (b : UInt8) :
    codeUnit? 0x30 0x30 (hexDigit (b >>> 4)) (hexDigit (b &&& 15)) = some b.toNat := by
  have h : ∀ n : Fin 256, codeUnit? 0x30 0x30 (hexDigit (UInt8.ofFin n >>> 4))
      (hexDigit (UInt8.ofFin n &&& 15)) = some (UInt8.ofFin n).toNat := by decide +kernel
  simpa using h b.toFin

theorem codePoint_control {b : UInt8} (h : b < 0x20) : codePoint b.toNat = [b] := by
  have hb : b.toNat < 0x20 := UInt8.lt_iff_toNat_lt.mp h
  rw [codePoint, if_pos (by omega), UInt8.ofNat_toNat]

def Piece.Spells (p : Piece) (b : UInt8) : Prop := p = .byte b ∨ p = .unit b.toNat ∧ b < 0x20

theorem escape_cases (b : UInt8) :
    (∃ e, e ≠ 0x75 ∧ simpleEscape? e = some b ∧ escape b = [0x5C, e]) ∨
    (b < 0x20 ∧
      escape b = [0x5C, 0x75, 0x30, 0x30, hexDigit (b >>> 4), hexDigit (b &&& 15)]) ∨
    (b ≠ 0x22 ∧ b ≠ 0x5C ∧ ¬ b < 0x20 ∧ escape b = [b]) := by
  unfold escape
  split
  · rename_i h
    exact .inl ⟨0x22, by decide, by rw [h]; rfl, rfl⟩
  rename_i hquote
  split
  · rename_i h
    exact .inl ⟨0x5C, by decide, by rw [h]; rfl, rfl⟩
  rename_i hslash
  split
  · rename_i h
    exact .inl ⟨0x62, by decide, by rw [h]; rfl, rfl⟩
  split
  · rename_i h
    exact .inl ⟨0x74, by decide, by rw [h]; rfl, rfl⟩
  split
  · rename_i h
    exact .inl ⟨0x6E, by decide, by rw [h]; rfl, rfl⟩
  split
  · rename_i h
    exact .inl ⟨0x66, by decide, by rw [h]; rfl, rfl⟩
  split
  · rename_i h
    exact .inl ⟨0x72, by decide, by rw [h]; rfl, rfl⟩
  split
  · rename_i hcontrol
    exact .inr (.inl ⟨hcontrol, rfl⟩)
  · rename_i hcontrol
    exact .inr (.inr ⟨hquote, hslash, hcontrol, rfl⟩)

theorem readPieces_escape (b : UInt8) :
    ∃ p : Piece, p.Spells b ∧
      ∀ s, readPieces (escape b ++ s) = (readPieces s).map (fun q => (p :: q.1, q.2)) := by
  rcases escape_cases b with ⟨e, he, hb, h⟩ | ⟨hcontrol, h⟩ | ⟨hquote, hslash, hcontrol, h⟩
  all_goals rw [h]
  · exact ⟨.byte b, .inl rfl, readPieces_letter he hb⟩
  · exact ⟨.unit b.toNat, .inr ⟨rfl, hcontrol⟩, readPieces_unit (codeUnit?_control b)⟩
  · exact ⟨.byte b, .inl rfl, readPieces_plain hquote hslash hcontrol⟩

theorem spell_cons {p : Piece} {b : UInt8} (hp : p.Spells b) (ps : List Piece) :
    spell (p :: ps) = b :: spell ps := by
  rcases hp with rfl | ⟨rfl, hb⟩
  · rw [spell]
  · have hcode := codePoint_control hb
    have hlow : isHighSurrogate b.toNat = false := by
      have : b.toNat < 0x20 := UInt8.lt_iff_toNat_lt.mp hb
      simp only [isHighSurrogate, Bool.and_eq_false_iff, decide_eq_false_iff_not]
      omega
    cases ps with
    | nil => simp only [spell, hcode, List.singleton_append]
    | cons q ps =>
      cases q with
      | byte c => simp only [spell, hcode, List.singleton_append]
      | unit n =>
        rw [spell, hlow, hcode]
        rfl

@[simp] theorem readString_quote (text s : Bytes) :
    readString (text.flatMap escape ++ 0x22 :: s) = some (text, s) := by
  have hpieces : ∃ ps, readPieces (text.flatMap escape ++ 0x22 :: s) = some (ps, s) ∧
      spell ps = text := by
    induction text with
    | nil => exact ⟨[], readPieces_quote s, rfl⟩
    | cons b text ih =>
      obtain ⟨ps, hread, hspell⟩ := ih
      obtain ⟨p, hp, hescape⟩ := readPieces_escape b
      refine ⟨p :: ps, ?_, ?_⟩
      · rw [List.flatMap_cons, List.append_assoc, hescape, hread]
        rfl
      · rw [spell_cons hp, hspell]
  obtain ⟨ps, hread, hspell⟩ := hpieces
  rw [readString, hread, Option.map_some, hspell]

end Strings

section Numbers

def Ends (s : Bytes) : Prop := ∀ b ∈ s.head?, b = 0x2C ∨ b = 0x5D ∨ b = 0x7D

theorem ends_cons {b : UInt8} (h : b = 0x2C ∨ b = 0x5D ∨ b = 0x7D) (s : Bytes) : Ends (b :: s) := by
  intro c hc
  obtain rfl := Option.mem_some.mp hc
  exact h

theorem ends_nil : Ends [] := nofun

structure Numeral (ds : Bytes) : Prop where
  digits : ∀ d ∈ ds, isDigit d = true
  nonempty : ds ≠ []
  leading : ds.head? = some 0x30 → ds.length = 1

theorem digitsOf_append {ds s : Bytes} (hds : ∀ d ∈ ds, isDigit d = true) (hs : Ends s) :
    digitsOf (ds ++ s) = (ds, s) := by
  have hstop : s.takeWhile isDigit = [] ∧ s.dropWhile isDigit = s := by
    cases s with
    | nil => exact ⟨rfl, rfl⟩
    | cons b s =>
      have hb : isDigit b = false := by
        rcases hs b rfl with rfl | rfl | rfl <;> rfl
      simp [hb]
  rw [digitsOf, List.takeWhile_append_of_pos hds, List.dropWhile_append_of_pos hds, hstop.1, hstop.2,
    List.append_nil]

theorem readFraction?_ends {s : Bytes} (hs : Ends s) : readFraction? s = some ([], s) := by
  rw [readFraction?]
  rintro r rfl
  rcases hs 0x2E rfl with h | h | h <;> cases h

theorem readExponent?_ends {s : Bytes} (hs : Ends s) : readExponent? s = some ([], s) := by
  cases s with
  | nil => rfl
  | cons b s =>
    rcases hs b rfl with rfl | rfl | rfl <;> rfl

theorem readNumber_numeral {ds s : Bytes} (hds : Numeral ds) (hs : Ends s) :
    readNumber (ds ++ s) = some (ds, s) := by
  obtain ⟨d, r, rfl⟩ := List.exists_cons_of_ne_nil hds.nonempty
  have hd := hds.digits d (List.mem_cons_self ..)
  have hsign : d ≠ 0x2D := by
    rintro rfl
    cases hd
  have hlead : d = 0x30 → r = [] := fun h => by
    simpa using hds.leading (congrArg some h)
  have hsplit : digitsOf (d :: (r ++ s)) = (d :: r, s) := digitsOf_append hds.digits hs
  simp [readNumber, hsign, hsplit, readFraction?_ends hs, readExponent?_ends hs]
  exact hlead

theorem toNat_toUInt8_of_isDigit {c : Char} (h : c.isDigit = true) :
    c.toUInt8.toNat = c.toNat ∧ isDigit c.toUInt8 = true := by
  simp only [Char.isDigit, Bool.and_eq_true, decide_eq_true_eq] at h
  have hlow : 48 ≤ c.toNat := UInt32.le_iff_toNat_le.mp h.1
  have hhigh : c.toNat ≤ 57 := UInt32.le_iff_toNat_le.mp h.2
  have hnat : c.toUInt8.toNat = c.toNat :=
    Nat.mod_eq_of_lt (show c.toNat < 256 by omega)
  refine ⟨hnat, ?_⟩
  simp only [isDigit, Bool.and_eq_true, decide_eq_true_eq, UInt8.le_iff_toNat_le, hnat]
  exact ⟨hlow, hhigh⟩

def literalOf (n : Nat) : Bytes := (Nat.toDigits 10 n).map (fun c => c.toUInt8)

theorem isDigit_of_mem_literalOf {n : Nat} {b : UInt8} (h : b ∈ literalOf n) : isDigit b = true := by
  obtain ⟨c, hc, rfl⟩ := List.mem_map.mp h
  exact (toNat_toUInt8_of_isDigit
    (Nat.isDigit_of_mem_toDigits (by decide) (by decide) hc)).2

theorem head?_toDigits {n : Nat} (hn : 0 < n) : (Nat.toDigits 10 n).head? ≠ some '0' := by
  induction n using Nat.strongRecOn with
  | ind n ih =>
    rw [Nat.toDigits_eq_if (by decide)]
    split
    · rename_i hlt
      have : ∀ n : Fin 10, 0 < n.val → [n.val.digitChar].head? ≠ some '0' := by decide
      exact this ⟨n, hlt⟩ hn
    · have hne : Nat.toDigits 10 (n / 10) ≠ [] := Nat.toDigits_ne_nil
      obtain ⟨c, r, hcr⟩ := List.exists_cons_of_ne_nil hne
      have h := ih (n / 10) (by omega) (by omega)
      rw [hcr] at h ⊢
      exact h

theorem numeral_literalOf (n : Nat) : Numeral (literalOf n) := by
  refine ⟨fun d hd => isDigit_of_mem_literalOf hd, ?_, ?_⟩
  · simp [literalOf]
  · intro h
    by_cases hn : 0 < n
    · exfalso
      refine head?_toDigits hn ?_
      rw [literalOf, List.head?_map] at h
      obtain ⟨c, hc, hzero⟩ := Option.map_eq_some_iff.mp h
      rw [hc]
      have hdigit := Nat.isDigit_of_mem_toDigits (by decide) (by decide) (List.mem_of_head? hc)
      have hnat := (toNat_toUInt8_of_isDigit hdigit).1
      rw [hzero] at hnat
      rw [← Char.ofNat_toNat c, ← hnat]
      rfl
    · obtain rfl : n = 0 := by omega
      rfl

theorem foldl_literalOf (n : Nat) :
    (literalOf n).foldl (fun n b => 10 * n + (b.toNat - 0x30)) 0 = n := by
  have hfold : ∀ (cs : List Char) (acc : Nat), (∀ c ∈ cs, c.isDigit = true) →
      (cs.map (fun c => c.toUInt8)).foldl (fun n b => 10 * n + (b.toNat - 0x30)) acc =
        Nat.ofDigitChars 10 cs acc := by
    intro cs
    induction cs with
    | nil => exact fun _ _ => rfl
    | cons c cs ih =>
      intro acc h
      have hc := (toNat_toUInt8_of_isDigit (h c (List.mem_cons_self ..))).1
      rw [List.map_cons, List.foldl_cons, ih _ (fun d hd => h d (List.mem_cons_of_mem _ hd)), hc]
      rfl
  rw [literalOf, hfold _ _ fun c hc => Nat.isDigit_of_mem_toDigits (by decide) (by decide) hc]
  exact Nat.ofDigitChars_ten_toDigits

theorem natBelow?_ofNat {n bound : Nat} (h : n < bound) : (ofNat n).natBelow? bound = some n := by
  have hall : (literalOf n).all isDigit = true :=
    List.all_eq_true.mpr fun b hb => isDigit_of_mem_literalOf hb
  have hfold := foldl_literalOf n
  simp only [literalOf] at hall hfold
  simp only [ofNat, natBelow?, hall, if_true, hfold, if_pos h]

theorem lt_of_natBelow? {j : Json} {n bound : Nat} (h : j.natBelow? bound = some n) : n < bound := by
  cases j with
  | number literal =>
    simp only [natBelow?] at h
    split at h
    · split at h
      · rename_i hlt
        cases h
        exact hlt
      · cases h
    · cases h
  | _ => cases h

@[simp] theorem uint64?_ofNat (w : UInt64) : (ofNat w.toNat).uint64? = some w := by
  rw [uint64?, natBelow?_ofNat w.toNat_lt_size, Option.map_some, UInt64.ofNat_toNat]

theorem byte?_ofNat (b : UInt8) : (ofNat b.toNat).byte? = some b := by
  rw [byte?, natBelow?_ofNat b.toNat_lt_size, Option.map_some, UInt8.ofNat_toNat]

end Numbers

section Values

structure Legible (j : Json) : Prop where
  start : ∃ b r, j.render = b :: r ∧ isBlank b = false ∧ b ≠ 0x5D
  reads : ∀ fuel s, j.render.length < fuel → Ends s → readValue fuel (j.render ++ s) = some (j, s)

theorem skipBlanks_cons {b : UInt8} (hb : isBlank b = false) (s : Bytes) :
    skipBlanks (b :: s) = b :: s := by
  rw [skipBlanks, List.dropWhile_cons_of_neg (by simp [hb])]

theorem Legible.skipBlanks {j : Json} (h : Legible j) (s : Bytes) :
    Json.skipBlanks (j.render ++ s) = j.render ++ s := by
  obtain ⟨b, r, hr, hb, -⟩ := h.start
  rw [hr, List.cons_append, skipBlanks_cons hb]

theorem legible_numeral {ds : Bytes} (hds : Numeral ds) : Legible (.number ds) := by
  obtain ⟨d, r, rfl⟩ := List.exists_cons_of_ne_nil hds.nonempty
  have hd := hds.digits d (List.mem_cons_self ..)
  simp only [isDigit, Bool.and_eq_true, decide_eq_true_eq, UInt8.le_iff_toNat_le] at hd
  have hlow : 48 ≤ d.toNat := hd.1
  have hhigh : d.toNat ≤ 57 := hd.2
  have hne : ∀ b : UInt8, b.toNat < 48 ∨ 57 < b.toNat → d ≠ b := by
    rintro b hb rfl
    omega
  have hblank : isBlank d = false := by
    simp [isBlank, hne 0x20 (by decide), hne 0x09 (by decide), hne 0x0A (by decide),
      hne 0x0D (by decide)]
  refine ⟨⟨d, r, rfl, hblank, hne 0x5D (by decide)⟩, ?_⟩
  intro fuel s hfuel hs
  obtain ⟨fuel, rfl⟩ := Nat.exists_eq_succ_of_ne_zero (Nat.ne_of_gt (Nat.zero_lt_of_lt hfuel))
  have hread : readNumber (d :: (r ++ s)) = some (d :: r, s) := readNumber_numeral hds hs
  simp only [render, readValue, List.cons_append, skipBlanks_cons hblank,
    if_neg (hne 0x22 (by decide)), if_neg (hne 0x5B (by decide)), if_neg (hne 0x7B (by decide)),
    if_neg (hne 0x6E (by decide)), if_neg (hne 0x74 (by decide)), if_neg (hne 0x66 (by decide)),
    hread, Option.map_some]

theorem legible_ofNat (n : Nat) : Legible (ofNat n) := legible_numeral (numeral_literalOf n)

theorem quote_append (text s : Bytes) :
    quote text ++ s = 0x22 :: (text.flatMap escape ++ 0x22 :: s) := by
  simp [quote]

theorem legible_string (text : Bytes) : Legible (.string text) := by
  refine ⟨⟨0x22, _, rfl, rfl, by decide⟩, ?_⟩
  intro fuel s hfuel _
  obtain ⟨fuel, rfl⟩ := Nat.exists_eq_succ_of_ne_zero (Nat.ne_of_gt (Nat.zero_lt_of_lt hfuel))
  have hrender : (string text).render ++ s = 0x22 :: (text.flatMap escape ++ 0x22 :: s) :=
    quote_append text s
  rw [hrender, readValue, skipBlanks_cons rfl]
  simp only [if_true, readString_quote, Option.map_some]

theorem legible_bool (b : Bool) : Legible (.bool b) := by
  refine ⟨?_, ?_⟩
  · cases b
    · exact ⟨0x66, _, rfl, rfl, by decide⟩
    · exact ⟨0x74, _, rfl, rfl, by decide⟩
  · intro fuel s hfuel _
    obtain ⟨fuel, rfl⟩ := Nat.exists_eq_succ_of_ne_zero (Nat.ne_of_gt (Nat.zero_lt_of_lt hfuel))
    cases b
    · simp [render, readValue, skipBlanks_cons, isBlank, after?]
    · simp [render, readValue, skipBlanks_cons, isBlank, after?]

theorem ends_renderItems (js : List Json) (s : Bytes) : Ends (renderItems js ++ 0x5D :: s) := by
  cases js with
  | nil => exact ends_cons (.inr (.inl rfl)) s
  | cons j js => exact ends_cons (.inl rfl) _

theorem readItems_render {j : Json} {js : List Json} (hj : Legible j) (hjs : ∀ i ∈ js, Legible i)
    {fuel : Nat} (hfuel : (j.render ++ renderItems js).length + 1 < fuel) (s : Bytes) :
    readItems fuel (j.render ++ (renderItems js ++ 0x5D :: s)) = some (j :: js, s) := by
  induction js generalizing j fuel with
  | nil =>
    obtain ⟨fuel, rfl⟩ := Nat.exists_eq_succ_of_ne_zero (Nat.ne_of_gt (Nat.zero_lt_of_lt hfuel))
    rw [List.length_append] at hfuel
    rw [readItems, hj.reads fuel _ (by omega) (ends_renderItems [] s)]
    rfl
  | cons i js ih =>
    obtain ⟨fuel, rfl⟩ := Nat.exists_eq_succ_of_ne_zero (Nat.ne_of_gt (Nat.zero_lt_of_lt hfuel))
    have hlater : (i.render ++ renderItems js).length + 1 < fuel := by
      simp only [renderItems, List.length_append, List.length_cons] at hfuel ⊢
      omega
    have hrest : renderItems (i :: js) ++ 0x5D :: s =
        0x2C :: (i.render ++ (renderItems js ++ 0x5D :: s)) := by
      simp [renderItems]
    rw [List.length_append] at hfuel
    rw [readItems, hj.reads fuel _ (by omega) (ends_renderItems (i :: js) s), hrest]
    simp only [skipBlanks_cons (b := 0x2C) rfl, ih (hjs i (List.mem_cons_self ..))
      (fun k hk => hjs k (List.mem_cons_of_mem _ hk)) hlater, Option.map_some]

theorem legible_array {js : List Json} (hjs : ∀ j ∈ js, Legible j) : Legible (.array js) := by
  cases js with
  | nil =>
    refine ⟨⟨0x5B, _, rfl, rfl, by decide⟩, ?_⟩
    intro fuel s hfuel _
    obtain ⟨fuel, rfl⟩ := Nat.exists_eq_succ_of_ne_zero (Nat.ne_of_gt (Nat.zero_lt_of_lt hfuel))
    rfl
  | cons j js =>
    have hj := hjs j (List.mem_cons_self ..)
    refine ⟨⟨0x5B, _, rfl, rfl, by decide⟩, ?_⟩
    intro fuel s hfuel _
    obtain ⟨fuel, rfl⟩ := Nat.exists_eq_succ_of_ne_zero (Nat.ne_of_gt (Nat.zero_lt_of_lt hfuel))
    have hrender : (array (j :: js)).render ++ s =
        0x5B :: (j.render ++ (renderItems js ++ 0x5D :: s)) := by
      simp [render]
    have hlater : (j.render ++ renderItems js).length + 1 < fuel := by
      simp only [render, List.length_append, List.length_cons] at hfuel ⊢
      omega
    have hitems := readItems_render hj (fun i hi => hjs i (List.mem_cons_of_mem _ hi)) hlater s
    obtain ⟨b, r, hr, -, hclose⟩ := hj.start
    rw [hrender, readValue, skipBlanks_cons rfl]
    dsimp only
    rw [if_neg (by decide), if_pos rfl, hj.skipBlanks]
    split
    · rename_i heq
      rw [hr] at heq
      exact absurd (List.cons.inj heq).1 hclose
    · rw [hitems]
      rfl

theorem ends_renderMembers (ms : List (Bytes × Json)) (s : Bytes) :
    Ends (renderMembers ms ++ 0x7D :: s) := by
  cases ms with
  | nil => exact ends_cons (.inr (.inr rfl)) s
  | cons m ms => exact ends_cons (.inl rfl) _

theorem readMembers_render (name : Bytes) {j : Json} {ms : List (Bytes × Json)} (hj : Legible j)
    (hms : ∀ m ∈ ms, Legible m.2) {fuel : Nat}
    (hfuel : (j.render ++ renderMembers ms).length + 1 < fuel) (s : Bytes) :
    readMembers fuel (quote name ++ 0x3A :: (j.render ++ (renderMembers ms ++ 0x7D :: s))) =
      some ((name, j) :: ms, s) := by
  induction ms generalizing name j fuel with
  | nil =>
    obtain ⟨fuel, rfl⟩ := Nat.exists_eq_succ_of_ne_zero (Nat.ne_of_gt (Nat.zero_lt_of_lt hfuel))
    rw [List.length_append] at hfuel
    have hvalue := hj.reads fuel _ (by omega) (ends_renderMembers [] s)
    rw [quote_append, readMembers, skipBlanks_cons rfl]
    simp only [readString_quote, skipBlanks_cons (b := 0x3A) rfl, hvalue]
    rfl
  | cons m ms ih =>
    obtain ⟨fuel, rfl⟩ := Nat.exists_eq_succ_of_ne_zero (Nat.ne_of_gt (Nat.zero_lt_of_lt hfuel))
    have hlater : (m.2.render ++ renderMembers ms).length + 1 < fuel := by
      simp only [renderMembers, List.length_append, List.length_cons] at hfuel ⊢
      omega
    have hrest : renderMembers (m :: ms) ++ 0x7D :: s =
        0x2C :: (quote m.1 ++ 0x3A :: (m.2.render ++ (renderMembers ms ++ 0x7D :: s))) := by
      simp [renderMembers]
    rw [List.length_append] at hfuel
    have hvalue := hj.reads fuel _ (by omega) (ends_renderMembers (m :: ms) s)
    have hmembers := ih m.1 (hms m (List.mem_cons_self ..))
      (fun k hk => hms k (List.mem_cons_of_mem _ hk)) hlater
    rw [hrest] at hvalue ⊢
    rw [quote_append, readMembers, skipBlanks_cons rfl]
    simp only [readString_quote, skipBlanks_cons (b := 0x3A) rfl, skipBlanks_cons (b := 0x2C) rfl,
      hvalue, hmembers, Option.map_some]

theorem legible_object {ms : List (Bytes × Json)} (hms : ∀ m ∈ ms, Legible m.2) :
    Legible (.object ms) := by
  cases ms with
  | nil =>
    refine ⟨⟨0x7B, _, rfl, rfl, by decide⟩, ?_⟩
    intro fuel s hfuel _
    obtain ⟨fuel, rfl⟩ := Nat.exists_eq_succ_of_ne_zero (Nat.ne_of_gt (Nat.zero_lt_of_lt hfuel))
    rfl
  | cons m ms =>
    refine ⟨⟨0x7B, _, rfl, rfl, by decide⟩, ?_⟩
    intro fuel s hfuel _
    obtain ⟨fuel, rfl⟩ := Nat.exists_eq_succ_of_ne_zero (Nat.ne_of_gt (Nat.zero_lt_of_lt hfuel))
    have hrender : (object (m :: ms)).render ++ s =
        0x7B :: (quote m.1 ++ 0x3A :: (m.2.render ++ (renderMembers ms ++ 0x7D :: s))) := by
      simp [render]
    have hlater : (m.2.render ++ renderMembers ms).length + 1 < fuel := by
      simp only [render, List.length_append, List.length_cons] at hfuel ⊢
      omega
    have hmembers := readMembers_render m.1 (hms m (List.mem_cons_self ..))
      (fun k hk => hms k (List.mem_cons_of_mem _ hk)) hlater s
    have hquote : skipBlanks (quote m.1 ++ 0x3A :: (m.2.render ++ (renderMembers ms ++ 0x7D :: s))) =
        quote m.1 ++ 0x3A :: (m.2.render ++ (renderMembers ms ++ 0x7D :: s)) :=
      skipBlanks_cons rfl _
    rw [hrender, readValue, skipBlanks_cons rfl]
    dsimp only
    rw [if_neg (by decide), if_neg (by decide), if_pos rfl, hquote]
    split
    · rename_i heq
      exact absurd (List.cons.inj heq).1 (by decide)
    · rw [hmembers]
      rfl

theorem parse?_render {j : Json} (h : Legible j) : parse? j.render = some j := by
  have hread := h.reads (2 * j.render.length + 2) [] (by omega) ends_nil
  rw [List.append_nil] at hread
  rw [parse?, hread]
  rfl

end Values

end QuorumStore.Json
