import QuorumStore.Proofs.JsonText

namespace QuorumStore.Json

variable {s r x : Bytes} {b : UInt8}

theorem skipBlanks_append (h : skipBlanks s = b :: r) (x : Bytes) :
    skipBlanks (s ++ x) = b :: (r ++ x) := by
  rw [skipBlanks] at h
  rw [skipBlanks, List.dropWhile_append, h]
  rfl

theorem after?_append {word : Bytes} (h : after? word s = some r) (x : Bytes) :
    after? word (s ++ x) = some (r ++ x) := by
  induction word generalizing s with
  | nil =>
    obtain rfl := Option.some.inj h
    rfl
  | cons c word ih =>
    cases s with
    | nil => cases h
    | cons b s =>
      rw [after?] at h
      rw [List.cons_append, after?]
      split at h
      · rename_i heq
        rw [if_pos heq, ih h]
      · cases h

theorem readPieces_append {ps : List Piece} (h : readPieces s = some (ps, r)) (x : Bytes) :
    readPieces (s ++ x) = some (ps, r ++ x) := by
  fun_induction readPieces s generalizing ps with
  | case2 r =>
    cases h
    exact readPieces_quote _
  | case5 a b c d r n hunit _ ih =>
    obtain ⟨p, hp, heq⟩ := Option.map_eq_some_iff.mp h
    cases heq
    simp only [List.cons_append]
    rw [readPieces_unit hunit, ih hp]
    rfl
  | case8 e r he c hc _ ih =>
    obtain ⟨p, hp, heq⟩ := Option.map_eq_some_iff.mp h
    cases heq
    simp only [List.cons_append]
    rw [readPieces_letter he hc, ih hp]
    rfl
  | case10 b r hquote hslash hcontrol ih =>
    obtain ⟨p, hp, heq⟩ := Option.map_eq_some_iff.mp h
    cases heq
    rw [List.cons_append, readPieces_plain hquote hslash hcontrol, ih hp]
    rfl
  | _ => cases h

theorem readString_append {text : Bytes} (h : readString s = some (text, r)) (x : Bytes) :
    readString (s ++ x) = some (text, r ++ x) := by
  obtain ⟨p, hp, heq⟩ := Option.map_eq_some_iff.mp h
  cases heq
  rw [readString, readPieces_append hp]
  rfl

theorem digitsOf_append_of_ne_nil (h : (digitsOf s).2 ≠ []) (x : Bytes) :
    digitsOf (s ++ x) = ((digitsOf s).1, (digitsOf s).2 ++ x) := by
  obtain ⟨b, t, hbt⟩ := List.exists_cons_of_ne_nil h
  have hlength : (s.takeWhile isDigit).length ≠ s.length := by
    have hsplit := congrArg List.length (List.takeWhile_append_dropWhile (p := isDigit) (l := s))
    rw [show s.dropWhile isDigit = b :: t from hbt, List.length_append, List.length_cons] at hsplit
    omega
  simp only [digitsOf] at hbt ⊢
  rw [List.takeWhile_append, if_neg hlength, List.dropWhile_append, hbt]
  rfl

theorem readFraction?_append {f : Bytes} (h : readFraction? s = some (f, r)) (hr : r ≠ []) (x : Bytes) :
    s ≠ [] ∧ readFraction? (s ++ x) = some (f, r ++ x) := by
  unfold readFraction? at h
  split at h
  · rename_i t
    dsimp only at h
    split at h
    · cases h
    · rename_i hds
      cases h
      refine ⟨List.cons_ne_nil _ _, ?_⟩
      rw [List.cons_append, readFraction?, digitsOf_append_of_ne_nil hr]
      exact if_neg hds
  · rename_i hpoint
    cases h
    refine ⟨hr, ?_⟩
    obtain ⟨b, t, rfl⟩ := List.exists_cons_of_ne_nil hr
    rw [readFraction?]
    rintro t' heq
    exact hpoint t (by rw [(List.cons.inj heq).1])

theorem readSign_cons (b : UInt8) (s : Bytes) :
    readSign (b :: s) = if b = 0x2B ∨ b = 0x2D then ([b], s) else ([], b :: s) := by
  split
  · rename_i h
    rcases h with rfl | rfl <;> rfl
  · rename_i h
    rw [readSign]
    · rintro t heq
      exact h (.inl (List.cons.inj heq).1)
    · rintro t heq
      exact h (.inr (List.cons.inj heq).1)

theorem readSign_append (h : (readSign s).2 ≠ []) (x : Bytes) :
    readSign (s ++ x) = ((readSign s).1, (readSign s).2 ++ x) := by
  cases s with
  | nil => exact absurd rfl h
  | cons b s =>
    rw [List.cons_append, readSign_cons, readSign_cons]
    split <;> rfl

theorem readExponent?_append {e : Bytes} (h : readExponent? s = some (e, r)) (hr : r ≠ []) (x : Bytes) :
    s ≠ [] ∧ readExponent? (s ++ x) = some (e, r ++ x) := by
  cases s with
  | nil =>
    cases h
    exact absurd rfl hr
  | cons b s =>
    refine ⟨List.cons_ne_nil _ _, ?_⟩
    rw [readExponent?] at h
    rw [List.cons_append, readExponent?]
    split at h
    · rename_i hexponent
      dsimp only at h
      split at h
      · cases h
      · rename_i hds
        cases h
        have hsign : (readSign s).2 ≠ [] := fun hnil => hr (by rw [hnil]; rfl)
        rw [if_pos hexponent, readSign_append hsign]
        dsimp only
        rw [digitsOf_append_of_ne_nil hr]
        exact if_neg hds
    · rename_i hexponent
      cases h
      exact if_neg hexponent

def readUnsigned (sign s : Bytes) : Option (Bytes × Bytes) :=
  if (digitsOf s).1.isEmpty ||
      ((digitsOf s).1.head? = some 0x30 && (digitsOf s).1.length != 1) then none
  else (readFraction? (digitsOf s).2).bind fun f => (readExponent? f.2).bind fun e =>
    some (sign ++ (digitsOf s).1 ++ f.1 ++ e.1, e.2)

theorem readNumber_cons (b : UInt8) (s : Bytes) :
    readNumber (b :: s) = if b = 0x2D then readUnsigned [0x2D] s else readUnsigned [] (b :: s) := by
  split
  · rename_i h
    subst h
    rfl
  · rename_i h
    simp only [readNumber]
    split
    · rename_i heq
      exact absurd (List.cons.inj heq).1 h
    · rfl

theorem readUnsigned_append {sign l : Bytes} (h : readUnsigned sign s = some (l, r)) (hr : r ≠ [])
    (x : Bytes) : readUnsigned sign (s ++ x) = some (l, r ++ x) := by
  rw [readUnsigned] at h
  split at h
  · cases h
  · rename_i hwhole
    obtain ⟨⟨f, t⟩, hfraction, h⟩ := Option.bind_eq_some_iff.mp h
    obtain ⟨⟨e, u⟩, hexponent, h⟩ := Option.bind_eq_some_iff.mp h
    cases h
    obtain ⟨ht, hexponent⟩ := readExponent?_append hexponent hr x
    obtain ⟨hs, hfraction⟩ := readFraction?_append hfraction ht x
    rw [readUnsigned, digitsOf_append_of_ne_nil hs, if_neg hwhole, hfraction, Option.bind_some,
      hexponent]
    rfl

theorem readNumber_append {l : Bytes} (h : readNumber s = some (l, r)) (hr : r ≠ []) (x : Bytes) :
    readNumber (s ++ x) = some (l, r ++ x) := by
  cases s with
  | nil => cases h
  | cons b s =>
    rw [readNumber_cons] at h
    rw [List.cons_append, readNumber_cons]
    split at h
    · rename_i hsign
      rw [if_pos hsign, readUnsigned_append h hr]
    · rename_i hsign
      rw [if_neg hsign]
      exact readUnsigned_append h hr x

theorem readItems_nil (fuel : Nat) : readItems fuel [] = none := by
  match fuel with
  | 0 | 1 | _ + 2 => rfl

theorem readMembers_nil (fuel : Nat) : readMembers fuel [] = none := by
  cases fuel <;> rfl

def readBody (close : UInt8) (empty : Json) (read : Bytes → Option (Json × Bytes)) (s : Bytes) :
    Option (Json × Bytes) :=
  match skipBlanks s with
  | [] => none
  | c :: u => if c = close then some (empty, u) else read (c :: u)

theorem readBody_append {close : UInt8} {empty j : Json} {read read' : Bytes → Option (Json × Bytes)}
    (hread : ∀ {t j r}, read t = some (j, r) → read' (t ++ x) = some (j, r ++ x))
    (h : readBody close empty read s = some (j, r)) :
    readBody close empty read' (s ++ x) = some (j, r ++ x) := by
  unfold readBody at h
  split at h
  · cases h
  · rename_i c u hs
    simp only [readBody, skipBlanks_append hs]
    split at h
    · rename_i hclose
      cases h
      exact if_pos hclose
    · rename_i hclose
      rw [if_neg hclose, ← List.cons_append, hread h]

theorem readValue_array {fuel : Nat} {t : Bytes} (hs : skipBlanks s = 0x5B :: t) :
    readValue (fuel + 1) s =
      readBody 0x5D (.array []) (fun u => (readItems fuel u).map (fun p => (.array p.1, p.2))) t := by
  rw [readValue, hs, readBody]
  dsimp only
  rw [if_neg (by decide), if_pos rfl]
  cases skipBlanks t with
  | nil => simp only [readItems_nil, Option.map_none]
  | cons c u =>
    dsimp only
    split
    · rename_i heq
      obtain ⟨rfl, rfl⟩ := List.cons.inj heq
      rfl
    · rename_i hclose
      rw [if_neg fun hc => hclose u (by rw [hc])]

theorem readValue_object {fuel : Nat} {t : Bytes} (hs : skipBlanks s = 0x7B :: t) :
    readValue (fuel + 1) s =
      readBody 0x7D (.object []) (fun u => (readMembers fuel u).map (fun p => (.object p.1, p.2))) t := by
  rw [readValue, hs, readBody]
  dsimp only
  rw [if_neg (by decide), if_neg (by decide), if_pos rfl]
  cases skipBlanks t with
  | nil => simp only [readMembers_nil, Option.map_none]
  | cons c u =>
    dsimp only
    split
    · rename_i heq
      obtain ⟨rfl, rfl⟩ := List.cons.inj heq
      rfl
    · rename_i hclose
      rw [if_neg fun hc => hclose u (by rw [hc])]

def readPlain (b : UInt8) (r : Bytes) : Option (Json × Bytes) :=
  if b = 0x22 then (readString r).map (fun p => (.string p.1, p.2))
  else if b = 0x6E then (after? [0x75, 0x6C, 0x6C] r).map (fun r => (.null, r))
  else if b = 0x74 then (after? [0x72, 0x75, 0x65] r).map (fun r => (.bool true, r))
  else if b = 0x66 then (after? [0x61, 0x6C, 0x73, 0x65] r).map (fun r => (.bool false, r))
  else (readNumber (b :: r)).map (fun p => (.number p.1, p.2))

theorem readValue_plain {fuel : Nat} {t : Bytes} (hs : skipBlanks s = b :: t) (hbracket : b ≠ 0x5B)
    (hbrace : b ≠ 0x7B) : readValue (fuel + 1) s = readPlain b t := by
  rw [readValue, hs]
  dsimp only
  rw [if_neg hbracket, if_neg hbrace]
  rfl

theorem readPlain_append {j : Json} (h : readPlain b s = some (j, r))
    (hnumber : ∀ l, j = .number l → r ≠ []) (x : Bytes) : readPlain b (s ++ x) = some (j, r ++ x) := by
  have hword : ∀ {word : Bytes} {k : Json}, (after? word s).map (fun r => (k, r)) = some (j, r) →
      (after? word (s ++ x)).map (fun r => (k, r)) = some (j, r ++ x) := by
    intro word k hk
    obtain ⟨p, hp, heq⟩ := Option.map_eq_some_iff.mp hk
    cases heq
    rw [after?_append hp]
    rfl
  unfold readPlain at h ⊢
  split at h
  · rename_i hquote
    obtain ⟨p, hp, heq⟩ := Option.map_eq_some_iff.mp h
    cases heq
    rw [if_pos hquote, readString_append hp]
    rfl
  rename_i hquote
  rw [if_neg hquote]
  split at h
  · rename_i hnull
    rw [if_pos hnull, hword h]
  rename_i hnull
  rw [if_neg hnull]
  split at h
  · rename_i htrue
    rw [if_pos htrue, hword h]
  rename_i htrue
  rw [if_neg htrue]
  split at h
  · rename_i hfalse
    rw [if_pos hfalse, hword h]
  · rename_i hfalse
    obtain ⟨p, hp, heq⟩ := Option.map_eq_some_iff.mp h
    cases heq
    rw [if_neg hfalse, ← List.cons_append, readNumber_append hp (hnumber p.1 rfl)]
    rfl

structure Extends (fuel fuel' : Nat) (x : Bytes) : Prop where
  value : ∀ {s r : Bytes} {j : Json}, readValue fuel s = some (j, r) →
    (∀ l, j = .number l → r ≠ []) → readValue fuel' (s ++ x) = some (j, r ++ x)
  items : ∀ {s r : Bytes} {js : List Json}, readItems fuel s = some (js, r) →
    readItems fuel' (s ++ x) = some (js, r ++ x)
  members : ∀ {s r : Bytes} {ms : List (Bytes × Json)}, readMembers fuel s = some (ms, r) →
    readMembers fuel' (s ++ x) = some (ms, r ++ x)

namespace Extends

variable {fuel fuel' : Nat}

theorem value_succ (h : Extends fuel fuel' x) {j : Json} (hread : readValue (fuel + 1) s = some (j, r))
    (hnumber : ∀ l, j = .number l → r ≠ []) : readValue (fuel' + 1) (s ++ x) = some (j, r ++ x) := by
  cases hs : skipBlanks s with
  | nil =>
    rw [readValue, hs] at hread
    cases hread
  | cons b t =>
    have hs' := skipBlanks_append hs x
    by_cases hbracket : b = 0x5B
    · subst hbracket
      rw [readValue_array hs] at hread
      rw [readValue_array hs']
      refine readBody_append (fun hitems => ?_) hread
      obtain ⟨p, hp, heq⟩ := Option.map_eq_some_iff.mp hitems
      cases heq
      rw [h.items hp]
      rfl
    by_cases hbrace : b = 0x7B
    · subst hbrace
      rw [readValue_object hs] at hread
      rw [readValue_object hs']
      refine readBody_append (fun hmembers => ?_) hread
      obtain ⟨p, hp, heq⟩ := Option.map_eq_some_iff.mp hmembers
      cases heq
      rw [h.members hp]
      rfl
    · rw [readValue_plain hs hbracket hbrace] at hread
      rw [readValue_plain hs' hbracket hbrace, readPlain_append hread hnumber]

theorem ne_nil_of_skipBlanks (h : skipBlanks s = b :: r) : s ≠ [] := by
  rintro rfl
  cases h

theorem items_succ (h : Extends fuel fuel' x) {js : List Json}
    (hread : readItems (fuel + 1) s = some (js, r)) :
    readItems (fuel' + 1) (s ++ x) = some (js, r ++ x) := by
  rw [readItems] at hread
  split at hread
  · cases hread
  · rename_i j t hvalue
    have hgo : ∀ {c u}, skipBlanks t = c :: u → readValue fuel' (s ++ x) = some (j, t ++ x) :=
      fun hu => h.value hvalue fun _ _ => ne_nil_of_skipBlanks hu
    split at hread
    · rename_i u hcomma
      obtain ⟨p, hp, heq⟩ := Option.map_eq_some_iff.mp hread
      cases heq
      simp only [readItems, hgo hcomma, skipBlanks_append hcomma, h.items hp, Option.map_some]
    · rename_i u hclose
      cases hread
      simp only [readItems, hgo hclose, skipBlanks_append hclose]
    · cases hread

theorem members_succ (h : Extends fuel fuel' x) {ms : List (Bytes × Json)}
    (hread : readMembers (fuel + 1) s = some (ms, r)) :
    readMembers (fuel' + 1) (s ++ x) = some (ms, r ++ x) := by
  rw [readMembers] at hread
  split at hread
  · rename_i t hquote
    split at hread
    · cases hread
    · rename_i name t' hname
      split at hread
      · rename_i v hcolon
        split at hread
        · cases hread
        · rename_i j w hvalue
          have hgo : ∀ {c u}, skipBlanks w = c :: u → readValue fuel' (v ++ x) = some (j, w ++ x) :=
            fun hu => h.value hvalue fun _ _ => ne_nil_of_skipBlanks hu
          split at hread
          · rename_i u hcomma
            obtain ⟨p, hp, heq⟩ := Option.map_eq_some_iff.mp hread
            cases heq
            simp only [readMembers, skipBlanks_append hquote, readString_append hname,
              skipBlanks_append hcolon, hgo hcomma, skipBlanks_append hcomma, h.members hp, Option.map_some]
          · rename_i u hclose
            cases hread
            simp only [readMembers, skipBlanks_append hquote, readString_append hname,
              skipBlanks_append hcolon, hgo hclose, skipBlanks_append hclose]
          · cases hread
      · cases hread
  · cases hread

theorem of_le (h : fuel ≤ fuel') (x : Bytes) : Extends fuel fuel' x := by
  induction fuel generalizing fuel' with
  | zero =>
    refine ⟨?_, ?_, ?_⟩
    · intro s r j hread
      rw [readValue] at hread
      cases hread
    · intro s r js hread
      rw [readItems] at hread
      cases hread
    · intro s r ms hread
      rw [readMembers] at hread
      cases hread
  | succ fuel ih =>
    obtain ⟨fuel', rfl⟩ := Nat.exists_eq_add_of_le' (Nat.le_trans (Nat.le_add_left ..) h)
    have hle := ih (Nat.le_of_add_le_add_right h)
    exact ⟨hle.value_succ, hle.items_succ, hle.members_succ⟩

theorem object (h : Extends fuel fuel' x) {ms : List (Bytes × Json)}
    (hread : readValue fuel s = some (.object ms, r)) :
    readValue fuel' (s ++ x) = some (.object ms, r ++ x) := by
  refine h.value hread fun l hnumber => ?_
  cases hnumber

end Extends

section Objects

variable {ms : List (Bytes × Json)}

theorem readValue_render_append (h : Legible (.object ms)) {fuel : Nat}
    (hfuel : (object ms).render.length < fuel) (x : Bytes) :
    readValue fuel ((object ms).render ++ x) = some (.object ms, x) := by
  have hread := h.reads fuel [] hfuel ends_nil
  rw [List.append_nil] at hread
  exact (Extends.of_le (Nat.le_refl fuel) x).object hread

theorem readValue_brace {fuel : Nat} {j : Json} (h : readValue fuel (0x7B :: s) = some (j, r)) :
    ∃ ms, j = .object ms := by
  cases fuel with
  | zero =>
    rw [readValue] at h
    cases h
  | succ fuel =>
    rw [readValue_object (skipBlanks_cons rfl s), readBody] at h
    split at h
    · cases h
    · split at h
      · cases h
        exact ⟨[], rfl⟩
      · obtain ⟨p, -, heq⟩ := Option.map_eq_some_iff.mp h
        cases heq
        exact ⟨p.1, rfl⟩

theorem skipBlanks_isEmpty (s : Bytes) : (skipBlanks s).isEmpty = s.all isBlank := by
  rw [Bool.eq_iff_iff, List.isEmpty_iff, skipBlanks, List.dropWhile_eq_nil_iff, List.all_eq_true]

theorem parse?_render_append (h : Legible (.object ms)) (x : Bytes) :
    parse? ((object ms).render ++ x) = if x.all isBlank then some (.object ms) else none := by
  have hfuel : (object ms).render.length < 2 * ((object ms).render ++ x).length + 2 := by
    rw [List.length_append]
    omega
  rw [parse?, readValue_render_append h hfuel]
  dsimp only
  rw [skipBlanks_isEmpty]

theorem parse?_of_prefix (h : Legible (.object ms)) (hs : s <+: (object ms).render)
    (hlt : s.length < (object ms).render.length) : parse? s = none := by
  obtain ⟨x, hx⟩ := hs
  cases hread : readValue (2 * s.length + 2) s with
  | none => rw [parse?, hread]
  | some p =>
    obtain ⟨j, r⟩ := p
    obtain ⟨ms', rfl⟩ : ∃ ms', j = .object ms' := by
      obtain ⟨u, hu⟩ : ∃ u, (object ms).render = 0x7B :: u := by
        cases ms with
        | nil => exact ⟨_, rfl⟩
        | cons m ms => exact ⟨_, rfl⟩
      cases s with
      | nil => cases hread
      | cons b t =>
        rw [hu] at hx
        obtain ⟨rfl, -⟩ := List.cons.inj hx
        exact readValue_brace hread
    -- the beginning would be read as part of the whole text, of which something is left then
    have hfuel : 2 * s.length + 2 ≤ 2 * (object ms).render.length + 2 := by omega
    have hpart := (Extends.of_le hfuel x).object hread
    have hwhole : readValue (2 * (object ms).render.length + 2) ((object ms).render ++ []) =
        some (.object ms, []) := readValue_render_append h (by omega) []
    rw [hx] at hpart
    rw [List.append_nil, hpart] at hwhole
    have hrest : r ++ x = [] := (Prod.mk.inj (Option.some.inj hwhole)).2
    rw [← hx, (List.append_eq_nil_iff.mp hrest).2, List.append_nil] at hlt
    exact absurd hlt (Nat.lt_irrefl _)

end Objects

end QuorumStore.Json
