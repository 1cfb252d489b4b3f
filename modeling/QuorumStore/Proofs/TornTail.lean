import QuorumStore.Proofs.Checksum
import QuorumStore.Proofs.LogFrames

namespace QuorumStore.Log

variable {r : Record} {t f : Bytes} {entry : Nat}

theorem head_of_long {c₀ c₁ c₂ c₃ l₀ l₁ l₂ l₃ : UInt8} {body : Bytes} (hbody : body.length ≤ 256)
    (h : l₁ ≠ 0 ∨ l₂ ≠ 0 ∨ l₃ ≠ 0) :
    head (c₀ :: c₁ :: c₂ :: c₃ :: l₀ :: l₁ :: l₂ :: l₃ :: body) = .torn := by
  have hpos : ∀ x : UInt8, x ≠ 0 → 0 < x.toNat := by
    intro x hx
    refine Nat.pos_of_ne_zero fun h0 => hx ?_
    exact UInt8.toNat_inj.mp h0
  have hle : body.length ≤ (word32 l₃ l₂ l₁ l₀).toNat := by
    rw [toNat_word32]
    rcases h with h | h | h
    all_goals
      have := hpos _ h
      omega
  simp only [head, if_pos hle]

def Misleads (f : Bytes) : Prop :=
  ∃ c₀ c₁ c₂ c₃ l z₀ z₁ z₂ b body, f = c₀ :: c₁ :: c₂ :: c₃ :: l :: z₀ :: z₁ :: z₂ :: b :: body ∧
    c₀ ≠ 0 ∧ c₁ ≠ 0 ∧ c₂ ≠ 0 ∧ c₃ ≠ 0 ∧ l ≠ 0 ∧ b ≠ 0 ∧ body.length ≤ 200

theorem head_of_part_of_header (hf : Misleads f) (hpos : t ≠ []) (hlt : t.length < 8) :
    head (t ++ f) = .torn := by
  obtain ⟨c₀, c₁, c₂, c₃, l, z₀, z₁, z₂, b, body, rfl, h₀, h₁, h₂, h₃, hl, -, hbody⟩ := hf
  match t, hpos, hlt with
  | [_], _, _ => exact head_of_long (by simp only [List.length_cons]; omega) (.inl hl)
  | [_, _], _, _ => exact head_of_long (by simp only [List.length_cons]; omega) (.inr (.inl hl))
  | [_, _, _], _, _ => exact head_of_long (by simp only [List.length_cons]; omega) (.inr (.inr hl))
  | [_, _, _, _], _, _ => exact head_of_long (by simp only [List.length_cons]; omega) (.inl h₁)
  | [_, _, _, _, _], _, _ => exact head_of_long (by simp only [List.length_cons]; omega) (.inl h₀)
  | [_, _, _, _, _, _], _, _ =>
    exact head_of_long (by simp only [List.length_cons]; omega) (.inr (.inl h₀))
  | [_, _, _, _, _, _, _], _, _ =>
    exact head_of_long (by simp only [List.length_cons]; omega) (.inr (.inr h₀))

theorem head_of_drop (hf : Misleads f) : head (f.drop 1) = .torn := by
  obtain ⟨c₀, c₁, c₂, c₃, l, z₀, z₁, z₂, b, body, rfl, -, -, -, -, -, hb, hbody⟩ := hf
  exact head_of_long (by omega) (.inr (.inr hb))

def marked (key : Key) (time : UInt64) : Record := ⟨key, [.live [] ∅ time]⟩

theorem misleads_of_checksum {c₀ c₁ c₂ c₃ : UInt8}
    (hchecksum : littleEndian32 (Crc32.checksum r.encode) = [c₀, c₁, c₂, c₃])
    (h : c₀ ≠ 0 ∧ c₁ ≠ 0 ∧ c₂ ≠ 0 ∧ c₃ ≠ 0) (hlength : r.encode.length ≤ 200) : Misleads (frame r) := by
  obtain ⟨h₀, h₁, h₂, h₃⟩ := h
  obtain ⟨text, htext⟩ : ∃ text, r.encode = 0x7B :: text := ⟨_, rfl⟩
  have hl : (UInt32.ofNat r.encode.length).toUInt8 ≠ 0 := by
    intro h0
    have hzero := congrArg UInt8.toNat h0
    rw [UInt32.toNat_toUInt8, toNat_length (by rw [Record.Fits]; omega)] at hzero
    simp only [htext, List.length_cons, UInt8.toNat_zero] at hzero hlength
    omega
  have hframe : frame r = c₀ :: c₁ :: c₂ :: c₃ ::
      (littleEndian32 (UInt32.ofNat r.encode.length) ++ 0x7B :: (text ++ [0x0A])) := by
    rw [frame_eq, headerOf, hchecksum, htext]
    rfl
  refine ⟨c₀, c₁, c₂, c₃, _, _, _, _, _, _, hframe, h₀, h₁, h₂, h₃, hl, by decide, ?_⟩
  rw [htext, List.length_cons] at hlength
  rw [List.length_append]
  exact hlength

def upToTime (key : Key) : Bytes :=
  utf8 "\x7b\"key\":" ++ (Json.quote (utf8 key) ++
    utf8 ",\"versions\":[\x7b\"value\":[],\"vclock\":\x7b\"entries\":\x7b\x7d\x7d,\"timestamp_ms\":")

theorem encode_marked (key : Key) (time : UInt64) :
    (marked key time).encode =
      upToTime key ++ (Json.literalOf time.toNat ++ utf8 ",\"tombstone\":false\x7d]\x7d") := by
  simp only [marked, Record.encode, Record.toJson, Version.toJson, Version.live, VersionVector.toJson,
    Json.ofText, Json.render, Json.renderMembers, Json.renderItems, List.map, upToTime,
    List.cons_append, List.append_assoc]
  rfl

theorem length_encode_marked (key : Key) :
    (marked key 0).encode.length = (marked key 1).encode.length := by
  simp only [encode_marked, List.length_append]
  rfl

theorem checksum_marked_xor (key : Key) :
    Crc32.checksum (marked key 0).encode ^^^ Crc32.checksum (marked key 1).encode = 0x172864C0 := by
  rw [encode_marked, encode_marked, Crc32.checksum_xor (by rfl)]
  decide +kernel

theorem checksum_marked_zero : Crc32.checksum (marked "" 0).encode = 0xE55028D3 := by
  -- The kernel computes the checksum in two parts, but not in one.
  have hbefore : Crc32.register 0xFFFFFFFF ((marked "" 0).encode.take 48) = 0xAD67DE69 := by
    decide +kernel
  have hafter : Crc32.register 0xAD67DE69 ((marked "" 0).encode.drop 48) = 0x1AAFD72C := by
    decide +kernel
  rw [Crc32.checksum_eq, ← List.take_append_drop 48 (marked "" 0).encode, Crc32.register_append,
    hbefore, hafter]
  decide

theorem checksum_marked_one : Crc32.checksum (marked "" 1).encode = 0xF2784C13 := by
  have hxor := checksum_marked_xor ""
  rw [checksum_marked_zero] at hxor
  calc
    _ = 0xE55028D3 ^^^ (0xE55028D3 ^^^ Crc32.checksum (marked "" 1).encode) := by
      rw [← UInt32.xor_assoc, UInt32.xor_self, UInt32.zero_xor]
    _ = _ := by rw [hxor]; decide

theorem misleads_marked : Misleads (frame (marked "" 0)) ∧ Misleads (frame (marked "" 1)) := by
  have hlength : (marked "" 0).encode.length ≤ 200 := by decide +kernel
  refine ⟨misleads_of_checksum (by rw [checksum_marked_zero]; rfl) (by decide) hlength, ?_⟩
  rw [length_encode_marked] at hlength
  exact misleads_of_checksum (by rw [checksum_marked_one]; rfl) (by decide) hlength

theorem take_frame_marked (key : Key) (time : UInt64) {n : Nat} (hn : n ≤ (upToTime key).length) :
    (frame (marked key time)).take n =
      (littleEndian32 (Crc32.checksum (marked key time).encode)).take n ++
        (littleEndian32 (UInt32.ofNat (marked key time).encode.length) ++ upToTime key).take (n - 4) := by
  have hle : n - 4 ≤
      (littleEndian32 (UInt32.ofNat (marked key time).encode.length) ++ upToTime key).length := by
    rw [List.length_append]
    omega
  have hframe : frame (marked key time) =
      littleEndian32 (Crc32.checksum (marked key time).encode) ++
        ((littleEndian32 (UInt32.ofNat (marked key time).encode.length) ++ upToTime key) ++
          (Json.literalOf time.toNat ++ utf8 ",\"tombstone\":false\x7d]\x7d" ++ [0x0A])) := by
    rw [frame_eq, headerOf]
    nth_rewrite 3 [encode_marked]
    simp only [List.append_assoc]
  rw [hframe, List.take_append, littleEndian32_length, List.take_append_of_le_length hle]

theorem zipWith_littleEndian32 (v w : UInt32) (n : Nat) :
    List.zipWith (· ^^^ ·) ((littleEndian32 v).take n) ((littleEndian32 w).take n) =
      (littleEndian32 (v ^^^ w)).take n := by
  rw [← List.take_zipWith]
  simp only [littleEndian32, List.zipWith_cons_cons, List.zipWith_nil_left, UInt32.shiftRight_xor,
    UInt32.toUInt8_xor]

theorem checksum_take_frame_ne (key : Key) (b : Bytes) {n : Nat} (hpos : 0 < n)
    (hn : n ≤ (upToTime key).length) :
    Crc32.checksum (b ++ (frame (marked key 0)).take n) ≠
      Crc32.checksum (b ++ (frame (marked key 1)).take n) := by
  rw [take_frame_marked key 0 hn, take_frame_marked key 1 hn, length_encode_marked]
  refine Crc32.checksum_ne (by simp only [List.length_take, littleEndian32_length]) ?_
  rw [zipWith_littleEndian32, checksum_marked_xor]
  match n, hpos with
  | 1, _ | 2, _ | 3, _ => decide +kernel
  | n + 4, _ =>
    rw [List.take_of_length_le (by rw [littleEndian32_length]; omega)]
    decide +kernel

theorem readFrom_of_far (hr : r.Fits) {b : Bytes} (hfar : b.length + f.length ≤ r.encode.length) :
    readFrom entry (headerOf r ++ (b ++ f)) = .ok [] := by
  refine readFrom_of_torn ?_
  rw [head_headerOf hr, if_pos (by rw [List.length_append]; exact hfar)]

theorem readFrom_of_unterminated (hr : r.Fits) (hne : f ≠ []) (hdrop : head (f.drop 1) = .torn) :
    readFrom entry (headerOf r ++ (r.encode ++ f)) = .ok [r] := by
  have hpos : ¬ (r.encode ++ f).length ≤ r.encode.length := by
    have := List.length_pos_iff.mpr hne
    rw [List.length_append]
    omega
  have hhead : head (headerOf r ++ (r.encode ++ f)) = .whole r (f.drop 1) := by
    rw [head_headerOf hr, if_neg hpos, List.take_left, if_pos rfl, Record.decode?_encode]
    simp
  rw [readFrom_of_whole hhead, readFrom_of_torn hdrop]
  rfl

theorem readFrom_of_damaged (hr : r.Fits) {b : Bytes} (hb : b.length ≤ r.encode.length)
    (hlong : r.encode.length < b.length + f.length)
    (hne : Crc32.checksum (b ++ f.take (r.encode.length - b.length)) ≠ Crc32.checksum r.encode) :
    readFrom entry (headerOf r ++ (b ++ f)) = .error (.mismatch entry (Crc32.checksum r.encode)
      (Crc32.checksum (b ++ f.take (r.encode.length - b.length)))) := by
  have htake : (b ++ f).take r.encode.length = b ++ f.take (r.encode.length - b.length) := by
    rw [List.take_append, List.take_of_length_le hb]
  rw [readFrom_eq, head_headerOf hr, if_neg (by rw [List.length_append]; omega), htake, if_neg hne]

def longKey : Key := String.ofList (List.replicate 120 'a')

theorem readFrom_torn (hr : r.Fits) (ht : t <+: frame r) (hlt : t.length < (frame r).length)
    (hne : t ≠ []) (entry : Nat) :
    (∃ rs, readFrom entry (t ++ frame (marked "" 0)) = .ok rs ∧
      readFrom entry (t ++ frame (marked "" 1)) = .ok rs) ∨
    (∃ e, readFrom entry (t ++ frame (marked longKey 0)) = .error e) ∨
    ∃ e, readFrom entry (t ++ frame (marked longKey 1)) = .error e := by
  obtain ⟨hzero, hone⟩ := misleads_marked
  have hshort : (frame (marked "" 1)).length = (frame (marked "" 0)).length := by
    rw [length_frame, length_frame, length_encode_marked]
  rcases prefix_frame ht hlt with hpart | ⟨b, hb, rfl⟩
  · exact .inl ⟨[], readFrom_of_torn (head_of_part_of_header hzero hne hpart),
      readFrom_of_torn (head_of_part_of_header hone hne hpart)⟩
  · simp only [List.append_assoc]
    have hle := hb.length_le
    by_cases hfar : b.length + (frame (marked "" 0)).length ≤ r.encode.length
    · exact .inl ⟨[], readFrom_of_far hr hfar, readFrom_of_far hr (by rw [hshort]; exact hfar)⟩
    · by_cases hwhole : b.length = r.encode.length
      · obtain rfl : b = r.encode := hb.eq_of_length hwhole
        exact .inl ⟨[r], readFrom_of_unterminated hr (frame_ne_nil _) (head_of_drop hzero),
          readFrom_of_unterminated hr (frame_ne_nil _) (head_of_drop hone)⟩
      · have hwindow : (frame (marked "" 0)).length ≤ (upToTime longKey).length := by decide +kernel
        have hlong : ∀ time, (upToTime longKey).length ≤ (frame (marked longKey time)).length := by
          intro time
          rw [length_frame, encode_marked, List.length_append]
          omega
        have hdiffer := checksum_take_frame_ne longKey b (n := r.encode.length - b.length) (by omega)
          (by omega)
        by_cases hsame : Crc32.checksum (b ++
            (frame (marked longKey 0)).take (r.encode.length - b.length)) = Crc32.checksum r.encode
        · rw [hsame] at hdiffer
          have := hlong 1
          exact .inr (.inr ⟨_, readFrom_of_damaged hr hle (by omega) hdiffer.symm⟩)
        · have := hlong 0
          exact .inr (.inl ⟨_, readFrom_of_damaged hr hle (by omega) hsame⟩)

end QuorumStore.Log
