import QuorumStore.Proofs.CorruptedLog
import QuorumStore.Proofs.JsonExtent

namespace QuorumStore

namespace Record

variable {r : Record} {b : Bytes}

theorem decode?_encode_append (r : Record) (x : Bytes) :
    decode? (r.encode ++ x) = if x.all Json.isBlank then some r else none := by
  rw [decode?, encode, toJson, Json.parse?_render_append r.legible_toJson]
  split
  · exact ofJson?_toJson r
  · rfl

theorem decode?_of_prefix (hb : b <+: r.encode) (hlt : b.length < r.encode.length) :
    decode? b = none := by
  rw [decode?, Json.parse?_of_prefix r.legible_toJson hb hlt]
  rfl

end Record

namespace Log

variable {r : Record} {entry offset n : Nat} {b : UInt8} {length : UInt32}
  {body tail : Bytes}

def Overlooked (r : Record) (body : Bytes) (n : Nat) : Prop :=
  r.encode.length < n ∧ ((body.take n).drop r.encode.length).all Json.isBlank = true ∧
    Crc32.checksum (body.take n) = Crc32.checksum r.encode

instance (r : Record) (body : Bytes) (n : Nat) : Decidable (Overlooked r body n) :=
  inferInstanceAs (Decidable (_ ∧ _ ∧ _))

theorem decode?_take (hn : n ≠ r.encode.length) :
    Record.decode? ((r.encode ++ tail).take n) =
      if r.encode.length < n ∧ (((r.encode ++ tail).take n).drop r.encode.length).all Json.isBlank = true
      then some r else none := by
  rcases Nat.lt_or_gt_of_ne hn with hlt | hgt
  · have htake : (r.encode ++ tail).take n = r.encode.take n :=
      List.take_append_of_le_length (Nat.le_of_lt hlt)
    rw [if_neg fun h => Nat.lt_asymm hlt h.1, htake]
    refine Record.decode?_of_prefix (List.take_prefix ..) ?_
    rwa [List.length_take_of_le (Nat.le_of_lt hlt)]
  · have htake : (r.encode ++ tail).take n = r.encode ++ tail.take (n - r.encode.length) := by
      rw [List.take_append, List.take_of_length_le (Nat.le_of_lt hgt)]
    rw [htake, List.drop_left, Record.decode?_encode_append]
    simp only [hgt, true_and]

theorem head_of_false_length (hn : length.toNat ≠ r.encode.length) (hbody : r.encode <+: body) :
    head (littleEndian32 (Crc32.checksum r.encode) ++ (littleEndian32 length ++ body)) =
      if body.length ≤ length.toNat then .torn
      else if Overlooked r body length.toNat then .whole r (body.drop (length.toNat + 1))
      else if Crc32.checksum (body.take length.toNat) = Crc32.checksum r.encode then .undecodable
      else .mismatch (Crc32.checksum r.encode) (Crc32.checksum (body.take length.toNat)) := by
  obtain ⟨tail, rfl⟩ := hbody
  rw [head_words, decode?_take hn]
  split
  · rfl
  by_cases hsame : Crc32.checksum ((r.encode ++ tail).take length.toNat) = Crc32.checksum r.encode
  · rw [if_pos hsame, if_pos hsame]
    by_cases hblank : r.encode.length < length.toNat ∧
        (((r.encode ++ tail).take length.toNat).drop r.encode.length).all Json.isBlank = true
    · have hoverlooked : Overlooked r (r.encode ++ tail) length.toNat := ⟨hblank.1, hblank.2, hsame⟩
      rw [if_pos hblank, if_pos hoverlooked]
    · have hoverlooked : ¬ Overlooked r (r.encode ++ tail) length.toNat :=
        fun h => hblank ⟨h.1, h.2.1⟩
      rw [if_neg hblank, if_neg hoverlooked]
  · have hoverlooked : ¬ Overlooked r (r.encode ++ tail) length.toNat := fun h => hsame h.2.2
    rw [if_neg hsame, if_neg hsame, if_neg hoverlooked]

theorem getElem?_length (hoffset : offset < 4) :
    (frame r)[4 + offset]? = (littleEndian32 (UInt32.ofNat r.encode.length))[offset]? := by
  rw [frame_words, List.getElem?_append_right (by rw [littleEndian32_length]; omega), littleEndian32_length,
    Nat.add_sub_cancel_left, List.getElem?_append_left (by rwa [littleEndian32_length])]

theorem set_length (hoffset : offset < 4) (hb : (frame r)[4 + offset]? ≠ some b) :
    ∃ length, length ≠ UInt32.ofNat r.encode.length ∧ (frame r).set (4 + offset) b =
      littleEndian32 (Crc32.checksum r.encode) ++ (littleEndian32 length ++ (r.encode ++ [0x0A])) := by
  rw [getElem?_length hoffset] at hb
  obtain ⟨length, hne, hset⟩ := littleEndian32_set _ hoffset hb
  refine ⟨length, hne, ?_⟩
  rw [frame_words, List.set_append_right _ _ (by rw [littleEndian32_length]; omega), littleEndian32_length,
    Nat.add_sub_cancel_left, List.set_append_left _ _ (by rwa [littleEndian32_length]), hset]

def readMisled (r : Record) (entry : Nat) (body : Bytes) (n : Nat) : Except LogError (List Record) :=
  if body.length ≤ n then .ok []
  else if Overlooked r body n then (readFrom (entry + 1) (body.drop (n + 1))).map (r :: ·)
  else if Crc32.checksum (body.take n) = Crc32.checksum r.encode then .error (.undecodable entry)
  else .error (.mismatch entry (Crc32.checksum r.encode) (Crc32.checksum (body.take n)))

theorem readFrom_of_false_length (hn : length.toNat ≠ r.encode.length) (hbody : r.encode <+: body) :
    readFrom entry (littleEndian32 (Crc32.checksum r.encode) ++ (littleEndian32 length ++ body)) =
      readMisled r entry body length.toNat := by
  rw [readFrom_eq, head_of_false_length hn hbody, readMisled]
  by_cases hend : body.length ≤ length.toNat
  · rw [if_pos hend, if_pos hend]
  rw [if_neg hend, if_neg hend]
  by_cases hoverlooked : Overlooked r body length.toNat
  · rw [if_pos hoverlooked, if_pos hoverlooked]
  rw [if_neg hoverlooked, if_neg hoverlooked]
  by_cases hsame : Crc32.checksum (body.take length.toNat) = Crc32.checksum r.encode
  · rw [if_pos hsame, if_pos hsame]
  · rw [if_neg hsame, if_neg hsame]

theorem map_eq_ok_iff {f : List Record → List Record} {result : Except LogError (List Record)}
    {ss : List Record} : result.map f = .ok ss ↔ ∃ ts, result = .ok ts ∧ f ts = ss := by
  cases result with
  | error e => simp [Except.map]
  | ok ts => simp [Except.map]

theorem readMisled_fewer_iff {limit : Nat} (hlimit : 0 < limit) :
    (∃ ss, readMisled r entry body n = .ok ss ∧ ss.length < limit) ↔
      body.length ≤ n ∨ Overlooked r body n ∧
        ∃ ss, readFrom (entry + 1) (body.drop (n + 1)) = .ok ss ∧ ss.length + 1 < limit := by
  rw [readMisled]
  by_cases hend : body.length ≤ n
  · rw [if_pos hend]
    exact ⟨fun _ => .inl hend, fun _ => ⟨[], rfl, hlimit⟩⟩
  rw [if_neg hend]
  by_cases hoverlooked : Overlooked r body n
  · rw [if_pos hoverlooked]
    constructor
    · rintro ⟨ss, hss, hfewer⟩
      obtain ⟨ts, hts, rfl⟩ := map_eq_ok_iff.mp hss
      exact .inr ⟨hoverlooked, ts, hts, hfewer⟩
    · rintro (h | ⟨-, ts, hts, hfewer⟩)
      · exact absurd h hend
      · exact ⟨r :: ts, map_eq_ok_iff.mpr ⟨ts, hts, rfl⟩, hfewer⟩
  · rw [if_neg hoverlooked]
    constructor
    · rintro ⟨ss, hss, -⟩
      split at hss <;> cases hss
    · rintro (h | ⟨h, -⟩)
      · exact absurd h hend
      · exact absurd h hoverlooked

end Log

namespace LogFile

open Log

theorem false_length_loses_records (rs : List Record) (hrs : ∀ r ∈ rs, r.Fits) :
    ∃ log, rs.foldl append (.content []) = .content log ∧
      ∀ i (hi : i < rs.length) offset b, offset < 4 → log[startOf rs i + (4 + offset)]? ≠ some b →
        let damaged := log.set (startOf rs i + (4 + offset)) b
        let n := (wordAt damaged (startOf rs i + 4)).toNat
        let body := damaged.drop (startOf rs i + 8)
        (content damaged).replay = (readMisled rs[i] i body n).map (rs.take i ++ ·) ∧
        ((∃ ss, (content damaged).replay = .ok ss ∧ ss.length < rs.length) ↔
          body.length ≤ n ∨ Overlooked rs[i] body n ∧
            ∃ ss, readFrom (i + 1) (body.drop (n + 1)) = .ok ss ∧ i + 1 + ss.length < rs.length) := by
  refine ⟨frames rs, foldl_append rs [], ?_⟩
  intro i hi offset b hoffset hb damaged n body
  have hnumber : (rs.take i).length = i := List.length_take_of_le (Nat.le_of_lt hi)
  have hinside : 4 + offset < (frame rs[i]).length := by
    rw [length_frame]
    omega
  rw [getElem?_frames hi hinside] at hb
  obtain ⟨length, hne, hset⟩ := set_length hoffset hb
  obtain ⟨-, hword, hdrop, hread⟩ := replay_set hrs hi hinside hset
  have hfalse : length.toNat ≠ rs[i].encode.length := by
    intro h
    refine hne (UInt32.toNat_inj.mp ?_)
    rw [h, toNat_length (hrs _ (List.getElem_mem hi))]
  have hreplay : (content damaged).replay = (readMisled rs[i] i body n).map (rs.take i ++ ·) := by
    rw [readFrom_of_false_length hfalse (List.prefix_append ..), ← hdrop, ← hword] at hread
    exact hread
  refine ⟨hreplay, ?_⟩
  have hsplit : (∃ ss, (content damaged).replay = .ok ss ∧ ss.length < rs.length) ↔
      ∃ ts, readMisled rs[i] i body n = .ok ts ∧ ts.length < rs.length - i := by
    simp only [hreplay, map_eq_ok_iff]
    constructor
    · rintro ⟨ss, ⟨ts, hts, rfl⟩, hfewer⟩
      refine ⟨ts, hts, ?_⟩
      rw [List.length_append, hnumber] at hfewer
      omega
    · rintro ⟨ts, hts, hfewer⟩
      refine ⟨_, ⟨ts, hts, rfl⟩, ?_⟩
      rw [List.length_append, hnumber]
      omega
  rw [hsplit, readMisled_fewer_iff (Nat.sub_pos_of_lt hi)]
  refine or_congr_right (and_congr_right fun _ => exists_congr fun ss => and_congr_right fun _ => ?_)
  omega

theorem far_length_empties_log :
    ∃ log, [Record.removal "a", .removal "b"].foldl append (.content []) = .content log ∧
      (content log).replay = .ok [.removal "a", .removal "b"] ∧
      log[5]? = some 0 ∧ (content (log.set 5 1)).replay = .ok [] := by
  refine ⟨frames [.removal "a", .removal "b"], foldl_append _ [], ?_, ?_, ?_⟩
  · decide +kernel
  · decide +kernel
  · decide +kernel

theorem terminator_overlooked :
    ∃ log, [Record.removal "yaxroma", .removal "b"].foldl append (.content []) = .content log ∧
      (content (log.set 4 0x20)).replay = .ok [.removal "yaxroma"] ∧
      (content (log.set 4 0x1E)).replay = .error (.mismatch 0 0x222F539A 0x222F53ED) := by
  have hfits : ∀ r ∈ [Record.removal "yaxroma", .removal "b"], r.Fits := by
    simp only [Record.Fits]
    decide +kernel
  obtain ⟨log, hlog, hdamaged⟩ := false_length_loses_records _ hfits
  have hbytes : log = frames [.removal "yaxroma", .removal "b"] :=
    LogFile.content.inj (hlog.symm.trans (foldl_append _ []))
  refine ⟨log, hlog, ?_, ?_⟩
  · obtain ⟨hreplay, -⟩ := hdamaged 0 (by decide) 0 0x20 (by decide) (by rw [hbytes]; decide +kernel)
    rw [hbytes] at hreplay ⊢
    exact hreplay.trans (by decide +kernel)
  · obtain ⟨hreplay, -⟩ := hdamaged 0 (by decide) 0 0x1E (by decide) (by rw [hbytes]; decide +kernel)
    rw [hbytes] at hreplay ⊢
    exact hreplay.trans (by decide +kernel)

end LogFile

end QuorumStore
