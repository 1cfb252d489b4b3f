import QuorumStore.Proofs.Checksum
import QuorumStore.Proofs.LogFrames

namespace QuorumStore

theorem littleEndian32_word32 (a b c d : UInt8) : littleEndian32 (word32 a b c d) = [d, c, b, a] := by
  have ha := a.toNat_lt
  have hb := b.toNat_lt
  have hc := c.toNat_lt
  have hd := d.toNat_lt
  have hshift : ∀ k : UInt32, k.toNat < 32 →
      (word32 a b c d >>> k).toNat = (word32 a b c d).toNat / 2 ^ k.toNat := by
    intro k hk
    rw [UInt32.toNat_shiftRight, Nat.mod_eq_of_lt hk, Nat.shiftRight_eq_div_pow]
  have hbyte : ∀ {x y : UInt8}, x.toNat = y.toNat → x = y := UInt8.toNat_inj.mp
  simp only [littleEndian32, List.cons.injEq, and_true]
  refine ⟨hbyte ?_, hbyte ?_, hbyte ?_, hbyte ?_⟩
  · rw [UInt32.toNat_toUInt8, toNat_word32]
    omega
  · simp only [UInt32.toNat_toUInt8, hshift 8 (by decide), toNat_word32, UInt32.reduceToNat]
    omega
  · simp only [UInt32.toNat_toUInt8, hshift 16 (by decide), toNat_word32, UInt32.reduceToNat]
    omega
  · simp only [UInt32.toNat_toUInt8, hshift 24 (by decide), toNat_word32, UInt32.reduceToNat]
    omega

theorem exists_littleEndian32 {l : Bytes} (h : l.length = 4) : ∃ w, l = littleEndian32 w := by
  match l, h with
  | [a, b, c, d], _ => exact ⟨word32 d c b a, (littleEndian32_word32 d c b a).symm⟩

theorem littleEndian32_set (w : UInt32) {i : Nat} {b : UInt8} (hi : i < 4)
    (hb : (littleEndian32 w)[i]? ≠ some b) : ∃ v, v ≠ w ∧ (littleEndian32 w).set i b = littleEndian32 v := by
  obtain ⟨v, hv⟩ := exists_littleEndian32 (l := (littleEndian32 w).set i b)
    (by rw [List.length_set, littleEndian32_length])
  refine ⟨v, ?_, hv⟩
  rintro rfl
  rw [← hv, List.getElem?_set_self] at hb
  · exact hb rfl
  · rwa [littleEndian32_length]

namespace Log

variable {rs : List Record} {r : Record} {i entry offset : Nat} {b : UInt8} {crc length : UInt32}
  {before body : Bytes}

def startOf (rs : List Record) (i : Nat) : Nat := (frames (rs.take i)).length

def wordAt (log : Bytes) (place : Nat) : UInt32 :=
  match log.drop place with
  | a :: b :: c :: d :: _ => word32 d c b a
  | _ => 0

theorem wordAt_append (w : UInt32) : wordAt (before ++ (littleEndian32 w ++ body)) before.length = w := by
  rw [wordAt, List.drop_left]
  exact word32_littleEndian32 w

theorem layout (before body : Bytes) (crc length : UInt32) :
    let log := before ++ (littleEndian32 crc ++ (littleEndian32 length ++ body))
    wordAt log before.length = crc ∧ wordAt log (before.length + 4) = length ∧
      log.drop (before.length + 8) = body := by
  intro log
  have hlog : log = (before ++ littleEndian32 crc) ++ (littleEndian32 length ++ body) := by
    rw [List.append_assoc]
  have hlength : (before ++ littleEndian32 crc).length = before.length + 4 := by
    rw [List.length_append, littleEndian32_length]
  refine ⟨wordAt_append crc, ?_, ?_⟩
  · rw [hlog, ← hlength]
    exact wordAt_append length
  · rw [hlog, ← List.append_assoc]
    refine List.drop_left' ?_
    rw [List.length_append, hlength, littleEndian32_length]

theorem frames_eq (hi : i < rs.length) :
    frames rs = frames (rs.take i) ++ (frame rs[i] ++ frames (rs.drop (i + 1))) := by
  conv_lhs => rw [← List.take_append_drop i rs, List.drop_eq_getElem_cons hi, frames_append]
  rfl

theorem getElem?_frames (hi : i < rs.length) (hoffset : offset < (frame rs[i]).length) :
    (frames rs)[startOf rs i + offset]? = (frame rs[i])[offset]? := by
  rw [frames_eq hi, startOf, List.getElem?_append_right (Nat.le_add_right ..), Nat.add_sub_cancel_left,
    List.getElem?_append_left hoffset]

theorem set_frames (hi : i < rs.length) (hoffset : offset < (frame rs[i]).length) (b : UInt8) :
    (frames rs).set (startOf rs i + offset) b =
      frames (rs.take i) ++ ((frame rs[i]).set offset b ++ frames (rs.drop (i + 1))) := by
  rw [frames_eq hi, startOf, List.set_append_right _ _ (Nat.le_add_right ..), Nat.add_sub_cancel_left,
    List.set_append_left _ _ hoffset]

theorem frame_words (r : Record) :
    frame r = littleEndian32 (Crc32.checksum r.encode) ++
      (littleEndian32 (UInt32.ofNat r.encode.length) ++ (r.encode ++ [0x0A])) := by
  rw [frame_eq, headerOf, List.append_assoc]

theorem set_checksum (hoffset : offset < 4) (hb : (frame r)[offset]? ≠ some b) :
    ∃ crc, crc ≠ Crc32.checksum r.encode ∧ (frame r).set offset b =
      littleEndian32 crc ++ (littleEndian32 (UInt32.ofNat r.encode.length) ++ (r.encode ++ [0x0A])) := by
  rw [frame_words, List.getElem?_append_left (by rwa [littleEndian32_length])] at hb
  obtain ⟨crc, hne, hset⟩ := littleEndian32_set _ hoffset hb
  refine ⟨crc, hne, ?_⟩
  rw [frame_words, List.set_append_left _ _ (by rwa [littleEndian32_length]), hset]

theorem set_text (hoffset : offset < r.encode.length) (b : UInt8) :
    (frame r).set (8 + offset) b =
      littleEndian32 (Crc32.checksum r.encode) ++
        (littleEndian32 (UInt32.ofNat r.encode.length) ++ (r.encode.set offset b ++ [0x0A])) := by
  rw [frame_eq, List.set_append_right _ _ (by rw [length_headerOf]; omega), length_headerOf,
    Nat.add_sub_cancel_left, List.set_append_left _ _ hoffset, headerOf, List.append_assoc]

theorem getElem?_text (hoffset : offset < r.encode.length) :
    (frame r)[8 + offset]? = r.encode[offset]? := by
  rw [frame_eq, List.getElem?_append_right (by rw [length_headerOf]; omega), length_headerOf,
    Nat.add_sub_cancel_left, List.getElem?_append_left hoffset]

theorem set_corrupted (hplace : offset < 4 ∨ 8 ≤ offset ∧ offset < 8 + r.encode.length)
    (hb : (frame r)[offset]? ≠ some b) :
    ∃ crc text, (frame r).set offset b =
        littleEndian32 crc ++ (littleEndian32 (UInt32.ofNat r.encode.length) ++ (text ++ [0x0A])) ∧
      text.length = r.encode.length ∧ Crc32.checksum text ≠ crc := by
  rcases hplace with hchecksum | ⟨hle, htext⟩
  · obtain ⟨crc, hne, hset⟩ := set_checksum hchecksum hb
    exact ⟨crc, r.encode, hset, rfl, hne.symm⟩
  · obtain ⟨k, rfl⟩ := Nat.exists_eq_add_of_le hle
    have hk : k < r.encode.length := Nat.lt_of_add_lt_add_left htext
    rw [getElem?_text hk] at hb
    exact ⟨_, r.encode.set k b, set_text hk b, List.length_set, Crc32.checksum_set_ne hk hb⟩

theorem readFrom_of_mismatch (hlong : length.toNat < body.length)
    (hne : Crc32.checksum (body.take length.toNat) ≠ crc) :
    readFrom entry (littleEndian32 crc ++ (littleEndian32 length ++ body)) =
      .error (.mismatch entry crc (Crc32.checksum (body.take length.toNat))) := by
  rw [readFrom_eq, head_words, if_neg (Nat.not_le_of_lt hlong), if_neg hne]

theorem replay_set (hrs : ∀ r ∈ rs, r.Fits) (hi : i < rs.length) (hoffset : offset < (frame rs[i]).length)
    (hset : (frame rs[i]).set offset b =
      littleEndian32 crc ++ (littleEndian32 length ++ (body ++ [0x0A]))) :
    let damaged := (frames rs).set (startOf rs i + offset) b
    let rest := body ++ 0x0A :: frames (rs.drop (i + 1))
    wordAt damaged (startOf rs i) = crc ∧ wordAt damaged (startOf rs i + 4) = length ∧
      damaged.drop (startOf rs i + 8) = rest ∧
      replay damaged = (readFrom i (littleEndian32 crc ++ (littleEndian32 length ++ rest))).map
        (rs.take i ++ ·) := by
  intro damaged rest
  have hdamaged : damaged =
      frames (rs.take i) ++ (littleEndian32 crc ++ (littleEndian32 length ++ rest)) := by
    simp only [damaged, rest, set_frames hi hoffset, hset, List.append_assoc, List.singleton_append]
  have hnumber : (rs.take i).length = i := List.length_take_of_le (Nat.le_of_lt hi)
  obtain ⟨hcrc, hlength, hrest⟩ := layout (frames (rs.take i)) rest crc length
  rw [hdamaged]
  refine ⟨hcrc, hlength, hrest, ?_⟩
  rw [replay_eq, readFrom_frames fun r hr => hrs r (List.mem_of_mem_take hr), hnumber, Nat.zero_add]

end Log

namespace LogFile

open Log

theorem corruption_located (rs : List Record) (hrs : ∀ r ∈ rs, r.Fits) :
    ∃ log, rs.foldl append (.content []) = .content log ∧
      ∀ i (hi : i < rs.length) offset b,
        offset < 4 ∨ 8 ≤ offset ∧ offset < 8 + rs[i].encode.length →
        log[startOf rs i + offset]? ≠ some b →
        let damaged := log.set (startOf rs i + offset) b
        (content damaged).replay = .error (.mismatch i (wordAt damaged (startOf rs i))
          (Crc32.checksum ((damaged.drop (startOf rs i + 8)).take rs[i].encode.length))) := by
  refine ⟨frames rs, foldl_append rs [], ?_⟩
  intro i hi offset b hplace hb damaged
  have hfits : (UInt32.ofNat rs[i].encode.length).toNat = rs[i].encode.length :=
    toNat_length (hrs _ (List.getElem_mem hi))
  have hoffset : offset < (frame rs[i]).length := by
    rw [length_frame]
    omega
  rw [getElem?_frames hi hoffset] at hb
  obtain ⟨crc, text, hset, hlength, hne⟩ := set_corrupted hplace hb
  obtain ⟨hword, -, hdrop, hreplay⟩ := replay_set hrs hi hoffset hset
  have htake : (text ++ 0x0A :: frames (rs.drop (i + 1))).take rs[i].encode.length = text := by
    rw [← hlength, List.take_left]
  have hlong : (UInt32.ofNat rs[i].encode.length).toNat <
      (text ++ 0x0A :: frames (rs.drop (i + 1))).length := by
    rw [hfits, ← hlength, List.length_append, List.length_cons]
    omega
  have hmismatch : readFrom i (littleEndian32 crc ++ (littleEndian32 (UInt32.ofNat rs[i].encode.length) ++
      (text ++ 0x0A :: frames (rs.drop (i + 1))))) = .error (.mismatch i crc (Crc32.checksum text)) := by
    rw [readFrom_of_mismatch hlong (by rwa [hfits, htake]), hfits, htake]
  rw [replay, hreplay, hmismatch, hword, hdrop, htake]
  rfl

theorem second_frame_reported :
    ∃ log, [Record.removal "a", .removal "b", .removal "c"].foldl append (.content []) = .content log ∧
      (content (log.set 45 0x23)).replay = .error (.mismatch 1 0xA32A0836 0x1B957171) ∧
      (content (log.set 36 0x23)).replay = .error (.mismatch 1 0xA3230836 0xA32A0836) := by
  have hfits : ∀ r ∈ [Record.removal "a", .removal "b", .removal "c"], r.Fits := by
    simp only [Record.Fits]
    decide +kernel
  obtain ⟨log, hlog, hlocated⟩ := corruption_located _ hfits
  have hbytes : log = frames [.removal "a", .removal "b", .removal "c"] :=
    LogFile.content.inj (hlog.symm.trans (foldl_append _ []))
  have hstart : startOf [.removal "a", .removal "b", .removal "c"] 1 = 34 := by decide +kernel
  refine ⟨log, hlog, ?_, ?_⟩
  · have htext := hlocated 1 (by decide) 11 0x23 (.inr (by decide +kernel))
      (by rw [hbytes]; decide +kernel)
    rw [hstart, hbytes] at htext
    rw [hbytes, htext]
    decide +kernel
  · have hchecksum := hlocated 1 (by decide) 2 0x23 (.inl (by decide)) (by rw [hbytes]; decide +kernel)
    rw [hstart, hbytes] at hchecksum
    rw [hbytes, hchecksum]
    decide +kernel

end LogFile

end QuorumStore
