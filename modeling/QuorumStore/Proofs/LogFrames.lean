import Mathlib.Algebra.Group.Nat.Defs
import QuorumStore.Log
import QuorumStore.Proofs.RecordText

namespace QuorumStore

theorem toNat_word32 (a b c d : UInt8) :
    (word32 a b c d).toNat = a.toNat * 2 ^ 24 + b.toNat * 2 ^ 16 + c.toNat * 2 ^ 8 + d.toNat := by
  have ha := a.toNat_lt
  have hb := b.toNat_lt
  have hc := c.toNat_lt
  have hd := d.toNat_lt
  have hshift : ∀ (x : UInt8) (k : UInt32), k.toNat < 25 →
      (x.toUInt32 <<< k).toNat = 2 ^ k.toNat * x.toNat := by
    intro x k hk
    have hx := x.toNat_lt
    have hpow : 2 ^ k.toNat ≤ 2 ^ 24 := Nat.pow_le_pow_right (by decide) (by omega)
    have hle : 2 ^ k.toNat * x.toNat ≤ 2 ^ 24 * x.toNat := Nat.mul_le_mul_right _ hpow
    rw [UInt32.toNat_shiftLeft, Nat.mod_eq_of_lt (a := k.toNat) (by omega), Nat.shiftLeft_eq,
      UInt8.toNat_toUInt32, Nat.mul_comm, Nat.mod_eq_of_lt (by omega)]
  rw [word32, UInt32.toNat_or, UInt32.toNat_or, UInt32.toNat_or, hshift a 24 (by decide),
    hshift b 16 (by decide), hshift c 8 (by decide), UInt8.toNat_toUInt32]
  simp only [UInt32.reduceToNat]
  rw [← Nat.two_pow_add_eq_or_of_lt (i := 24) (by omega)]
  have h16 : 2 ^ 24 * a.toNat + 2 ^ 16 * b.toNat = 2 ^ 16 * (2 ^ 8 * a.toNat + b.toNat) := by omega
  rw [h16, ← Nat.two_pow_add_eq_or_of_lt (i := 16) (by omega)]
  have h8 : 2 ^ 16 * (2 ^ 8 * a.toNat + b.toNat) + 2 ^ 8 * c.toNat =
      2 ^ 8 * (2 ^ 16 * a.toNat + 2 ^ 8 * b.toNat + c.toNat) := by omega
  rw [h8, ← Nat.two_pow_add_eq_or_of_lt (i := 8) (by omega)]
  omega

theorem word32_littleEndian32 (w : UInt32) :
    word32 (w >>> 24).toUInt8 (w >>> 16).toUInt8 (w >>> 8).toUInt8 w.toUInt8 = w := by
  refine UInt32.toNat_inj.mp ?_
  have hw := w.toNat_lt
  have hshift : ∀ k : UInt32, k.toNat < 32 → (w >>> k).toNat = w.toNat / 2 ^ k.toNat := by
    intro k hk
    rw [UInt32.toNat_shiftRight, Nat.mod_eq_of_lt hk, Nat.shiftRight_eq_div_pow]
  rw [toNat_word32]
  simp only [UInt32.toNat_toUInt8, hshift 24 (by decide), hshift 16 (by decide),
    hshift 8 (by decide), UInt32.reduceToNat]
  omega

def Record.Fits (r : Record) : Prop := r.encode.length < 2 ^ 32

instance (r : Record) : Decidable r.Fits := inferInstanceAs (Decidable (_ < _))

namespace Log

variable {r : Record} {log rest : Bytes} {entry : Nat}

def headerOf (r : Record) : Bytes :=
  littleEndian32 (Crc32.checksum r.encode) ++ littleEndian32 (UInt32.ofNat r.encode.length)

theorem frame_eq (r : Record) : frame r = headerOf r ++ (r.encode ++ [0x0A]) := by
  simp [frame, frameOf, headerOf]

theorem frame_ne_nil (r : Record) : frame r ≠ [] := List.cons_ne_nil _ _

@[simp] theorem length_headerOf (r : Record) : (headerOf r).length = 8 := rfl

theorem toNat_length (hr : r.Fits) : (UInt32.ofNat r.encode.length).toNat = r.encode.length :=
  UInt32.toNat_ofNat_of_lt' hr

theorem head_of_length_lt (h : log.length < 8) : head log = .torn := by
  unfold head
  split
  · simp only [List.length_cons] at h
    omega
  · rfl

theorem head_words (crc length : UInt32) (body : Bytes) :
    head (littleEndian32 crc ++ (littleEndian32 length ++ body)) =
      if body.length ≤ length.toNat then .torn
      else if Crc32.checksum (body.take length.toNat) = crc then
        match Record.decode? (body.take length.toNat) with
        | none => .undecodable
        | some s => .whole s (body.drop (length.toNat + 1))
      else .mismatch crc (Crc32.checksum (body.take length.toNat)) := by
  cases hdecoded : Record.decode? (body.take length.toNat) <;>
    simp only [littleEndian32, List.cons_append, List.nil_append, head, word32_littleEndian32,
      hdecoded]

theorem head_headerOf (hr : r.Fits) (body : Bytes) :
    head (headerOf r ++ body) =
      if body.length ≤ r.encode.length then .torn
      else if Crc32.checksum (body.take r.encode.length) = Crc32.checksum r.encode then
        match Record.decode? (body.take r.encode.length) with
        | none => .undecodable
        | some s => .whole s (body.drop (r.encode.length + 1))
      else .mismatch (Crc32.checksum r.encode) (Crc32.checksum (body.take r.encode.length)) := by
  rw [headerOf, List.append_assoc, head_words, toNat_length hr]

theorem head_frame (hr : r.Fits) (rest : Bytes) : head (frame r ++ rest) = .whole r rest := by
  rw [frame_eq, List.append_assoc, head_headerOf hr, if_neg (by simp), List.append_assoc,
    List.take_left, if_pos rfl, Record.decode?_encode]
  simp

theorem prefix_frame {t : Bytes} (h : t <+: frame r) (hlt : t.length < (frame r).length) :
    t.length < 8 ∨ ∃ b, b <+: r.encode ∧ t = headerOf r ++ b := by
  by_cases hshort : t.length < 8
  · exact .inl hshort
  · refine .inr ⟨r.encode.take (t.length - 8), List.take_prefix .., ?_⟩
    have hle : t.length - 8 ≤ r.encode.length := by
      rw [length_frame] at hlt
      omega
    have ht := List.prefix_iff_eq_take.mp h
    rw [frame_eq, List.take_append, List.take_of_length_le (by rw [length_headerOf]; omega),
      length_headerOf, List.take_append_of_le_length hle] at ht
    exact ht

theorem head_of_prefix {t : Bytes} (hr : r.Fits) (h : t <+: frame r)
    (hlt : t.length < (frame r).length) : head t = .torn := by
  rcases prefix_frame h hlt with hshort | ⟨b, hb, rfl⟩
  · exact head_of_length_lt hshort
  · rw [head_headerOf hr, if_pos hb.length_le]

def readFrom (entry : Nat) (log : Bytes) : Except LogError (List Record) := scan log.length entry log

theorem replay_eq (log : Bytes) : replay log = readFrom 0 log := rfl

theorem length_of_head_whole (h : head log = .whole r rest) : rest.length < log.length := by
  unfold head at h
  split at h
  · dsimp only at h
    split at h
    · cases h
    · split at h
      · split at h
        · cases h
        · cases h
          simp only [List.length_drop, List.length_cons]
          omega
      · cases h
  · cases h

theorem scan_of_le {fuel : Nat} (h : log.length ≤ fuel) : scan fuel entry log = readFrom entry log := by
  have hfuel : ∀ (fuel fuel' entry : Nat) (log : Bytes), log.length ≤ fuel → log.length ≤ fuel' →
      scan fuel entry log = scan fuel' entry log := by
    intro fuel
    induction fuel with
    | zero =>
      intro fuel' entry log h _
      obtain rfl := List.length_eq_zero_iff.mp (Nat.le_zero.mp h)
      cases fuel' <;> rfl
    | succ fuel ih =>
      intro fuel' entry log h h'
      cases fuel' with
      | zero =>
        obtain rfl := List.length_eq_zero_iff.mp (Nat.le_zero.mp h')
        rfl
      | succ fuel' =>
        unfold scan
        split
        · rfl
        · rfl
        · rfl
        · rename_i r rest hhead
          have hlt := length_of_head_whole hhead
          rw [ih fuel' (entry + 1) rest (by omega) (by omega)]
  exact hfuel fuel log.length entry log h (Nat.le_refl _)

theorem readFrom_eq (entry : Nat) (log : Bytes) :
    readFrom entry log =
      match head log with
      | .torn => .ok []
      | .mismatch stored computed => .error (.mismatch entry stored computed)
      | .undecodable => .error (.undecodable entry)
      | .whole r rest => (readFrom (entry + 1) rest).map (r :: ·) := by
  rw [← scan_of_le (Nat.le_succ log.length), scan]
  cases hhead : head log with
  | torn => rfl
  | mismatch stored computed => rfl
  | undecodable => rfl
  | whole r rest =>
    dsimp only
    rw [scan_of_le (Nat.le_of_lt (length_of_head_whole hhead))]

theorem readFrom_of_torn (h : head log = .torn) : readFrom entry log = .ok [] := by
  rw [readFrom_eq, h]

theorem readFrom_of_whole (h : head log = .whole r rest) :
    readFrom entry log = (readFrom (entry + 1) rest).map (r :: ·) := by
  rw [readFrom_eq, h]

def frames (rs : List Record) : Bytes := rs.flatMap frame

@[simp] theorem frames_append (rs ss : List Record) : frames (rs ++ ss) = frames rs ++ frames ss :=
  List.flatMap_append

theorem readFrom_frames {rs : List Record} (hrs : ∀ r ∈ rs, r.Fits) (entry : Nat) (rest : Bytes) :
    readFrom entry (frames rs ++ rest) = (readFrom (entry + rs.length) rest).map (rs ++ ·) := by
  induction rs generalizing entry with
  | nil =>
    rw [frames, List.flatMap_nil, List.nil_append, List.length_nil, Nat.add_zero]
    cases readFrom entry rest <;> rfl
  | cons r rs ih =>
    have hhead : head (frames (r :: rs) ++ rest) = .whole r (frames rs ++ rest) := by
      rw [frames, List.flatMap_cons, List.append_assoc]
      exact head_frame (hrs r (List.mem_cons_self ..)) _
    rw [readFrom_of_whole hhead, ih (fun s hs => hrs s (List.mem_cons_of_mem _ hs)),
      List.length_cons, Nat.add_assoc, Nat.add_comm 1]
    cases readFrom (entry + (rs.length + 1)) rest <;> rfl

theorem replay_frames {rs : List Record} (hrs : ∀ r ∈ rs, r.Fits) : replay (frames rs) = .ok rs := by
  have h := readFrom_frames hrs 0 []
  rw [List.append_nil] at h
  rw [replay_eq, h, readFrom_of_torn (head_of_length_lt (by decide))]
  simp [Except.map]

def survivors : List Record → Nat → List Record
  | [], _ => []
  | r :: rs, cut =>
      if (frame r).length ≤ cut then r :: survivors rs (cut - (frame r).length) else []

theorem take_frames (rs : List Record) (cut : Nat) :
    ∃ t, (frames rs).take cut = frames (survivors rs cut) ++ t ∧
      (t = [] ∨ ∃ r ∈ rs, t <+: frame r ∧ t.length < (frame r).length) := by
  induction rs generalizing cut with
  | nil => exact ⟨[], by simp [frames, survivors], .inl rfl⟩
  | cons r rs ih =>
    rw [survivors]
    split
    · rename_i hle
      obtain ⟨t, ht, htorn⟩ := ih (cut - (frame r).length)
      refine ⟨t, ?_, htorn.imp_right ?_⟩
      · rw [frames, List.flatMap_cons, List.take_append, List.take_of_length_le hle,
          show rs.flatMap frame = frames rs from rfl, ht, ← List.append_assoc]
        rfl
      · rintro ⟨s, hs, hprefix⟩
        exact ⟨s, List.mem_cons_of_mem _ hs, hprefix⟩
    · rename_i hlt
      have hle : cut ≤ (frame r).length := Nat.le_of_not_le hlt
      refine ⟨(frame r).take cut, ?_, .inr ⟨r, List.mem_cons_self .., List.take_prefix .., ?_⟩⟩
      · rw [frames, List.flatMap_cons, List.take_append_of_le_length hle]
        rfl
      · rw [List.length_take]
        omega

theorem survivors_subset {rs : List Record} {cut : Nat} : ∀ r ∈ survivors rs cut, r ∈ rs := by
  induction rs generalizing cut with
  | nil => exact fun _ h => h
  | cons s rs ih =>
    intro r hr
    rw [survivors] at hr
    split at hr
    · rcases List.mem_cons.mp hr with rfl | hr
      · exact List.mem_cons_self ..
      · exact List.mem_cons_of_mem _ (ih r hr)
    · exact nomatch hr

theorem replay_take {rs : List Record} (hrs : ∀ r ∈ rs, r.Fits) (cut : Nat) :
    replay ((frames rs).take cut) = .ok (survivors rs cut) := by
  obtain ⟨t, ht, htorn⟩ := take_frames rs cut
  have hhead : head t = .torn := by
    rcases htorn with rfl | ⟨r, hr, hprefix, hlt⟩
    · exact head_of_length_lt (by decide)
    · exact head_of_prefix (hrs r hr) hprefix hlt
  rw [ht, replay_eq, readFrom_frames fun r hr => hrs r (survivors_subset r hr),
    readFrom_of_torn hhead]
  simp [Except.map]

def wholeFrames (rs : List Record) (n : Nat) : Nat :=
  (List.range rs.length).countP (fun i => decide ((frames (rs.take (i + 1))).length ≤ n))

theorem length_frames_cons (r : Record) (rs : List Record) :
    (frames (r :: rs)).length = (frame r).length + (frames rs).length := by
  rw [frames, List.flatMap_cons, List.length_append]
  rfl

theorem wholeFrames_cons (r : Record) (rs : List Record) (n : Nat) :
    wholeFrames (r :: rs) n =
      if (frame r).length ≤ n then wholeFrames rs (n - (frame r).length) + 1 else 0 := by
  have hfirst : (frames [r]).length = (frame r).length := by
    rw [length_frames_cons]
    rfl
  rw [wholeFrames, List.length_cons, List.range_succ_eq_map, List.countP_cons, List.countP_map]
  simp only [Function.comp_def, Nat.succ_eq_add_one, List.take_succ_cons, List.take_zero, hfirst,
    length_frames_cons, decide_eq_true_eq]
  split
  · rename_i hle
    rw [wholeFrames]
    congr 1
    refine List.countP_congr fun i _ => ?_
    simp only [decide_eq_true_eq]
    omega
  · rename_i hlt
    refine Nat.add_eq_zero_iff.mpr ⟨List.countP_eq_zero.mpr fun i _ => ?_, rfl⟩
    simp only [decide_eq_true_eq]
    omega

theorem survivors_eq_take (rs : List Record) (n : Nat) : survivors rs n = rs.take (wholeFrames rs n) := by
  induction rs generalizing n with
  | nil => rfl
  | cons r rs ih =>
    rw [survivors, wholeFrames_cons]
    split
    · rw [List.take_succ_cons, ih]
    · rfl

end Log

namespace LogFile

theorem foldl_append (rs : List Record) (log : Bytes) :
    rs.foldl append (.content log) = .content (log ++ Log.frames rs) := by
  induction rs generalizing log with
  | nil => rw [Log.frames, List.flatMap_nil, List.append_nil, List.foldl_nil]
  | cons r rs ih =>
    rw [List.foldl_cons, append, bytes, ih, Log.frames, Log.frames, List.flatMap_cons,
      List.append_assoc]

theorem replay_written_prefix (rs : List Record) (hrs : ∀ r ∈ rs, r.Fits) :
    ∃ log, rs.foldl append (.content []) = .content log ∧
      (∀ n, (content (log.take n)).replay = .ok (rs.take (Log.wholeFrames rs n))) ∧
      (content log).replay = .ok rs := by
  refine ⟨Log.frames rs, foldl_append rs [], fun n => ?_, Log.replay_frames hrs⟩
  rw [replay, Log.replay_take hrs, Log.survivors_eq_take]

theorem unterminated_frame_skipped : ∃ log,
    [Record.removal "a", .removal "b"].foldl append (.content []) = .content log ∧ log.length = 68 ∧
      (content (log.take 67)).replay = .ok [.removal "a"] := by
  have hfits : ∀ r ∈ [Record.removal "a", .removal "b"], r.Fits := by
    simp only [Record.Fits]
    decide +kernel
  obtain ⟨log, hlog, hcut, -⟩ := replay_written_prefix [.removal "a", .removal "b"] hfits
  have hwhole : Log.wholeFrames [.removal "a", .removal "b"] 67 = 1 := by decide +kernel
  have hbytes : log = Log.frames [.removal "a", .removal "b"] :=
    LogFile.content.inj (hlog.symm.trans (foldl_append _ []))
  refine ⟨log, hlog, ?_, ?_⟩
  · rw [hbytes]
    decide +kernel
  · rw [hcut, hwhole]
    rfl

end LogFile

end QuorumStore
