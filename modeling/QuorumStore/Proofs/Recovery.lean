import QuorumStore.Engine
import QuorumStore.Proofs.TornTail

namespace QuorumStore

inductive Change where
  | replace (key : Key) (versions : List Version)
  | remove (key : Key)
  deriving DecidableEq

namespace Change

def record : Change → Record
  | .replace key versions => ⟨key, versions⟩
  | .remove key => .removal key

def Fits (c : Change) : Prop := c.record.Fits

instance (c : Change) : Decidable c.Fits := inferInstanceAs (Decidable c.record.Fits)

def surviving : List Change → Nat → List Change
  | [], _ => []
  | c :: cs, cut =>
      if (Log.frame c.record).length ≤ cut then
        c :: surviving cs (cut - (Log.frame c.record).length)
      else []

theorem map_surviving (cs : List Change) (cut : Nat) :
    (surviving cs cut).map record = Log.survivors (cs.map record) cut := by
  induction cs generalizing cut with
  | nil => rfl
  | cons c cs ih =>
    rw [surviving, List.map_cons, Log.survivors]
    split
    · rw [List.map_cons, ih]
    · rfl

theorem surviving_eq_take (cs : List Change) (cut : Nat) :
    surviving cs cut = cs.take (surviving cs cut).length := by
  induction cs generalizing cut with
  | nil => rfl
  | cons c cs ih =>
    rw [surviving]
    split
    · rw [List.length_cons, List.take_succ_cons, ← ih]
    · rfl

def mark (key : Key) (time : UInt64) : Change := .replace key [.live [] ∅ time]

theorem fits_mark : (mark "" 0).Fits ∧ (mark "" 1).Fits := by
  decide +kernel

theorem fits_mark_longKey : (mark Log.longKey 0).Fits ∧ (mark Log.longKey 1).Fits := by
  decide +kernel

end Change

namespace Memtable

def change (t : Memtable) : Change → Memtable
  | .replace key versions => t.replace key versions
  | .remove key => t.remove key

def changes (t : Memtable) (cs : List Change) : Memtable := cs.foldl change t

theorem change_eq (t : Memtable) (c : Change) : t.change c = t.apply c.record := by
  cases c <;> rfl

theorem ofRecords_map_record (cs : List Change) :
    ofRecords (cs.map Change.record) = empty.changes cs := by
  rw [ofRecords, List.foldl_map, changes]
  simp only [← change_eq]

theorem get?_changes_replace (t : Memtable) (cs : List Change) (key : Key) (v : Version) :
    (t.changes (cs ++ [.replace key [v]])).get? key = some [v] := by
  have happend : t.changes (cs ++ [.replace key [v]]) = (t.changes cs).replace key [v] := by
    rw [changes, List.foldl_append]
    rfl
  simp [happend]

end Memtable

def LogFile.cut (length : Nat) : LogFile → LogFile
  | .content log => .content (log.take length)
  | file => file

namespace Engine

variable {e : Engine} {log : Bytes} {cs : List Change}

def change (e : Engine) : Change → Engine
  | .replace key versions => e.replace key versions
  | .remove key => e.remove key

def changes (e : Engine) (cs : List Change) : Engine := cs.foldl change e

def created : Engine := ⟨.empty, some []⟩

theorem change_eq (e : Engine) (c : Change) : e.change c = e.write c.record := by
  cases c <;> rfl

theorem log_changes (he : e.log = some log) :
    (e.changes cs).log = some (log ++ Log.frames (cs.map Change.record)) := by
  induction cs generalizing e log with
  | nil => rw [List.map_nil, Log.frames, List.flatMap_nil, List.append_nil, ← he, changes, List.foldl_nil]
  | cons c cs ih =>
    have hlog : (e.change c).log = some (log ++ Log.frame c.record) := by
      rw [change_eq, write, he]
      rfl
    rw [changes, List.foldl_cons, ← changes, ih hlog, List.map_cons, Log.frames, Log.frames,
      List.flatMap_cons, List.append_assoc]

theorem file_changes (he : e.log = some log) :
    (e.changes cs).file = .content (log ++ Log.frames (cs.map Change.record)) := by
  rw [file, log_changes he]

theorem file_created_changes (cs : List Change) :
    (created.changes cs).file = .content (Log.frames (cs.map Change.record)) := by
  rw [file_changes rfl, List.nil_append]

theorem open?_ok {records : List Record} (h : Log.readFrom 0 log = .ok records) :
    open? (.content log) = .ok ⟨.ofRecords records, some log⟩ := by
  rw [open?, LogFile.replay, Log.replay_eq, h]
  rfl

theorem open?_error {error : LogError} (h : Log.readFrom 0 log = .error error) :
    open? (.content log) = .error (.log error) := by
  rw [open?, LogFile.replay, Log.replay_eq, h]

theorem fits_records (hcs : ∀ c ∈ cs, c.Fits) : ∀ r ∈ cs.map Change.record, r.Fits :=
  List.forall_mem_map.mpr hcs

theorem open?_frames (hcs : ∀ c ∈ cs, c.Fits) :
    open? (.content (Log.frames (cs.map Change.record))) =
      .ok ⟨Memtable.empty.changes cs, some (Log.frames (cs.map Change.record))⟩ := by
  rw [open?_ok (Log.replay_frames (fits_records hcs)), Memtable.ofRecords_map_record]

theorem open?_cut (hcs : ∀ c ∈ cs, c.Fits) (cut : Nat) :
    ∃ recovered, open? ((created.changes cs).file.cut cut) = .ok recovered ∧
      recovered.table = Memtable.empty.changes (Change.surviving cs cut) ∧
      recovered.log = some ((Log.frames (cs.map Change.record)).take cut) := by
  rw [file_created_changes, LogFile.cut, open?_ok (Log.replay_take (fits_records hcs) cut),
    ← Change.map_surviving, Memtable.ofRecords_map_record]
  exact ⟨_, rfl, rfl, rfl⟩

def Logged (e : Engine) : Prop :=
  ∃ records, (∀ r ∈ records, r.Fits) ∧ e.log = some (Log.frames records) ∧
    Memtable.ofRecords records = e.table

namespace Logged

theorem created : created.Logged := ⟨[], List.forall_mem_nil _, rfl, rfl⟩

theorem replay (h : e.Logged) :
    ∃ records, e.file.replay = .ok records ∧ Memtable.ofRecords records = e.table := by
  obtain ⟨records, hfits, hlog, htable⟩ := h
  refine ⟨records, ?_, htable⟩
  rw [file, hlog]
  exact Log.replay_frames hfits

theorem open? (h : e.Logged) : open? e.file = .ok e := by
  obtain ⟨records, hfits, hlog, htable⟩ := h
  rw [file, hlog]
  dsimp only
  rw [open?_ok (Log.replay_frames hfits), htable, ← hlog]

theorem write (h : e.Logged) {r : Record} (hr : r.Fits) : (e.write r).Logged := by
  obtain ⟨records, hfits, hlog, htable⟩ := h
  refine ⟨records ++ [r], ?_, ?_, ?_⟩
  · intro s hs
    rcases List.mem_append.mp hs with hs | hs
    · exact hfits s hs
    · obtain rfl := List.mem_singleton.mp hs
      exact hr
  · rw [Engine.write, hlog, Log.frames_append, Log.frames, Log.frames, List.flatMap_singleton]
    rfl
  · rw [Memtable.ofRecords, List.foldl_append, ← Memtable.ofRecords, htable]
    rfl

end Logged

def Recovers (before : List Change) (cut : Nat) (recovered : Engine) (after : List Change) : Prop :=
  ∃ reopened, open? (recovered.changes after).file = .ok reopened ∧
    reopened.table = Memtable.empty.changes (Change.surviving before cut ++ after)

theorem recovers_of_whole {before after : List Change} {cut n : Nat}
    (hbefore : ∀ c ∈ before, c.Fits) (hafter : ∀ c ∈ after, c.Fits) {recovered : Engine}
    (hlog : recovered.log = some ((Log.frames (before.map Change.record)).take cut))
    (hcut : (Log.frames (before.map Change.record)).take cut =
      Log.frames ((before.take n).map Change.record)) :
    Recovers before cut recovered after := by
  have htake : ∀ c ∈ before.take n, c.Fits := fun c hc => hbefore c (List.mem_of_mem_take hc)
  have hsurviving : (Change.surviving before cut).map Change.record =
      (before.take n).map Change.record := by
    have hreplay := Log.replay_take (fits_records hbefore) cut
    rw [hcut, Log.replay_frames (fits_records htake)] at hreplay
    rw [Change.map_surviving]
    exact (Except.ok.inj hreplay).symm
  have hall : ∀ c ∈ before.take n ++ after, c.Fits := fun c hc =>
    (List.mem_append.mp hc).elim (htake c) (hafter c)
  have hopen : open? (recovered.changes after).file =
      .ok ⟨Memtable.empty.changes (before.take n ++ after),
        some (Log.frames ((before.take n ++ after).map Change.record))⟩ := by
    rw [file_changes hlog, hcut, ← Log.frames_append, ← List.map_append, open?_frames hall]
  refine ⟨_, hopen, ?_⟩
  rw [← Memtable.ofRecords_map_record, ← Memtable.ofRecords_map_record, List.map_append,
    List.map_append, hsurviving]

theorem open?_of_error {before : List Change} {t : Bytes} {c : Change} {error : LogError}
    (hbefore : ∀ c ∈ before, c.Fits)
    (h : Log.readFrom before.length (t ++ Log.frame c.record) = .error error) :
    open? (.content (Log.frames (before.map Change.record) ++ (t ++ Log.frame c.record))) =
      .error (.log error) := by
  refine open?_error ?_
  rw [Log.readFrom_frames (fits_records hbefore), List.length_map, Nat.zero_add, h]
  rfl

theorem open?_of_ok {before : List Change} {t : Bytes} {c : Change} {records : List Record}
    (hbefore : ∀ c ∈ before, c.Fits)
    (h : Log.readFrom before.length (t ++ Log.frame c.record) = .ok records) :
    open? (.content (Log.frames (before.map Change.record) ++ (t ++ Log.frame c.record))) =
      .ok ⟨.ofRecords (before.map Change.record ++ records),
        some (Log.frames (before.map Change.record) ++ (t ++ Log.frame c.record))⟩ := by
  refine open?_ok ?_
  rw [Log.readFrom_frames (fits_records hbefore), List.length_map, Nat.zero_add, h]
  rfl

theorem exists_not_recovers {before : List Change} {cut : Nat} {recovered : Engine} {r : Record}
    {t : Bytes} (hbefore : ∀ c ∈ before, c.Fits)
    (hlog : recovered.log =
      some (Log.frames ((Change.surviving before cut).map Change.record) ++ t))
    (hr : r.Fits) (ht : t <+: Log.frame r) (hlt : t.length < (Log.frame r).length) (hne : t ≠ []) :
    ∃ c : Change, c.Fits ∧ ¬ Recovers before cut recovered [c] := by
  have hsurviving : ∀ c ∈ Change.surviving before cut, c.Fits := by
    intro c hc
    rw [Change.surviving_eq_take] at hc
    exact hbefore c (List.mem_of_mem_take hc)
  have hfile : ∀ c : Change, (recovered.changes [c]).file =
      .content (Log.frames ((Change.surviving before cut).map Change.record) ++
        (t ++ Log.frame c.record)) := by
    intro c
    rw [file_changes hlog, List.append_assoc, List.map_singleton, Log.frames, Log.frames,
      List.flatMap_singleton]
  have hdamaged : ∀ c e, Log.readFrom (Change.surviving before cut).length
      (t ++ Log.frame c.record) = .error e → ¬ Recovers before cut recovered [c] := by
    rintro c e he ⟨reopened, hopen, -⟩
    rw [hfile, open?_of_error hsurviving he] at hopen
    cases hopen
  rcases Log.readFrom_torn hr ht hlt hne (Change.surviving before cut).length with
    ⟨records, hzero, hone⟩ | ⟨e, he⟩ | ⟨e, he⟩
  · by_contra hnone
    have hmark : ∀ time, (Change.mark "" time).Fits →
        Log.readFrom (Change.surviving before cut).length
          (t ++ Log.frame (Change.mark "" time).record) = .ok records →
        (Memtable.ofRecords ((Change.surviving before cut).map Change.record ++ records)).get? "" =
          some [.live [] ∅ time] := by
      intro time hfits hread
      have hrecovers : Recovers before cut recovered [.mark "" time] := by
        by_contra hnot
        exact hnone ⟨_, hfits, hnot⟩
      obtain ⟨reopened, hopen, htable⟩ := hrecovers
      rw [hfile, open?_of_ok hsurviving hread] at hopen
      cases hopen
      dsimp only at htable
      rw [htable]
      exact Memtable.get?_changes_replace ..
    have hboth := (hmark 0 Change.fits_mark.1 hzero).symm.trans (hmark 1 Change.fits_mark.2 hone)
    exact absurd hboth (by decide)
  · exact ⟨.mark Log.longKey 0, Change.fits_mark_longKey.1, hdamaged _ e he⟩
  · exact ⟨.mark Log.longKey 1, Change.fits_mark_longKey.2, hdamaged _ e he⟩

theorem recovers_iff_whole (before : List Change) (hbefore : ∀ c ∈ before, c.Fits) (cut : Nat) :
    ∃ recovered, open? ((created.changes before).file.cut cut) = .ok recovered ∧
      recovered.table = Memtable.empty.changes (Change.surviving before cut) ∧
      ((∀ after : List Change, (∀ c ∈ after, c.Fits) → Recovers before cut recovered after) ↔
        ∃ n, (created.changes before).file.cut cut = (created.changes (before.take n)).file) := by
  obtain ⟨recovered, hopen, htable, hlog⟩ := open?_cut hbefore cut
  refine ⟨recovered, hopen, htable, ?_, ?_⟩
  · intro hall
    obtain ⟨t, ht, htorn⟩ := Log.take_frames (before.map Change.record) cut
    rw [← Change.map_surviving] at ht
    rw [ht] at hlog
    rcases eq_or_ne t [] with rfl | hne
    · refine ⟨(Change.surviving before cut).length, ?_⟩
      rw [file_created_changes, file_created_changes, LogFile.cut, ht, List.append_nil,
        ← Change.surviving_eq_take]
    · obtain ⟨r, hr, hprefix, hlt⟩ := htorn.resolve_left hne
      obtain ⟨c, hc, hnot⟩ := exists_not_recovers hbefore hlog
        (fits_records hbefore r hr) hprefix hlt hne
      exact absurd (hall [c] (List.forall_mem_singleton.mpr hc)) hnot
  · rintro ⟨n, hn⟩ after hafter
    rw [file_created_changes, file_created_changes] at hn
    exact recovers_of_whole hbefore hafter hlog (LogFile.content.inj hn)

theorem removal_recovers : ∃ recovered,
    open? ((created.changes [.remove "old"]).file.cut 36) = .ok recovered ∧
      Recovers [.remove "old"] 36 recovered [.mark "" 1] := by
  have hold : (Change.remove "old").Fits := by decide +kernel
  have hwhole : (created.changes [.remove "old"]).file.cut 36 =
      (created.changes ([Change.remove "old"].take 1)).file := by decide +kernel
  obtain ⟨recovered, hopen, -, hiff⟩ :=
    recovers_iff_whole [.remove "old"] (List.forall_mem_singleton.mpr hold) 36
  exact ⟨recovered, hopen,
    hiff.mpr ⟨1, hwhole⟩ [.mark "" 1] (List.forall_mem_singleton.mpr Change.fits_mark.2)⟩

theorem torn_terminator_loses_change :
    ∃ recovered reopened,
      open? ((created.changes [.remove "old"]).file.cut 35) = .ok recovered ∧
      open? (recovered.changes [.mark "new" 1]).file = .ok reopened ∧
      (Memtable.empty.changes (Change.surviving [.remove "old"] 35 ++ [.mark "new" 1])).get? "new" =
        some [.live [] ∅ 1] ∧
      reopened.table.get? "new" = none := by
  have hold : (Change.remove "old").Fits := by decide +kernel
  have hwhole : (Log.frames [.removal "old"]).take 35 =
      Log.headerOf (.removal "old") ++ (Record.removal "old").encode := by decide +kernel
  have hdrop : Log.head ((Log.frames [(Change.mark "new" 1).record]).drop 1) = .torn :=
    Log.head_of_long (by decide +kernel) (by decide)
  have hread : Log.readFrom 0 ((Log.frames [.removal "old"]).take 35 ++
      Log.frames [(Change.mark "new" 1).record]) = .ok [.removal "old"] := by
    rw [hwhole, List.append_assoc]
    exact Log.readFrom_of_unterminated hold (List.cons_ne_nil _ _) hdrop
  obtain ⟨recovered, hopen, -, hlog⟩ := open?_cut (List.forall_mem_singleton.mpr hold) 35
  have hfile : (recovered.changes [.mark "new" 1]).file =
      .content ((Log.frames [.removal "old"]).take 35 ++ Log.frames [(Change.mark "new" 1).record]) :=
    file_changes hlog
  have hreopen := open?_ok hread
  rw [← hfile] at hreopen
  exact ⟨recovered, _, hopen, hreopen, rfl, rfl⟩

end Engine

end QuorumStore
