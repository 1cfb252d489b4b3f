import QuorumStore.Proofs.HintKeeping
import QuorumStore.Proofs.Interruption

namespace QuorumStore

def Request.about (key : Key) : Request → Prop
  | .get k => k = key
  | .put k _ => k = key
  | .putHinted _ k _ => k = key
  | .repairPush k _ => k = key
  | .handoff k _ => k = key
  | .digest _ _ => False
  | .bucketKeys _ _ _ => False

namespace Replica

variable {p : Placement} {self : NodeId} {now : UInt64} {r : Replica} {key : Key}

theorem merge_isOk (h : key ∉ r.store.damaged) (vs : List Version) :
    (r.merge key vs).1.isOk = true := by
  unfold merge Store.merge
  rw [if_neg h]
  dsimp only
  split <;> rename_i heq <;> split at heq <;> cases heq <;> rfl

theorem handle_isOk (h : key ∉ r.store.damaged) {request : Request} (habout : request.about key) :
    (r.handle p self now request).1.isOk = true := by
  have hmap : ∀ {α β : Type} {f : α → β} {x : Except ReplicaError α}, x.isOk = true →
      (x.map f).isOk = true := by
    intro α β f x hx
    cases x with
    | ok a => rfl
    | error e => cases hx
  cases request with
  | get k =>
    obtain rfl := habout
    refine hmap ?_
    rw [read, Store.read, if_neg h]
    rfl
  | put k v => exact habout ▸ hmap (merge_isOk h [v])
  | putHinted target k v => rfl
  | repairPush k vs => exact habout ▸ hmap (merge_isOk h vs)
  | handoff k vs => exact habout ▸ hmap (merge_isOk h vs)
  | digest peer depth => exact absurd habout id
  | bucketKeys peer depth buckets => exact absurd habout id

end Replica

theorem Replica.Change.hints {r r' : Replica} {request : Request} (h : r.Change request r')
    {target : NodeId} {key : Key} {w : VersionVector} (hw : r.hints.Hints target key w) :
    r'.hints.Hints target key w := by
  cases h with
  | none => exact hw
  | merge => exact hw
  | hint => exact HintTable.hints_record_of_hints hw

namespace Cluster

variable {up : NodeId → Bool} {key : Key} {c : Cluster} {w : VersionVector} {n : NodeId}

def Answers (n : NodeId) (key : Key) (c : Cluster) : Prop :=
  ∀ request : Request, request.about key → (send n request c).1.answer.isOk = true

def Silent (n : NodeId) (key : Key) (c : Cluster) : Prop :=
  ∀ request : Request, request.about key → (send n request c).1.answer.isOk = false

def Divided (up : NodeId → Bool) (key : Key) (c : Cluster) : Prop :=
  ∀ n, (up n = true → Answers n key c) ∧ (up n = false → Silent n key c)

structure Steady (up : NodeId → Bool) (key : Key) (c : Cluster) : Prop where
  serves : ∀ n, up n = true → c.Serves n ∧ key ∉ (c.replica n).store.damaged
  refuses : ∀ n, up n = false → c.Refuses n

@[simp] theorem isOk_mapError {α β γ : Type} {f : α → β} {x : Except α γ} :
    (x.mapError f).isOk = x.isOk := by
  cases x <;> rfl

theorem answers_of_serves (hc : c.Honest) {n : NodeId} (h : c.Serves n)
    (hkey : key ∉ (c.replica n).store.damaged) : Answers n key c := by
  intro request habout
  obtain ⟨tally, heq⟩ := send_of_serves hc h request
  rw [heq]
  exact isOk_mapError.trans (Replica.handle_isOk hkey habout)

theorem silent_of_refuses (hc : c.Honest) {n : NodeId} (h : c.Refuses n) : Silent n key c := by
  intro request _
  obtain ⟨e, tally, heq⟩ := send_of_refuses hc h request
  rw [heq]
  rfl

theorem serves_of_answers (hc : c.Honest) {n : NodeId} (h : Answers n key c) :
    c.Serves n ∧ key ∉ (c.replica n).store.damaged := by
  have hget := h (.get key) rfl
  rcases c.refuses_or_reached n with hrefuses | hreached
  · rw [silent_of_refuses hc hrefuses (.get key) rfl] at hget
    cases hget
  · have hprompt : (c.condition n).stalled = false := by
      refine Bool.eq_false_iff.mpr fun hstalled => ?_
      have htimeout := send_of_stalled hc hreached (show (_ && (Request.get key).usesStore) = true by
        rw [hstalled]
        rfl)
      rw [htimeout] at hget
      cases hget
    refine ⟨⟨hreached, hprompt⟩, fun hdamaged => ?_⟩
    obtain ⟨tally, heq⟩ := send_of_serves hc ⟨hreached, hprompt⟩ (.get key)
    rw [heq] at hget
    rw [isOk_mapError] at hget
    simp only [Replica.handle, Replica.read, Store.read, if_pos hdamaged] at hget
    cases hget

theorem refuses_of_silent (hc : c.Honest) {n : NodeId} (h : Silent n key c) : c.Refuses n := by
  refine (c.refuses_or_reached n).resolve_right fun hreached => ?_
  have hhint := h (.putHinted n key (.deletion ∅ 0)) rfl
  obtain ⟨tally, heq⟩ := send_of_reached hc hreached
    (show (_ && (Request.putHinted n key (.deletion ∅ 0)).usesStore) = false from Bool.and_false _)
  rw [heq] at hhint
  cases hhint

theorem divided_iff_steady (hc : c.Honest) : Divided up key c ↔ Steady up key c := by
  constructor
  · intro h
    exact ⟨fun n hn => serves_of_answers hc ((h n).1 hn),
      fun n hn => refuses_of_silent hc ((h n).2 hn)⟩
  · intro h n
    exact ⟨fun hn => answers_of_serves hc (h.serves n hn).1 (h.serves n hn).2,
      fun hn => silent_of_refuses hc (h.refuses n hn)⟩

def Incident.Stable (up : NodeId → Bool) (key : Key) : Incident → Prop
  | .fares n condition =>
      if up n then condition.cutOff = false ∧ condition.down = false ∧
        condition.unregistered = false ∧ condition.stalled = false
      else condition.cutOff = true ∨ condition.down = true ∨ condition.unregistered = true
  | .losing _ => False
  | .damage n k => k = key → up n = false
  | .settled _ target k _ => k = key → up target = true
  | _ => True

def Environment.stable (up : NodeId → Bool) (key : Key) : Environment :=
  ⟨Incident.Stable up key, fun _ _ => trivial, fun _ _ => trivial⟩

theorem sameNetwork_place (c : Cluster) (n : NodeId) (r : Replica) : c.SameNetwork (c.place n r) := by
  refine ⟨?_, ?_, ?_, ?_, ?_, ?_, fun m => contains_place c n m r⟩
  all_goals
    unfold place
    split <;> rfl

namespace Steady

theorem of_same {d : Cluster} (h : Steady up key c) (hreplicas : ∀ n, d.replicas.contains n =
      c.replicas.contains n) (hconditions : d.conditions = c.conditions) (hlossy : d.lossy = c.lossy)
    (hdamaged : ∀ n, up n = true → key ∉ (c.replica n).store.damaged →
      key ∉ (d.replica n).store.damaged) : Steady up key d := by
  have hcondition : ∀ n, d.condition n = c.condition n := by
    intro n
    rw [condition, hconditions]
    rfl
  have hregistered : ∀ n, d.isRegistered n = c.isRegistered n := by
    intro n
    rw [isRegistered, hreplicas, hcondition]
    rfl
  have hup : ∀ n, d.isUp n = c.isUp n := by
    intro n
    rw [isUp, hcondition]
    rfl
  refine ⟨fun n hn => ?_, fun n hn => ?_⟩
  · obtain ⟨⟨⟨hreg, hisup, huncut, hlossless⟩, hprompt⟩, hkey⟩ := h.serves n hn
    refine ⟨⟨⟨?_, ?_, ?_, ?_⟩, ?_⟩, hdamaged n hn hkey⟩
    · rw [hregistered, hreg]
    · rw [hup, hisup]
    · rw [hcondition, huncut]
    · rw [hlossy, hlossless]
    · rw [hcondition, hprompt]
  · have hrefuses := h.refuses n hn
    rwa [Refuses, hregistered, hup, hcondition, hlossy]

theorem of_sameNetwork {d : Cluster} (h : Steady up key c) (hd : c.SameNetwork d)
    (hdamaged : ∀ n, up n = true → key ∉ (c.replica n).store.damaged →
      key ∉ (d.replica n).store.damaged) : Steady up key d :=
  h.of_same hd.contains hd.conditions hd.lossy hdamaged

theorem send (hc : c.Honest) (h : Steady up key c) (n : NodeId) (request : Request) :
    Steady up key (Cluster.send n request c).2 := by
  refine h.of_sameNetwork (sameNetwork_send n request hc) fun m _ hm => ?_
  rwa [(change_send hc n m request).damaged]

theorem place (h : Steady up key c) (n : NodeId) {r : Replica}
    (hr : up n = true → key ∉ (c.replica n).store.damaged → key ∉ r.store.damaged) :
    Steady up key (c.place n r) := by
  refine h.of_sameNetwork (sameNetwork_place c n r) fun m hm hkey => ?_
  refine of_place (P := fun r => key ∉ r.store.damaged) hkey fun hmn => ?_
  subst hmn
  exact hr hm hkey

theorem fares (h : Steady up key c) {n : NodeId} {condition : Condition}
    (hcondition : Incident.Stable up key (.fares n condition)) :
    Steady up key (Incident.befall c (.fares n condition)) := by
  refine ⟨fun m hm => ?_, fun m hm => ?_⟩
  · obtain ⟨⟨⟨hreg, hisup, huncut, hlossless⟩, hprompt⟩, hkey⟩ := h.serves m hm
    by_cases hmn : m = n
    · subst hmn
      rw [Incident.Stable, if_pos hm] at hcondition
      obtain ⟨hcut, hdown, hunregistered, hstalled⟩ := hcondition
      refine ⟨⟨⟨?_, ?_, ?_, hlossless⟩, ?_⟩, hkey⟩
      · simp [Incident.befall, isRegistered_contains hreg, hunregistered]
      · simp [Incident.befall, hdown]
      · simp [Incident.befall, hcut]
      · simp [Incident.befall, hstalled]
    · refine ⟨⟨⟨?_, ?_, ?_, hlossless⟩, ?_⟩, hkey⟩
      · simp [Incident.befall, hmn, hreg]
      · simp [Incident.befall, hmn, hisup]
      · simp [Incident.befall, hmn, huncut]
      · simp [Incident.befall, hmn, hprompt]
  · have hrefuses := h.refuses m hm
    by_cases hmn : m = n
    · subst hmn
      rw [Incident.Stable, if_neg (by rw [hm]; exact Bool.false_ne_true)] at hcondition
      rcases hcondition with hcut | hdown | hunregistered
      · exact .inr (.inr (.inl (by simp [Incident.befall, hcut])))
      · exact .inr (.inl (by simp [Incident.befall, hdown]))
      · exact .inl (by simp [Incident.befall, hunregistered])
    · simpa [Refuses, Incident.befall, hmn] using hrefuses

end Steady

theorem steady_befall (up : NodeId → Bool) (key : Key) :
    (Environment.stable up key).Keeps (fun c => c.Honest ∧ Steady up key c) := by
  rintro i hi c ⟨hc, h⟩
  refine ⟨honest_befall _ i hi c hc, ?_⟩
  cases i with
  | call n request => exact h.send hc n request
  | fares n condition => exact h.fares hi
  | counted m k => exact h.of_same (fun _ => rfl) rfl rfl fun _ _ hm => hm
  | slowed latency => exact h.of_same (fun _ => rfl) rfl rfl fun _ _ hm => hm
  | tick clock => exact h.of_same (fun _ => rfl) rfl rfl fun _ _ hm => hm
  | losing lossy => exact absurd hi id
  | damage n k =>
    refine h.place n fun hn hkey => ?_
    have hne : key ≠ k := by
      rintro rfl
      rw [hi rfl] at hn
      cases hn
    dsimp only
    rw [Store.damage]
    split
    · exact hkey
    · exact fun hmem => (List.mem_cons.mp hmem).elim hne hkey
  | mend n k =>
    refine h.place n fun _ hkey hmem => hkey ?_
    exact (List.mem_filter.mp hmem).1
  | settled n target k vs => exact h.place n fun _ hkey => hkey
  | undelivered n target k hint => exact h.place n fun _ hkey => hkey

def Retains (up : NodeId → Bool) (key : Key) (w : VersionVector) (n : NodeId) (c : Cluster) : Prop :=
  up n = true ∧
    (Covers n key w c ∨ ∃ target, up target = false ∧ (c.replica n).hints.Hints target key w)

theorem retains_send (hc : c.Honest) (m : NodeId) (request : Request) (h : Retains up key w n c) :
    Retains up key w n (send m request c).2 := by
  obtain ⟨hn, h | ⟨target, htarget, h⟩⟩ := h
  · exact ⟨hn, .inl (covers_send hc m request h)⟩
  · exact ⟨hn, .inr ⟨target, htarget, (change_send hc m n request).hints h⟩⟩

theorem retains_place {m : NodeId} {r : Replica} (hstore : r.store.engine = (c.replica m).store.engine)
    (hhints : ∀ target, up target = false → (c.replica m).hints.Hints target key w →
      r.hints.Hints target key w) (h : Retains up key w n c) : Retains up key w n (c.place m r) := by
  obtain ⟨hn, h | ⟨target, htarget, h⟩⟩ := h
  · exact ⟨hn, .inl (covers_place hstore h)⟩
  · refine ⟨hn, .inr ⟨target, htarget, ?_⟩⟩
    refine of_place (P := fun r => r.hints.Hints target key w) h fun hnm => ?_
    subst hnm
    exact hhints target htarget h

theorem retains_befall (up : NodeId → Bool) (key : Key) (w : VersionVector) (n : NodeId) :
    (Environment.stable up key).Keeps
      (fun c => (c.Honest ∧ Steady up key c) ∧ Retains up key w n c) := by
  rintro i hi c ⟨hc, h⟩
  refine ⟨steady_befall up key i hi c hc, ?_⟩
  cases i with
  | call m request => exact retains_send hc.1 m request h
  | fares m condition => exact h
  | counted m k => exact h
  | slowed latency => exact h
  | tick clock => exact h
  | losing lossy => exact absurd hi id
  | damage m k =>
    refine retains_place ?_ (fun _ _ hw => hw) h
    dsimp only
    rw [Store.damage]
    split <;> rfl
  | mend m k => exact retains_place rfl (fun _ _ hw => hw) h
  | undelivered m target k hint =>
    exact retains_place rfl (fun _ _ hw => HintTable.hints_countFailure hw) h
  | settled m target k vs =>
    refine retains_place rfl (fun target' htarget' hw => HintTable.hints_settle ?_ hw) h
    rintro ⟨rfl, rfl⟩
    rw [hi rfl] at htarget'
    cases htarget'

theorem covered_of_retains (hc : c.Honest) {vs : List Version}
    (hvs : (send n (.get key) c).1.answer = .ok (.versions vs)) (h : Retains up key w n c) :
    Version.Covered vs w := by
  obtain ⟨-, h | ⟨target, -, h⟩⟩ := h
  · exact (covered_of_send_get hc hvs w).mpr (.inl h)
  · exact (covered_of_send_get hc hvs w).mpr (.inr (HintTable.covered_hinted h))

theorem isOk_send (hc : c.Honest) (h : Steady up key c) (n : NodeId) {request : Request}
    (habout : request.about key) : (send n request c).1.answer.isOk = up n := by
  cases hn : up n with
  | true => exact answers_of_serves hc (h.serves n hn).1 (h.serves n hn).2 request habout
  | false => exact silent_of_refuses hc (h.refuses n hn) request habout

theorem versions_of_up (hc : c.Honest) (h : Steady up key c) (hn : up n = true) :
    ∃ vs, (send n (.get key) c).1.answer = .ok (.versions vs) := by
  obtain ⟨tally, heq⟩ := send_of_serves hc (h.serves n hn).1 (.get key)
  rw [heq]
  cases hget : ((c.replica n).handle c.placement n c.clock (.get key)).1 with
  | error e =>
    have hok : ((c.replica n).handle c.placement n c.clock (.get key)).1.isOk = true :=
      Replica.handle_isOk (h.serves n hn).2 (show (Request.get key).about key from rfl)
    rw [hget] at hok
    cases hok
  | ok response =>
    obtain ⟨vs, rfl, -⟩ := Replica.covered_of_handle_get hget
    exact ⟨vs, rfl⟩

theorem retains_of_put (hc : c.Honest) (h : Steady up key c) {v : Version} {response : Response}
    (hput : (send n (.put key v) c).1.answer = .ok response) :
    Retains up key v.vector n (send n (.put key v) c).2 := by
  have hn := isOk_send hc h n (show (Request.put key v).about key from rfl)
  rw [hput] at hn
  exact ⟨hn.symm, .inl (covers_of_send_put hc hput)⟩

theorem retains_of_hint (hc : c.Honest) (h : Steady up key c) {v : Version} {target : NodeId}
    {response : Response} (htarget : up target = false)
    (hhint : (send n (.putHinted target key v) c).1.answer = .ok response) :
    Retains up key v.vector n (send n (.putHinted target key v) c).2 := by
  have hn := isOk_send hc h n (show (Request.putHinted target key v).about key from rfl)
  rw [hhint] at hn
  refine ⟨hn.symm, .inr ⟨target, htarget, ?_⟩⟩
  rw [(handled_of_send hc hhint).2]
  exact HintTable.hints_record _ target key v _

theorem down_of_error (hc : c.Honest) (h : Steady up key c) {request : Request}
    (habout : request.about key) {e : CallError} (herror : (send n request c).1.answer = .error e) :
    up n = false := by
  have hn := isOk_send hc h n habout
  rw [herror] at hn
  exact hn.symm

end Cluster

end QuorumStore
