import QuorumStore.Cluster
import QuorumStore.Proofs.WriteSpread

namespace QuorumStore

variable {σ : Type} {net : Network σ} {key : Key} {v : Version} {sloppy : Bool}
  {quorum deadline : Nat} {replicas standIns : List NodeId}

def candidates (sloppy : Bool) (replicas standIns : List NodeId) : List NodeId :=
  if sloppy then replicas ++ standIns else replicas

structure Standing (sloppy : Bool) (quorum : Nat) (replicas standIns : List NodeId)
    (calls : List (NodeId × Bool)) (good : Nat) (underWay : List Bool) (left : List NodeId) : Prop where
  receivers : ∃ asked, calls.map Prod.fst = replicas ++ asked ∧ asked ++ left = standIns ∧
    (sloppy = false → asked = [])
  count : calls.countP Prod.snd = good + underWay.countP id
  enough : sloppy = true → quorum ≤ good + underWay.length ∨ left = []
  bound : good ≤ quorum

namespace Standing

variable {calls : List (NodeId × Bool)} {good : Nat} {underWay rest : List Bool} {left : List NodeId}

theorem start (hquorum : quorum ≤ replicas.length) (hcalls : calls.map Prod.fst = replicas) :
    Standing sloppy quorum replicas standIns calls 0 (calls.map Prod.snd) standIns where
  receivers := ⟨[], by rw [hcalls, List.append_nil], rfl, fun _ => rfl⟩
  count := by
    rw [List.countP_map, Nat.zero_add]
    rfl
  enough _ := by
    refine .inl ?_
    rw [List.length_map, Nat.zero_add, ← List.length_map (f := Prod.fst), hcalls]
    exact hquorum
  bound := Nat.zero_le quorum

theorem hear (h : Standing sloppy quorum replicas standIns calls good underWay left)
    (hperm : (true :: rest).Perm underWay) (hfew : good < quorum) :
    Standing sloppy quorum replicas standIns calls (good + 1) rest left where
  receivers := h.receivers
  count := by
    rw [h.count, ← hperm.countP_eq, List.countP_cons_of_pos rfl]
    omega
  enough hsloppy := by
    refine (h.enough hsloppy).imp_left fun hle => ?_
    rw [← hperm.length_eq, List.length_cons] at hle
    omega
  bound := hfew

theorem drop (h : Standing sloppy quorum replicas standIns calls good underWay left)
    (hperm : (false :: rest).Perm underWay)
    (hlast : left = [] ∨ sloppy = false ∨ quorum ≤ good + rest.length) :
    Standing sloppy quorum replicas standIns calls good rest left where
  receivers := h.receivers
  count := by
    rw [h.count, ← hperm.countP_eq, List.countP_cons_of_neg (by decide)]
  enough hsloppy := by
    rcases hlast with hleft | hstrict | hle
    · exact .inr hleft
    · rw [hsloppy] at hstrict
      cases hstrict
    · exact .inl hle
  bound := h.bound

theorem ask {n : NodeId} {ns : List NodeId}
    (h : Standing sloppy quorum replicas standIns calls good underWay (n :: ns))
    (hperm : (false :: rest).Perm underWay) (hsloppy : sloppy = true) (served : Bool) :
    Standing sloppy quorum replicas standIns (calls ++ [(n, served)]) good (rest ++ [served]) ns where
  receivers := by
    obtain ⟨asked, hcalls, horder, -⟩ := h.receivers
    refine ⟨asked ++ [n], ?_, ?_, fun hstrict => ?_⟩
    · rw [List.map_append, hcalls, List.append_assoc]
      rfl
    · rw [← horder, List.append_assoc]
      rfl
    · rw [hsloppy] at hstrict
      cases hstrict
  count := by
    have hcount := h.count
    rw [← hperm.countP_eq, List.countP_cons_of_neg (by decide)] at hcount
    rw [List.countP_append, List.countP_append, hcount]
    cases served <;> simp [Nat.add_assoc]
  enough _ := by
    refine .inl ?_
    have hle := (h.enough hsloppy).resolve_right (by simp)
    rw [← hperm.length_eq, List.length_cons] at hle
    rw [List.length_append, List.length_singleton]
    omega
  bound := h.bound

theorem good_eq {serves : NodeId → Bool}
    (h : Standing sloppy quorum replicas standIns calls good underWay left)
    (hserves : ∀ call ∈ calls, call.2 = serves call.1) (hover : quorum ≤ good ∨ underWay = []) :
    good = min quorum ((candidates sloppy replicas standIns).countP serves) := by
  obtain ⟨asked, hcalls, horder, hstrict⟩ := h.receivers
  have hcount : calls.countP Prod.snd = (replicas ++ asked).countP serves := by
    rw [← hcalls, List.countP_map]
    exact List.countP_congr fun call hcall => by rw [hserves call hcall]; rfl
  have hsub : (replicas ++ asked).countP serves ≤ (candidates sloppy replicas standIns).countP serves := by
    cases sloppy with
    | false => rw [hstrict rfl, List.append_nil]; exact Nat.le_refl _
    | true =>
      rw [candidates, if_pos rfl, ← horder, ← List.append_assoc]
      exact (List.sublist_append_left _ left).countP_le
  have hle := h.bound
  have hgood := h.count
  by_cases hmet : quorum ≤ good
  · omega
  · -- nothing is under way, and short of its quorum the round has nobody left to ask
    obtain rfl : underWay = [] := hover.resolve_left hmet
    have hall : replicas ++ asked = candidates sloppy replicas standIns := by
      cases sloppy with
      | false => rw [hstrict rfl, List.append_nil]; rfl
      | true =>
        have hleft : left = [] := (h.enough rfl).resolve_left (by simpa using hmet)
        rw [candidates, if_pos rfl, ← horder, hleft, List.append_nil]
    rw [← hall, ← hcount, hgood, List.countP_nil]
    omega

end Standing

def Network.asking (net : Network σ) : Network (σ × List (NodeId × Bool)) where
  send n request s :=
    let (reply, t) := net.send n request s.1
    (reply, t, match request with
      | .get _ => s.2 ++ [(n, (reply.answer.bind (Response.expectVersions n)).isOk)]
      | _ => s.2)
  now s := net.now s.1
  count m k s := (net.count m k s.1, s.2)

theorem Network.shows_asking (net : Network σ) : net.Shows net.asking Prod.fst :=
  ⟨fun _ _ _ => rfl, fun _ => rfl, fun _ _ _ => rfl⟩

namespace ReadRound

variable {g : ReadRound} {call : InFlight ReadAnswer} {rest : List (InFlight ReadAnswer)}

def outcomes (calls : List (InFlight ReadAnswer)) : List Bool := calls.map (·.answer.versions.isOk)

theorem askAll_asking (net : Network σ) (key : Key) (ns : List NodeId) (s : σ × List (NodeId × Bool)) :
    let r := askAll net.asking key ns s
    r.2.2 = s.2 ++ r.1.map (fun call => (call.answer.node, call.answer.versions.isOk)) := by
  induction ns generalizing s with
  | nil => exact (List.append_nil s.2).symm
  | cons n ns ih =>
    refine (ih (ask net.asking key false 0 n s).2).trans ?_
    exact List.append_assoc s.2 _ _

def patience (g : ReadRound) : Nat := g.pending.length + g.standIns.length

theorem patience_receive (net : Network σ) (sloppy : Bool) (key : Key) (quorum : Nat)
    (hperm : (call :: rest).Perm g.pending) (s : σ) :
    (receive net sloppy key quorum call.answer
      { g with pending := rest, time := call.due } s).1.patience + 1 = g.patience := by
  have hlength := hperm.length_eq
  rw [List.length_cons] at hlength
  cases hversions : call.answer.versions with
  | ok vs =>
    simp only [receive, hversions, patience, pending_hear, standIns_hear]
    omega
  | error e =>
    simp only [receive, hversions, replace]
    split
    · simp only [patience]
      omega
    · rename_i n ns hns
      have hns : g.standIns = n :: ns := hns
      split
      · simp only [patience, List.length_append, hns, List.length_cons, List.length_nil]
        omega
      · simp only [patience]
        omega

theorem listen_ends {fuel : Nat} {s : σ} (hfuel : g.patience ≤ fuel) :
    let r := (listen net sloppy key quorum deadline fuel g s).1
    quorum ≤ r.successes ∨ r.pending = [] ∨ r.time = deadline := by
  induction fuel generalizing g s with
  | zero =>
    simp only [patience, Nat.le_zero, Nat.add_eq_zero_iff, List.length_eq_zero_iff] at hfuel
    exact .inr (.inl hfuel.1)
  | succ fuel ih =>
    unfold listen
    split
    · rename_i hmet
      exact .inl hmet
    · split
      · rename_i hnone
        exact .inr (.inl (InFlight.earliest_eq_none.mp hnone))
      · rename_i call rest hcall
        split
        · exact .inr (.inr rfl)
        · have hless := patience_receive net sloppy key quorum (InFlight.earliest_perm hcall) s
          exact ih (Nat.le_of_succ_le_succ (Nat.le_trans (Nat.le_of_eq hless) hfuel))

theorem run_ends (net : Network σ) (sloppy : Bool) (key : Key) (replicas standIns : List NodeId)
    (quorum deadline : Nat) (s : σ) :
    let r := (run net sloppy key replicas standIns quorum deadline s).1
    quorum ≤ r.successes ∨ r.pending = [] ∨ r.time = deadline := by
  have hlength : (askAll net key replicas s).1.length = replicas.length := by
    rw [← List.length_map (f := fun c : InFlight ReadAnswer => c.answer.node), map_node_askAll]
  exact listen_ends (Nat.le_of_eq (congrArg (· + standIns.length) hlength))

theorem run_standing (net : Network σ) (sloppy : Bool) (key : Key) (standIns : List NodeId) (deadline : Nat)
    (hquorum : quorum ≤ replicas.length) (s : σ) :
    let r := run net.asking sloppy key replicas standIns quorum deadline (s, [])
    Standing sloppy quorum replicas standIns r.2.2 r.1.successes (outcomes r.1.pending) r.1.standIns := by
  refine listen_induction (M := fun g (t : σ × List (NodeId × Bool)) => Standing sloppy quorum replicas
    standIns t.2 g.successes (outcomes g.pending) g.standIns) ?_ ?_ _ ?_
  · exact fun _ _ _ _ _ _ h => h
  · intro g t call rest hfew hcall _ h
    have hperm : (call.answer.versions.isOk :: outcomes rest).Perm (outcomes g.pending) :=
      (InFlight.earliest_perm hcall).map (fun c : InFlight ReadAnswer => c.answer.versions.isOk)
    rw [receive]
    split
    · rename_i vs hvs
      rw [hvs] at hperm
      simpa using h.hear hperm hfew
    · rename_i e he
      rw [he] at hperm
      rw [replace]
      split
      · rename_i hns
        exact h.drop hperm (.inl hns)
      · rename_i n ns hns
        have hns : g.standIns = n :: ns := hns
        split
        · rename_i hask
          simp only [Bool.and_eq_true, decide_eq_true_eq] at hask
          rw [hns] at h
          have hasked := h.ask hperm hask.1 (ask net.asking key true call.due n t).1.answer.versions.isOk
          simp only [outcomes, List.map_append]
          exact hasked
        · rename_i hnot
          refine h.drop hperm (.inr ?_)
          simp only [Bool.and_eq_true, decide_eq_true_eq, not_and, Nat.not_lt] at hnot
          cases sloppy with
          | false => exact .inl rfl
          | true => exact .inr (by simpa [outcomes] using hnot rfl)
  · have hcalls : (askAll net.asking key replicas (s, [])).2.2 =
        (askAll net.asking key replicas (s, [])).1.map
          (fun call => (call.answer.node, call.answer.versions.isOk)) :=
      askAll_asking net key replicas (s, [])
    have hnodes : (askAll net.asking key replicas (s, [])).2.2.map Prod.fst = replicas := by
      rw [hcalls, List.map_map]
      exact map_node_askAll replicas (s, [])
    have houtcomes : outcomes (askAll net.asking key replicas (s, [])).1 =
        (askAll net.asking key replicas (s, [])).2.2.map Prod.snd := by
      rw [hcalls, List.map_map]
      rfl
    dsimp only
    rw [houtcomes]
    exact .start hquorum hnodes

theorem run_successes {serves : NodeId → Bool} (hquorum : quorum ≤ replicas.length) {s : σ}
    (hserves : ∀ call ∈ (run net.asking sloppy key replicas standIns quorum deadline (s, [])).2.2,
      call.2 = serves call.1)
    (htime : (run net sloppy key replicas standIns quorum deadline s).1.time < deadline) :
    (run net sloppy key replicas standIns quorum deadline s).1.successes =
      min quorum ((candidates sloppy replicas standIns).countP serves) := by
  have hstanding := run_standing net sloppy key standIns deadline hquorum s
  have hends := run_ends net sloppy key replicas standIns quorum deadline s
  rw [run_shows net.shows_asking replicas standIns (s, [])] at htime hends ⊢
  refine hstanding.good_eq hserves (hends.imp_right fun hends => ?_)
  rw [hends.resolve_right (Nat.ne_of_lt htime)]
  rfl

end ReadRound

theorem Network.recorded_stays (net : Network σ) (call : Call) :
    net.recording.Preserves (fun s => call ∈ s.2) where
  send n request s hs := by
    simp only [recording]
    split
    · exact List.mem_append_left _ hs
    · exact hs
  count _ _ _ hs := hs

namespace WriteRound

variable {g : WriteRound} {call : InFlight WriteAnswer} {rest : List (InFlight WriteAnswer)}

def outcomes (calls : List (InFlight WriteAnswer)) : List Bool := calls.map (·.answer.outcome.isOk)

def verdicts (calls : List Call) : List (NodeId × Bool) :=
  calls.map (fun call => (call.receiver, call.accepted))

theorem run_standing (net : Network σ) (sloppy : Bool) (key : Key) (v : Version) (standIns : List NodeId)
    (deadline : Nat) (hquorum : quorum ≤ replicas.length) (time : Nat) (s : σ) :
    let r := run net.recording sloppy key v replicas standIns quorum time deadline (s, [])
    Standing sloppy quorum replicas standIns (verdicts r.2.2) r.1.acks (outcomes r.1.pending) r.1.standIns ∧
      r.1.hinted ≤ r.1.acks := by
  refine listen_induction (M := fun g (t : σ × List Call) => Standing sloppy quorum replicas
    standIns (verdicts t.2) g.acks (outcomes g.pending) g.standIns ∧ g.hinted ≤ g.acks) ?_ ?_ _ ?_
  · exact fun _ _ h => h
  · rintro g t call rest hfew hcall ⟨h, hhinted⟩
    have hperm : (call.answer.outcome.isOk :: outcomes rest).Perm (outcomes g.pending) :=
      (InFlight.earliest_perm hcall).map (fun c : InFlight WriteAnswer => c.answer.outcome.isOk)
    rw [receive]
    split
    · rename_i u hok
      rw [hok] at hperm
      refine ⟨h.hear hperm hfew, ?_⟩
      dsimp only
      split <;> omega
    · rename_i e he
      rw [he] at hperm
      rw [replace]
      split
      · rename_i hns
        exact ⟨h.drop hperm (.inl hns), hhinted⟩
      · rename_i n ns hns
        have hns : g.standIns = n :: ns := hns
        split
        · rename_i hsloppy
          rw [hns] at h
          obtain ⟨htarget, hstandIn, hcalls⟩ :=
            write_recording net key v call.due call.answer.target (some n) t
          have hasked := h.ask hperm hsloppy
            (write net.recording key v call.due call.answer.target (some n) t).1.answer.outcome.isOk
          refine ⟨?_, hhinted⟩
          simp only [outcomes, List.map_append, hcalls, verdicts, List.map_cons, List.map_nil,
            WriteAnswer.call, hstandIn, Option.getD_some]
          exact hasked
        · rename_i hnot
          exact ⟨h.drop hperm (.inr (.inl (Bool.eq_false_iff.mpr hnot))), hhinted⟩
  · have hreceivers : (verdicts (writeAll net.recording key v time replicas (s, [])).2.2).map Prod.fst =
        replicas := by
      rw [verdicts, List.map_map]
      exact (Progress.start time replicas standIns s).receivers.trans (List.append_nil replicas)
    have houtcomes : outcomes (writeAll net.recording key v time replicas (s, [])).1 =
        (verdicts (writeAll net.recording key v time replicas (s, [])).2.2).map Prod.snd := by
      rw [(writeAll_recording net key v time replicas (s, [])).2, verdicts, List.map_map, List.nil_append,
        List.map_map]
      rfl
    refine ⟨?_, Nat.le_refl 0⟩
    dsimp only
    rw [houtcomes]
    exact .start hquorum hreceivers

theorem run_acks {accepts : NodeId → Bool} (hquorum : quorum ≤ replicas.length) {time : Nat} {s : σ}
    (haccepts : ∀ call ∈ (run net.recording sloppy key v replicas standIns quorum time deadline (s, [])).2.2,
      call.accepted = accepts call.receiver)
    (htime : (run net.recording sloppy key v replicas standIns quorum time deadline (s, [])).1.time <
      deadline) :
    let r := (run net.recording sloppy key v replicas standIns quorum time deadline (s, [])).1
    r.acks = min quorum ((candidates sloppy replicas standIns).countP accepts) ∧ r.hinted ≤ r.acks := by
  obtain ⟨hstanding, hhinted⟩ := run_standing net sloppy key v standIns deadline hquorum time s
  refine ⟨hstanding.good_eq (List.forall_mem_map.mpr haccepts) ?_, hhinted⟩
  refine run_ends.imp_right fun hends => ?_
  rw [hends.resolve_right (Nat.ne_of_lt htime)]
  rfl

end WriteRound

namespace Coordinator

variable {c : Coordinator} {payload : Payload} {context : VersionVector} {s : σ}

def candidates (c : Coordinator) (key : Key) (replicas : List NodeId) : List NodeId :=
  if c.quorum.sloppy then c.ring.preference key else replicas

def readCalls (net : Network σ) (c : Coordinator) (key : Key) (replicas : List NodeId) (s : σ) :
    List (NodeId × Bool) :=
  (ReadRound.run net.asking c.quorum.sloppy key replicas (c.ring.standIns key replicas) c.quorum.r
    c.quorum.readTimeout (net.count .gets 1 s, [])).2.2

theorem candidates_eq (hreplicas : c.ring.replicas key c.quorum.n = .ok replicas) :
    QuorumStore.candidates c.quorum.sloppy replicas (c.ring.standIns key replicas) =
      c.candidates key replicas := by
  rw [QuorumStore.candidates, Ring.replicas_append_standIns hreplicas, candidates]

theorem read_of_gathering (net : Network σ) (s : σ)
    (hreplicas : c.ring.replicas key c.quorum.n = .ok replicas) :
    let heard := (c.gathering net key replicas s).successes
    (heard < c.quorum.r → (c.read net key s).1 = .error (.quorumUnavailable c.quorum.r heard)) ∧
      (c.quorum.r ≤ heard →
        (c.read net key s).1 = .error .notFound ∨ ∃ read, (c.read net key s).1 = .ok read) := by
  simp only [gathering, read, hreplicas]
  refine ⟨fun hfew => by rw [if_pos hfew], fun hmet => ?_⟩
  rw [if_neg (Nat.not_lt_of_le hmet)]
  split
  · exact .inl rfl
  · split
    · exact .inl rfl
    · exact .inr ⟨_, rfl⟩

theorem read_counts {serves : NodeId → Bool} (hr : c.quorum.r ≤ c.quorum.n)
    (hreplicas : c.ring.replicas key c.quorum.n = .ok replicas)
    (htime : (c.gathering net key replicas s).time < c.quorum.readTimeout)
    (hserves : ∀ call ∈ c.readCalls net key replicas s, call.2 = serves call.1) :
    let k := (c.candidates key replicas).countP serves
    (k < c.quorum.r → (c.read net key s).1 = .error (.quorumUnavailable c.quorum.r k)) ∧
      (c.quorum.r ≤ k →
        (c.read net key s).1 = .error .notFound ∨ ∃ read, (c.read net key s).1 = .ok read) := by
  have hquorum : c.quorum.r ≤ replicas.length := by rwa [Ring.length_replicas hreplicas]
  have hread := read_of_gathering net s hreplicas
  have hheard : (c.gathering net key replicas s).successes =
      min c.quorum.r ((c.candidates key replicas).countP serves) := by
    rw [← candidates_eq hreplicas]
    exact ReadRound.run_successes hquorum hserves htime
  dsimp only at hread ⊢
  rw [hheard] at hread
  refine ⟨fun hfew => ?_, fun hmany => ?_⟩
  · rw [Nat.min_eq_right (Nat.le_of_lt hfew)] at hread
    exact hread.1 hfew
  · rw [Nat.min_eq_left hmany] at hread
    exact hread.2 (Nat.le_refl _)

theorem storing_counts (accepts : NodeId → Bool) (hw : c.quorum.w ≤ c.quorum.n)
    (hreplicas : c.ring.replicas key c.quorum.n = .ok replicas) {seen : ReadRound × σ × List Call}
    (hseen : seen.2.2 = [])
    (htime : (c.storing net.recording key replicas v seen).1.time < c.quorum.writeTimeout)
    (haccepts : ∀ call ∈ (c.storing net.recording key replicas v seen).2.2,
      call.accepted = accepts call.receiver) :
    let stored := (c.storing net.recording key replicas v seen).1
    stored.acks = min c.quorum.w ((c.candidates key replicas).countP accepts) ∧
      stored.hinted ≤ stored.acks := by
  obtain ⟨round, t, calls⟩ := seen
  obtain rfl : calls = [] := hseen
  rw [← candidates_eq hreplicas]
  refine WriteRound.run_acks ?_ haccepts htime
  rwa [Ring.length_replicas hreplicas]

theorem write_counts {accepts : NodeId → Bool} (hw : c.quorum.w ≤ c.quorum.n)
    (hreplicas : c.ring.replicas key c.quorum.n = .ok replicas)
    (htimely : c.Timely net key payload context replicas s)
    (haccepts : ∀ call ∈ c.writeCalls net key payload context s, call.accepted = accepts call.receiver) :
    let k := (c.candidates key replicas).countP accepts
    (k < c.quorum.w →
        (c.write net key payload context s).1 = .error (.quorumUnavailable c.quorum.w k)) ∧
      (c.quorum.w ≤ k → ∃ ack, (c.write net key payload context s).1 = .ok ack ∧
        ack.acks = c.quorum.w ∧ ack.hinted ≤ ack.acks) := by
  rw [write_shows net.shows_recording c payload context (s, [])]
  rw [writeCalls] at haccepts
  obtain ⟨vector, hvector, htime⟩ := htimely.recording
  have hnothing := (surveying_recording net c key payload replicas s).2
  have hwrite := write_eq hreplicas hvector
  generalize c.surveying net.recording key payload replicas (s, []) = seen at hwrite htime hnothing
  have hcounts := storing_counts (v := payload.version vector (net.recording.now seen.2)) accepts hw
    hreplicas hnothing htime
  dsimp only at hwrite hcounts ⊢
  generalize c.storing net.recording key replicas (payload.version vector (net.recording.now seen.2)) seen =
    stored at hwrite hcounts
  split at hwrite
  · rename_i hshort
    rw [hwrite] at haccepts ⊢
    obtain ⟨hacks, -⟩ := hcounts haccepts
    rw [hacks] at hshort ⊢
    refine ⟨fun hfew => ?_, fun hmany => ?_⟩
    · rw [Nat.min_eq_right (Nat.le_of_lt hfew)]
    · rw [Nat.min_eq_left hmany] at hshort
      exact absurd hshort (Nat.lt_irrefl _)
  · rename_i hmet
    rw [hwrite] at haccepts ⊢
    -- what happens after the quorum is met adds calls to the record and takes none away
    obtain ⟨hacks, hhinted⟩ := hcounts fun call hcall => haccepts call
      (WriteRound.drain_preserves (I := fun t : σ × List Call => call ∈ t.2)
        (fun n _ => (net.recorded_stays call).send n _)
        (fun n target _ => (net.recorded_stays call).send n _) _ _ hcall)
    rw [hacks] at hmet
    refine ⟨fun hfew => ?_, fun hmany => ⟨_, rfl, ?_, hhinted⟩⟩
    · rw [Nat.min_eq_right (Nat.le_of_lt hfew)] at hmet
      exact absurd hfew hmet
    · exact hacks.trans (Nat.min_eq_left hmany)

theorem quorums_exact (hvalid : c.quorum.validate = .ok ()) (net : Network σ) (key : Key) (s : σ) :
    (∀ shortage, c.ring.replicas key c.quorum.n = .error shortage →
      (c.read net key s).1 = .error (.placementUnavailable shortage) ∧
      ∀ payload context,
        (c.write net key payload context s).1 = .error (.placementUnavailable shortage)) ∧
    ∀ replicas, c.ring.replicas key c.quorum.n = .ok replicas →
      (∀ serves : NodeId → Bool, (c.gathering net key replicas s).time < c.quorum.readTimeout →
        (∀ call ∈ c.readCalls net key replicas s, call.2 = serves call.1) →
        let k := (c.candidates key replicas).countP serves
        (k < c.quorum.r → (c.read net key s).1 = .error (.quorumUnavailable c.quorum.r k)) ∧
          (c.quorum.r ≤ k →
            (c.read net key s).1 = .error .notFound ∨ ∃ read, (c.read net key s).1 = .ok read)) ∧
      ∀ payload context,
        (stamp? c.id (c.surveying net key payload replicas s).1.versions context = none →
          (c.write net key payload context s).1 = .error (.counterExhausted c.id)) ∧
        ∀ accepts : NodeId → Bool, c.Timely net key payload context replicas s →
          (∀ call ∈ c.writeCalls net key payload context s, call.accepted = accepts call.receiver) →
          let k := (c.candidates key replicas).countP accepts
          (k < c.quorum.w →
              (c.write net key payload context s).1 = .error (.quorumUnavailable c.quorum.w k)) ∧
            (c.quorum.w ≤ k → ∃ ack, (c.write net key payload context s).1 = .ok ack ∧
              ack.acks = c.quorum.w ∧ ack.hinted ≤ ack.acks) := by
  obtain ⟨-, hw, -, hr⟩ := Quorum.validate_eq_ok_iff.mp hvalid
  refine ⟨fun shortage hshortage => ⟨?_, fun payload context => ?_⟩, fun replicas hreplicas => ⟨?_, ?_⟩⟩
  · simp only [read, hshortage]
  · rw [write_eq_of_shortage hshortage]
  · exact fun serves htime hserves => read_counts hr hreplicas htime hserves
  · intro payload context
    refine ⟨fun hexhausted => ?_, fun accepts htimely haccepts => ?_⟩
    · rw [write_eq_of_exhausted hreplicas hexhausted]
    · exact write_counts hw hreplicas htimely haccepts

end Coordinator

namespace Halved

def ring : Ring := Ring.ofNodes 1 ["A", "B", "C", "D"]

def coordinator : Coordinator := ⟨"A", ⟨3, 2, 3, 1, 1, .inline, .siblings, true⟩, ring⟩

def cluster : Cluster :=
  ((Cluster.ofNodes ⟨ring, 3⟩ 1 0 ["A", "B", "C", "D"]).alter "B" ({ · with down := true })).alter "C"
    ({ · with down := true })

def serves (n : NodeId) : Bool := n = "A" || n = "D"

theorem half_suffices_for_write :
    (coordinator.read Cluster.network "k" cluster).1 = .error (.quorumUnavailable 3 2) ∧
      ∃ ack, (coordinator.write Cluster.network "k" (.value [1]) ∅ cluster).1 = .ok ack ∧ ack.acks = 2 ∧
        ack.hinted ≤ ack.acks := by
  have hreplicas : ring.replicas "k" 3 = .ok ["C", "B", "D"] := by decide +kernel
  have hserve : (coordinator.candidates "k" ["C", "B", "D"]).countP serves = 2 := by decide +kernel
  obtain ⟨-, hoperations⟩ := Coordinator.quorums_exact (c := coordinator) rfl Cluster.network "k" cluster
  obtain ⟨hread, hwrite⟩ := hoperations _ hreplicas
  have htime : (coordinator.gathering Cluster.network "k" ["C", "B", "D"] cluster).time <
      coordinator.quorum.readTimeout := by decide +kernel
  have hserves : ∀ call ∈ coordinator.readCalls Cluster.network "k" ["C", "B", "D"] cluster,
      call.2 = serves call.1 := by decide +kernel
  have htimely : coordinator.Timely Cluster.network "k" (.value [1]) ∅ ["C", "B", "D"] cluster :=
    ⟨.ofEntries [("A", 1)], by decide +kernel, by decide +kernel⟩
  have haccepts : ∀ call ∈ coordinator.writeCalls Cluster.network "k" (.value [1]) ∅ cluster,
      call.accepted = serves call.receiver := by decide +kernel
  have hfails := (hread serves htime hserves).1
  have hsucceeds := ((hwrite (.value [1]) ∅).2 serves htimely haccepts).2
  rw [hserve] at hfails hsucceeds
  exact ⟨hfails (by decide), hsucceeds (by decide)⟩

end Halved

end QuorumStore
