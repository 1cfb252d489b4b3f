import QuorumStore.Proofs.Landing

namespace QuorumStore

variable {σ : Type} {net : Network σ} {key : Key} {v : Version}

structure Call where
  receiver : NodeId
  request : Request
  accepted : Bool
  deriving DecidableEq

def Call.target (call : Call) : NodeId :=
  match call.request with
  | .putHinted target _ _ => target
  | _ => call.receiver

def Network.recording (net : Network σ) : Network (σ × List Call) where
  send n request s :=
    let (reply, t) := net.send n request s.1
    (reply, t, if request.version?.isSome then s.2 ++ [⟨n, request, reply.answer.isOk⟩] else s.2)
  now s := net.now s.1
  count m k s := (net.count m k s.1, s.2)

theorem Network.shows_recording (net : Network σ) : net.Shows net.recording Prod.fst :=
  ⟨fun _ _ _ => rfl, fun _ => rfl, fun _ _ _ => rfl⟩

theorem ReadRound.run_records_nothing {sloppy : Bool} {quorum deadline : Nat}
    (replicas standIns : List NodeId) (s : σ × List Call) :
    (run net.recording sloppy key replicas standIns quorum deadline s).2.2 = s.2 :=
  run_preserves (I := fun t : σ × List Call => t.2 = s.2) (fun _ _ ht => ht) sloppy replicas standIns
    quorum deadline rfl

def WriteAnswer.call (key : Key) (v : Version) (a : WriteAnswer) : Call :=
  ⟨a.standIn.getD a.target,
    match a.standIn with
    | none => .put key v
    | some _ => .putHinted a.target key v,
    a.outcome.isOk⟩

theorem WriteAnswer.target_call (key : Key) (v : Version) (a : WriteAnswer) :
    (a.call key v).target = a.target := by
  obtain ⟨target, standIn, outcome⟩ := a
  cases standIn <;> rfl

def served (calls : List Call) : List NodeId := (calls.filter (·.accepted)).map Call.target

@[simp] theorem served_append (calls calls' : List Call) :
    served (calls ++ calls') = served calls ++ served calls' := by
  simp [served]

theorem eq_of_target_eq {calls : List Call} (h : (served calls).Nodup) {call call' : Call}
    (hcall : call ∈ calls) (hcall' : call' ∈ calls) (hok : call.accepted = true)
    (hok' : call'.accepted = true) (htarget : call.target = call'.target) : call = call' :=
  List.inj_on_of_nodup_map h (List.mem_filter.mpr ⟨hcall, hok⟩) (List.mem_filter.mpr ⟨hcall', hok'⟩) htarget

namespace WriteRound

variable {quorum deadline : Nat} {replicas standIns asked lost : List NodeId} {calls : List Call}
  {g : WriteRound} {call : InFlight WriteAnswer} {rest : List (InFlight WriteAnswer)} {s : σ × List Call}

@[simp] theorem isOk_map {α β γ : Type} {f : β → γ} {x : Except α β} : (x.map f).isOk = x.isOk := by
  cases x <;> rfl

theorem write_recording (net : Network σ) (key : Key) (v : Version) (time : Nat) (target : NodeId)
    (standIn : Option NodeId) (s : σ × List Call) :
    let r := write net.recording key v time target standIn s
    r.1.answer.target = target ∧ r.1.answer.standIn = standIn ∧
      r.2.2 = s.2 ++ [r.1.answer.call key v] := by
  cases standIn with
  | none => simp [write, Network.recording, Request.version?, WriteAnswer.call, isOk_map]
  | some n => simp [write, Network.recording, Request.version?, WriteAnswer.call, isOk_map]

theorem writeAll_recording (net : Network σ) (key : Key) (v : Version) (time : Nat) (ns : List NodeId)
    (s : σ × List Call) :
    let r := writeAll net.recording key v time ns s
    r.1.map (fun c => (c.answer.target, c.answer.standIn)) = ns.map (fun n => (n, none)) ∧
      r.2.2 = s.2 ++ r.1.map (·.answer.call key v) := by
  induction ns generalizing s with
  | nil => simp [writeAll]
  | cons n ns ih =>
    obtain ⟨htarget, hstandIn, hcalls⟩ := write_recording net key v time n none s
    obtain ⟨hroutes, hmore⟩ := ih (write net.recording key v time n none s).2
    refine ⟨?_, ?_⟩
    · simp only [writeAll, List.map_cons, htarget, hstandIn, hroutes]
    · simp only [writeAll, List.map_cons, hmore, hcalls, List.append_assoc, List.singleton_append]

theorem writeAll_routes (net : Network σ) (key : Key) (v : Version) (time : Nat) (ns : List NodeId) (t : σ) :
    (writeAll net.recording key v time ns (t, [])).2.2.map (fun call => (call.receiver, call.request)) =
      ns.map (fun n => (n, .put key v)) := by
  obtain ⟨hroutes, hcalls⟩ := writeAll_recording net key v time ns (t, [])
  have hall := congrArg (List.map fun route : NodeId × Option NodeId =>
    (route.2.getD route.1, route.2.elim (Request.put key v) fun _ => .putHinted route.1 key v)) hroutes
  rw [List.map_map, List.map_map] at hall
  rw [hcalls, List.nil_append, List.map_map]
  refine (List.map_congr_left fun call _ => ?_).trans hall
  simp only [Function.comp_apply, WriteAnswer.call]
  cases call.answer.standIn <;> rfl

def failing (g : WriteRound) : List NodeId :=
  (g.pending.filter (fun c => !c.answer.outcome.isOk)).map (·.answer.target)

def succeeding (g : WriteRound) : Nat := g.pending.countP (·.answer.outcome.isOk)

theorem pending_of_ok (g' : WriteRound) (hperm : (call :: rest).Perm g.pending) (hg' : g'.pending = rest)
    (hok : call.answer.outcome.isOk = true) :
    g'.failing.Perm g.failing ∧ g'.succeeding + 1 = g.succeeding := by
  have hfilter := hperm.filter (fun c => !c.answer.outcome.isOk)
  have hcount := hperm.countP_eq (fun c => c.answer.outcome.isOk)
  rw [List.filter_cons_of_neg (by simp [hok])] at hfilter
  simp only [List.countP_cons, hok, if_true] at hcount
  subst hg'
  exact ⟨hfilter.map _, hcount⟩

theorem pending_of_failed (g' : WriteRound) (hperm : (call :: rest).Perm g.pending)
    (hg' : g'.pending = rest) (hfailed : call.answer.outcome.isOk = false) :
    (call.answer.target :: g'.failing).Perm g.failing ∧ g'.succeeding = g.succeeding := by
  have hfilter := hperm.filter (fun c => !c.answer.outcome.isOk)
  have hcount := hperm.countP_eq (fun c => c.answer.outcome.isOk)
  rw [List.filter_cons_of_pos (by simp [hfailed])] at hfilter
  simp only [List.countP_cons, hfailed, Bool.false_eq_true, if_false] at hcount
  subst hg'
  exact ⟨hfilter.map (fun c : InFlight WriteAnswer => c.answer.target), hcount⟩

structure Progress (key : Key) (v : Version) (replicas standIns asked lost : List NodeId)
    (calls : List Call) (g : WriteRound) : Prop where
  receivers : calls.map (·.receiver) = replicas ++ asked
  order : asked ++ g.standIns = standIns
  roles : ∀ call ∈ calls, call.receiver ∈ replicas ∧ call.request = .put key v ∨
    call.receiver ∈ asked ∧ ∃ r ∈ replicas, call.request = .putHinted r key v
  places : (served calls ++ g.failing ++ lost).Perm replicas
  count : g.acks + g.succeeding = (served calls).length

namespace Progress

theorem start (time : Nat) (replicas standIns : List NodeId) (s : σ) :
    let r := writeAll net.recording key v time replicas (s, [])
    Progress key v replicas standIns [] [] r.2.2 ⟨0, 0, r.1, standIns, time⟩ := by
  intro r
  obtain ⟨hroutes, hcalls⟩ := writeAll_recording net key v time replicas (s, [])
  have hcalls : r.2.2 = r.1.map (·.answer.call key v) := hcalls
  have hnone : ∀ c ∈ r.1, c.answer.target ∈ replicas ∧ c.answer.standIn = none := by
    intro c hc
    have hmem := List.mem_map_of_mem (f := fun c => (c.answer.target, c.answer.standIn)) hc
    rw [hroutes] at hmem
    obtain ⟨n, hn, heq⟩ := List.mem_map.mp hmem
    obtain ⟨htarget, hstandIn⟩ := Prod.mk.inj heq
    exact ⟨htarget ▸ hn, hstandIn.symm⟩
  have htargets : r.1.map (·.answer.target) = replicas := by
    have h := congrArg (List.map Prod.fst) hroutes
    simpa [Function.comp_def] using h
  have hserved : served r.2.2 = (r.1.filter (·.answer.outcome.isOk)).map (·.answer.target) := by
    rw [hcalls, served, List.filter_map, List.map_map]
    exact List.map_congr_left fun c _ => c.answer.target_call key v
  refine ⟨?_, rfl, ?_, ?_, ?_⟩
  · rw [hcalls, List.map_map, List.append_nil, ← htargets]
    refine List.map_congr_left fun c hc => ?_
    simp [WriteAnswer.call, (hnone c hc).2]
  · intro call hcall
    rw [hcalls] at hcall
    obtain ⟨c, hc, rfl⟩ := List.mem_map.mp hcall
    obtain ⟨hmem, hstandIn⟩ := hnone c hc
    exact .inl (by simpa [WriteAnswer.call, hstandIn] using hmem)
  · rw [hserved, List.append_nil, failing, ← List.map_append, ← htargets]
    exact (List.filter_append_perm _ r.1).map _
  · rw [hserved, List.length_map, succeeding, List.countP_eq_length_filter, Nat.zero_add]

theorem acknowledge (h : Progress key v replicas standIns asked lost calls g)
    (hperm : (call :: rest).Perm g.pending) (hok : call.answer.outcome.isOk = true) (hinted : Nat) :
    Progress key v replicas standIns asked lost calls
      { g with acks := g.acks + 1, hinted, pending := rest, time := call.due } := by
  obtain ⟨hfailing, hsucceeding⟩ := pending_of_ok
    { g with acks := g.acks + 1, hinted, pending := rest, time := call.due } hperm rfl hok
  refine ⟨h.receivers, h.order, h.roles, ?_, ?_⟩
  · exact ((hfailing.append_left _).append_right lost).trans h.places
  · have hcount := h.count
    dsimp only
    omega

theorem drop (h : Progress key v replicas standIns asked lost calls g)
    (hperm : (call :: rest).Perm g.pending) (hfailed : call.answer.outcome.isOk = false) :
    Progress key v replicas standIns asked (call.answer.target :: lost) calls
      { g with pending := rest, time := call.due } := by
  obtain ⟨hfailing, hsucceeding⟩ := pending_of_failed
    { g with pending := rest, time := call.due } hperm rfl hfailed
  refine ⟨h.receivers, h.order, h.roles, ?_, ?_⟩
  · refine List.Perm.trans ?_ (((hfailing.append_left _).append_right lost).trans h.places)
    exact List.perm_middle.trans (List.perm_middle.symm.append_right lost)
  · rw [← h.count, ← hsucceeding]

theorem substitute {target n : NodeId} {ns : List NodeId}
    (h : Progress key v replicas standIns asked (target :: lost) s.2 g) (hns : g.standIns = n :: ns) :
    let r := write net.recording key v g.time target (some n) s
    Progress key v replicas standIns (asked ++ [n]) lost r.2.2
      { g with pending := g.pending ++ [r.1], standIns := ns } := by
  intro r
  obtain ⟨htarget, hstandIn, hcalls⟩ :
      r.1.answer.target = target ∧ r.1.answer.standIn = some n ∧
        r.2.2 = s.2 ++ [r.1.answer.call key v] :=
    write_recording net key v g.time target (some n) s
  have hmem : target ∈ replicas := h.places.subset (by simp)
  have hcall : r.1.answer.call key v = ⟨n, .putHinted target key v, r.1.answer.outcome.isOk⟩ := by
    simp [WriteAnswer.call, htarget, hstandIn]
  -- The new call is accepted or one that fails: either way its target has a place again.
  have hplaces : served [r.1.answer.call key v] ++ failing { g with pending := [r.1] } = [target] := by
    cases hok : r.1.answer.outcome.isOk <;> simp [served, failing, hcall, hok, htarget, Call.target]
  have hfailing : failing { g with pending := g.pending ++ [r.1], standIns := ns } =
      g.failing ++ failing { g with pending := [r.1] } := by
    simp [failing]
  refine ⟨?_, ?_, ?_, ?_, ?_⟩
  · simp [hcalls, hcall, h.receivers]
  · simp [← h.order, hns]
  · intro call hin
    rw [hcalls, List.mem_append, List.mem_singleton] at hin
    rcases hin with hin | rfl
    · refine (h.roles call hin).imp_right fun ⟨hr, hhint⟩ => ⟨List.mem_append_left _ hr, hhint⟩
    · rw [hcall]
      exact .inr ⟨by simp, target, hmem, rfl⟩
  · have hmoved : (served [r.1.answer.call key v] ++ (g.failing ++ failing { g with pending := [r.1] })).Perm
        (g.failing ++ [target]) := by
      rw [← hplaces, ← List.append_assoc, ← List.append_assoc]
      exact List.perm_append_comm.append_right _
    refine List.Perm.trans ?_ h.places
    simpa only [hcalls, served_append, hfailing, List.append_assoc, List.singleton_append] using
      (hmoved.append_left (served s.2)).append_right lost
  · have hbefore := h.count
    rw [hcalls, served_append, List.length_append, ← hbefore, succeeding, succeeding, List.countP_append]
    cases hok : r.1.answer.outcome.isOk <;> simp [served, hcall, hok, Nat.add_assoc]

end Progress

def Accounted (key : Key) (v : Version) (replicas standIns : List NodeId) (g : WriteRound)
    (calls : List Call) : Prop :=
  ∃ asked lost, Progress key v replicas standIns asked lost calls g ∧ (lost = [] ∨ g.standIns = [])

namespace Accounted

theorem receive (h : Accounted key v replicas standIns g s.2) (hperm : (call :: rest).Perm g.pending) :
    let r := WriteRound.receive net.recording true key v call.answer
      { g with pending := rest, time := call.due } s
    Accounted key v replicas standIns r.1 r.2.2 := by
  intro r
  obtain ⟨asked, lost, h, hlost⟩ := h
  cases houtcome : call.answer.outcome with
  | ok _ =>
    simp only [r, WriteRound.receive, houtcome]
    exact ⟨asked, lost, h.acknowledge hperm (by rw [houtcome]; rfl) _, hlost⟩
  | error e =>
    have hdrop := h.drop hperm (by rw [houtcome]; rfl)
    simp only [r, WriteRound.receive, houtcome, replace, if_true]
    split
    · rename_i hns
      exact ⟨asked, call.answer.target :: lost, hdrop, .inr hns⟩
    · rename_i n ns hns
      have hns : g.standIns = n :: ns := hns
      obtain rfl : lost = [] := hlost.resolve_right (by simp [hns])
      exact ⟨asked ++ [n], [], hdrop.substitute hns, .inl rfl⟩

theorem complete {accepts : NodeId → Bool} (h : Accounted key v replicas standIns g calls)
    (hpending : g.pending = []) (haccepts : ∀ call ∈ calls, call.accepted = accepts call.receiver)
    (hmany : replicas.length ≤ ((replicas ++ standIns).filter accepts).length) :
    ∃ asked, Progress key v replicas standIns asked [] calls g ∧
      (served calls).Perm replicas ∧ g.acks = replicas.length := by
  obtain ⟨asked, lost, h, hlost⟩ := h
  have hplaces : (served calls ++ lost).Perm replicas := by
    simpa [failing, hpending] using h.places
  have hlength := hplaces.length_eq
  have hcount := h.count
  simp only [succeeding, hpending, List.countP_nil, Nat.add_zero] at hcount
  -- With no stand-in left all preferred nodes were called, and as many accept as there are replicas.
  obtain rfl : lost = [] := by
    refine hlost.elim id fun hns => ?_
    have hall : calls.map (·.receiver) = replicas ++ standIns := by
      rw [h.receivers, ← h.order, hns, List.append_nil]
    have hserved : (served calls).length = ((replicas ++ standIns).filter accepts).length := by
      rw [served, List.length_map, ← hall, List.filter_map, List.length_map]
      exact congrArg List.length (List.filter_congr haccepts)
    rw [List.length_append] at hlength
    exact List.length_eq_zero_iff.mp (by omega)
  rw [List.append_nil] at hplaces
  exact ⟨asked, h, hplaces, hcount.trans hplaces.length_eq⟩

end Accounted

theorem patience_receive (net : Network σ) (sloppy : Bool) (key : Key) (v : Version) {g : WriteRound}
    (hperm : (call :: rest).Perm g.pending) (s : σ) :
    (receive net sloppy key v call.answer { g with pending := rest, time := call.due } s).1.patience + 1 =
      g.patience := by
  have hlength := hperm.length_eq
  rw [List.length_cons] at hlength
  cases houtcome : call.answer.outcome with
  | ok _ =>
    simp only [receive, houtcome, patience]
    omega
  | error e =>
    simp only [receive, houtcome, replace]
    split
    · rename_i hns
      simp only [patience]
      omega
    · rename_i n ns hns
      have hns : g.standIns = n :: ns := hns
      split
      · simp only [patience, List.length_append, hns, List.length_cons, List.length_nil]
        omega
      · simp only [patience]
        omega

theorem listen_ends {sloppy : Bool} {fuel : Nat} {g : WriteRound} {s : σ} (hfuel : g.patience ≤ fuel) :
    let r := (listen net sloppy key v quorum deadline fuel g s).1
    quorum ≤ r.acks ∨ r.pending = [] ∨ r.time = deadline := by
  induction fuel generalizing g s with
  | zero =>
    simp only [patience, Nat.le_zero, Nat.add_eq_zero_iff, List.length_eq_zero_iff] at hfuel
    exact .inr (.inl hfuel.1)
  | succ fuel ih =>
    unfold listen
    split
    · rename_i hmet
      exact .inl hmet
    · split
      · rename_i hnone
        exact .inr (.inl (InFlight.earliest_eq_none.mp hnone))
      · rename_i call rest hcall
        split
        · exact .inr (.inr rfl)
        · have hless := patience_receive net sloppy key v (InFlight.earliest_perm hcall) s
          exact ih (Nat.le_of_succ_le_succ (Nat.le_trans (Nat.le_of_eq hless) hfuel))

theorem drain_ends {sloppy : Bool} {fuel : Nat} {g : WriteRound} {s : σ} (hfuel : g.patience ≤ fuel) :
    (drain net sloppy key v fuel g s).1.pending = [] := by
  induction fuel generalizing g s with
  | zero =>
    simp only [patience, Nat.le_zero, Nat.add_eq_zero_iff, List.length_eq_zero_iff] at hfuel
    exact hfuel.1
  | succ fuel ih =>
    unfold drain
    split
    · rename_i hnone
      exact InFlight.earliest_eq_none.mp hnone
    · rename_i call rest hcall
      have hless := patience_receive net sloppy key v (InFlight.earliest_perm hcall) s
      exact ih (Nat.le_of_succ_le_succ (Nat.le_trans (Nat.le_of_eq hless) hfuel))

theorem length_writeAll (time : Nat) (ns : List NodeId) (s : σ) :
    (writeAll net key v time ns s).1.length = ns.length := by
  induction ns generalizing s with
  | nil => rfl
  | cons n ns ih => simp [writeAll, ih]

theorem run_ends {sloppy : Bool} {time : Nat} {s : σ} :
    let r := (run net sloppy key v replicas standIns quorum time deadline s).1
    quorum ≤ r.acks ∨ r.pending = [] ∨ r.time = deadline :=
  listen_ends (by simp [patience, length_writeAll])

theorem run_accounted (time : Nat) (s : σ) :
    let r := run net.recording true key v replicas standIns quorum time deadline (s, [])
    Accounted key v replicas standIns r.1 r.2.2 := by
  refine listen_induction (M := fun g (t : σ × List Call) => Accounted key v replicas standIns g t.2) ?_ ?_ _
    ⟨[], [], .start time replicas standIns s, .inl rfl⟩
  · rintro g t ⟨asked, lost, h, hlost⟩
    exact ⟨asked, lost, ⟨h.receivers, h.order, h.roles, h.places, h.count⟩, hlost⟩
  · intro g t call rest _ hcall h
    exact h.receive (InFlight.earliest_perm hcall)

theorem drain_accounted (fuel : Nat) {g : WriteRound} {s : σ × List Call}
    (h : Accounted key v replicas standIns g s.2) :
    let r := drain net.recording true key v fuel g s
    Accounted key v replicas standIns r.1 r.2.2 := by
  refine drain_induction (M := fun g (t : σ × List Call) => Accounted key v replicas standIns g t.2) ?_ fuel h
  intro g t call rest hcall h
  exact h.receive (InFlight.earliest_perm hcall)

end WriteRound

structure Spread (replicas : List NodeId) (key : Key) (v : Version) (calls : List Call) : Prop where
  once : (calls.map (·.receiver)).Nodup
  roles : ∀ call ∈ calls, call.receiver ∈ replicas ∧ call.request = .put key v ∨
    call.receiver ∉ replicas ∧ ∃ r ∈ replicas, call.request = .putHinted r key v
  places : ∀ r ∈ replicas,
    ⟨r, .put key v, true⟩ ∈ calls ∧ (∀ n, ⟨n, .putHinted r key v, true⟩ ∉ calls) ∨
    ⟨r, .put key v, false⟩ ∈ calls ∧ ∃! n, ⟨n, .putHinted r key v, true⟩ ∈ calls

namespace WriteRound.Progress

variable {replicas standIns asked lost : List NodeId} {calls : List Call} {g : WriteRound}

theorem spread (h : Progress key v replicas standIns asked lost calls g)
    (hall : (replicas ++ standIns).Nodup) (hserved : (served calls).Perm replicas) :
    Spread replicas key v calls := by
  have hnew : (replicas ++ asked).Nodup := by
    rw [← h.order, ← List.append_assoc] at hall
    exact (List.nodup_append.mp hall).1
  obtain ⟨hnodup, -, hdisjoint⟩ := List.nodup_append.mp hnew
  have hroles : ∀ call ∈ calls, call.receiver ∈ replicas ∧ call.request = .put key v ∨
      call.receiver ∉ replicas ∧ ∃ r ∈ replicas, call.request = .putHinted r key v :=
    fun call hcall => (h.roles call hcall).imp_right fun ⟨hasked, hhint⟩ =>
      ⟨fun hmem => hdisjoint _ hmem _ hasked rfl, hhint⟩
  have hdistinct := hserved.nodup_iff.mpr hnodup
  refine ⟨h.receivers ▸ hnew, hroles, fun r hr => ?_⟩
  obtain ⟨call, hcall, rfl⟩ := List.mem_map.mp (hserved.mem_iff.mpr hr)
  obtain ⟨hcall, hok⟩ := List.mem_filter.mp hcall
  obtain ⟨receiver, request, accepted⟩ := call
  obtain rfl : accepted = true := hok
  rcases hroles _ hcall with ⟨hmem, hput⟩ | ⟨hmem, r', hr', hhint⟩
  · obtain rfl : request = .put key v := hput
    refine .inl ⟨hcall, fun n hn => ?_⟩
    cases eq_of_target_eq hdistinct hcall hn rfl rfl rfl
  · obtain rfl : request = .putHinted r' key v := hhint
    refine .inr ⟨?_, receiver, hcall, fun n hn => ?_⟩
    · have hreceived : r' ∈ calls.map (·.receiver) := h.receivers ▸ List.mem_append_left asked hr'
      obtain ⟨⟨receiver', request', accepted'⟩, hcall', heq⟩ := List.mem_map.mp hreceived
      obtain rfl : receiver' = r' := heq
      obtain ⟨-, hput⟩ := (hroles _ hcall').resolve_right fun hnot => hnot.1 hr'
      obtain rfl : request' = .put key v := hput
      cases accepted' with
      | false => exact hcall'
      | true => cases eq_of_target_eq hdistinct hcall hcall' rfl rfl rfl
    · cases eq_of_target_eq hdistinct hcall hn rfl rfl rfl
      rfl

end WriteRound.Progress

theorem WriteRound.Accounted.spread {replicas standIns : List NodeId} {calls : List Call} {g : WriteRound}
    {accepts : NodeId → Bool} (h : Accounted key v replicas standIns g calls) (hpending : g.pending = [])
    (hall : (replicas ++ standIns).Nodup)
    (haccepts : ∀ call ∈ calls, call.accepted = accepts call.receiver)
    (hmany : replicas.length ≤ ((replicas ++ standIns).filter accepts).length) :
    Spread replicas key v calls ∧ g.acks = replicas.length := by
  obtain ⟨asked, h, hserved, hacks⟩ := h.complete hpending haccepts hmany
  exact ⟨h.spread hall hserved, hacks⟩

namespace Coordinator

variable {c : Coordinator} {payload : Payload} {context : VersionVector} {replicas : List NodeId}

def writeCalls (net : Network σ) (c : Coordinator) (key : Key) (payload : Payload)
    (context : VersionVector) (s : σ) : List Call :=
  (c.write net.recording key payload context (s, [])).2.2

def Timely (net : Network σ) (c : Coordinator) (key : Key) (payload : Payload) (context : VersionVector)
    (replicas : List NodeId) (s : σ) : Prop :=
  let seen := c.surveying net key payload replicas s
  ∃ vector, stamp? c.id seen.1.versions context = some vector ∧
    (c.storing net key replicas (payload.version vector (net.now seen.2)) seen).1.time < c.quorum.writeTimeout

theorem surveying_recording (net : Network σ) (c : Coordinator) (key : Key) (payload : Payload)
    (replicas : List NodeId) (s : σ) :
    c.surveying net key payload replicas s =
        ((c.surveying net.recording key payload replicas (s, [])).1,
          (c.surveying net.recording key payload replicas (s, [])).2.1) ∧
      (c.surveying net.recording key payload replicas (s, [])).2.2 = [] :=
  ⟨ReadRound.run_shows net.shows_recording _ _ (net.count payload.meter 1 s, []),
    ReadRound.run_records_nothing _ _ (net.count payload.meter 1 s, [])⟩

theorem Timely.recording {s : σ} (h : c.Timely net key payload context replicas s) :
    c.Timely net.recording key payload context replicas (s, []) := by
  obtain ⟨vector, hvector, htime⟩ := h
  rw [(surveying_recording net c key payload replicas s).1] at hvector htime
  refine ⟨vector, hvector, ?_⟩
  rw [storing, WriteRound.run_shows net.shows_recording] at htime
  exact htime

theorem storing_accounted (net : Network σ) (key : Key) (v : Version) (replicas : List NodeId)
    (hsloppy : c.quorum.sloppy = true) {seen : ReadRound × σ × List Call}
    (hseen : seen.2.2 = []) :
    WriteRound.Accounted key v replicas (c.ring.standIns key replicas)
      (c.storing net.recording key replicas v seen).1 (c.storing net.recording key replicas v seen).2.2 := by
  obtain ⟨round, t, calls⟩ := seen
  obtain rfl : calls = [] := hseen
  rw [storing, hsloppy]
  exact WriteRound.run_accounted _ t

theorem storing_ends (net : Network σ) (c : Coordinator) (key : Key) (replicas : List NodeId) (v : Version)
    (seen : ReadRound × σ) :
    let r := (c.storing net key replicas v seen).1
    c.quorum.w ≤ r.acks ∨ r.pending = [] ∨ r.time = c.quorum.writeTimeout :=
  WriteRound.run_ends

theorem write_spreads {s : σ} {accepts : NodeId → Bool} (hsloppy : c.quorum.sloppy = true)
    (hw : c.quorum.w ≤ c.quorum.n) (hreplicas : c.ring.replicas key c.quorum.n = .ok replicas)
    (htimely : c.Timely net key payload context replicas s)
    (haccepts : ∀ call ∈ c.writeCalls net key payload context s, call.accepted = accepts call.receiver)
    (hmany : c.quorum.n ≤ ((c.ring.preference key).filter accepts).length) :
    ∃ ack, (c.write net key payload context s).1 = .ok ack ∧
      Spread replicas key (payload.version ack.vector ack.timestamp)
        (c.writeCalls net key payload context s) := by
  have hall := Ring.nodup_replicas_append_standIns hreplicas
  have hlength := Ring.length_replicas hreplicas
  rw [← Ring.replicas_append_standIns hreplicas, ← hlength] at hmany
  rw [write_shows net.shows_recording c payload context (s, [])]
  rw [writeCalls] at haccepts ⊢
  obtain ⟨vector, hvector, htime⟩ := htimely.recording
  have hnothing := (surveying_recording net c key payload replicas s).2
  have hwrite := write_eq hreplicas hvector
  generalize c.surveying net.recording key payload replicas (s, []) = seen at hwrite htime hnothing
  have haccounted := storing_accounted net key (payload.version vector (net.recording.now seen.2)) replicas
    hsloppy hnothing
  have hends := storing_ends net.recording c key replicas
    (payload.version vector (net.recording.now seen.2)) seen
  dsimp only at hwrite htime hends
  generalize c.storing net.recording key replicas (payload.version vector (net.recording.now seen.2)) seen =
    stored at hwrite htime haccounted hends
  split at hwrite
  · -- below the quorum the round can only have ended with every replica served
    rename_i hfew
    rw [hwrite] at haccepts
    have hpending : stored.1.pending = [] :=
      (hends.resolve_left (Nat.not_le_of_lt hfew)).resolve_right (Nat.ne_of_lt htime)
    have hacks := (haccounted.spread hpending hall haccepts hmany).2
    omega
  · rw [hwrite] at haccepts ⊢
    rw [hsloppy] at haccepts ⊢
    refine ⟨_, rfl, ?_⟩
    exact ((WriteRound.drain_accounted _ haccounted).spread (WriteRound.drain_ends (Nat.le_refl _)) hall
      haccepts hmany).1

end Coordinator

end QuorumStore
