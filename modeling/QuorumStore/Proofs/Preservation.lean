import QuorumStore.Coordinator

namespace QuorumStore

variable {σ : Type} {net : Network σ} {I : σ → Prop} {sloppy : Bool} {key : Key} {v : Version}
  {quorum deadline : Nat} {deep : Nat → Prop}

structure Network.Preserves (net : Network σ) (I : σ → Prop) : Prop where
  send : ∀ n request {s}, I s → I (net.send n request s).2
  count : ∀ m k {s}, I s → I (net.count m k s)

def Request.depth? : Request → Option Nat
  | .digest _ depth => some depth
  | .bucketKeys _ depth _ => some depth
  | _ => none

structure Network.PreservesAt (net : Network σ) (deep : Nat → Prop) (I : σ → Prop) : Prop where
  send : ∀ n request {s}, (∀ d ∈ request.depth?, deep d) → I s → I (net.send n request s).2
  count : ∀ m k {s}, I s → I (net.count m k s)

theorem Network.Preserves.at (h : net.Preserves I) (deep : Nat → Prop) : net.PreservesAt deep I :=
  ⟨fun n request _ _ hs => h.send n request hs, h.count⟩

namespace ReadRound

theorem askAll_preserves (hget : ∀ n s, I s → I (net.send n (.get key) s).2) (ns : List NodeId)
    {s : σ} (h : I s) : I (askAll net key ns s).2 := by
  induction ns generalizing s with
  | nil => exact h
  | cons n ns ih => exact ih (hget n s h)

theorem listen_induction {M : ReadRound → σ → Prop}
    (late : ∀ g s call rest, InFlight.earliest g.pending = some (call, rest) → deadline ≤ call.due →
      M g s → M { g with time := deadline } s)
    (heard : ∀ g s call rest, g.successes < quorum →
      InFlight.earliest g.pending = some (call, rest) → call.due < deadline → M g s →
        M (receive net sloppy key quorum call.answer
            { g with pending := rest, time := call.due } s).1
          (receive net sloppy key quorum call.answer
            { g with pending := rest, time := call.due } s).2)
    (fuel : Nat) {g : ReadRound} {s : σ} (h : M g s) :
    M (listen net sloppy key quorum deadline fuel g s).1
      (listen net sloppy key quorum deadline fuel g s).2 := by
  induction fuel generalizing g s with
  | zero => exact h
  | succ fuel ih =>
    unfold listen
    split
    · exact h
    · rename_i hq
      split
      · exact h
      · rename_i call rest hcall
        split
        · rename_i hdue
          exact late g s call rest hcall hdue h
        · rename_i hdue
          exact ih (heard g s call rest (Nat.lt_of_not_le hq) hcall (Nat.lt_of_not_le hdue) h)

theorem receive_preserves (hget : ∀ n s, I s → I (net.send n (.get key) s).2) (a : ReadAnswer)
    (g : ReadRound) {s : σ} (h : I s) : I (receive net sloppy key quorum a g s).2 := by
  unfold receive
  split
  · exact h
  · unfold replace
    split
    · exact h
    · split
      · exact hget _ s h
      · exact h

theorem run_preserves (hget : ∀ n s, I s → I (net.send n (.get key) s).2) (sloppy : Bool)
    (replicas standIns : List NodeId) (quorum deadline : Nat) {s : σ} (h : I s) :
    I (run net sloppy key replicas standIns quorum deadline s).2 := by
  refine listen_induction (M := fun _ s => I s) (fun _ _ _ _ _ _ h => h) ?_ _
    (askAll_preserves hget replicas h)
  intro g s call rest _ _ _ h
  exact receive_preserves hget _ _ h

end ReadRound

namespace WriteRound

theorem write_preserves (hput : ∀ n s, I s → I (net.send n (.put key v) s).2)
    (hhint : ∀ n target s, I s → I (net.send n (.putHinted target key v) s).2) (time : Nat)
    (target : NodeId) (standIn : Option NodeId) {s : σ} (h : I s) :
    I (write net key v time target standIn s).2 := by
  cases standIn with
  | none => exact hput target s h
  | some n => exact hhint n target s h

theorem writeAll_preserves (hput : ∀ n s, I s → I (net.send n (.put key v) s).2) (time : Nat)
    (ns : List NodeId) {s : σ} (h : I s) : I (writeAll net key v time ns s).2 := by
  induction ns generalizing s with
  | nil => exact h
  | cons n ns ih => exact ih (hput n s h)

theorem listen_induction {M : WriteRound → σ → Prop}
    (late : ∀ g s, M g s → M { g with time := deadline } s)
    (heard : ∀ g s call rest, g.acks < quorum →
      InFlight.earliest g.pending = some (call, rest) → M g s →
        M (receive net sloppy key v call.answer { g with pending := rest, time := call.due } s).1
          (receive net sloppy key v call.answer { g with pending := rest, time := call.due } s).2)
    (fuel : Nat) {g : WriteRound} {s : σ} (h : M g s) :
    M (listen net sloppy key v quorum deadline fuel g s).1
      (listen net sloppy key v quorum deadline fuel g s).2 := by
  induction fuel generalizing g s with
  | zero => exact h
  | succ fuel ih =>
    unfold listen
    split
    · exact h
    · rename_i hq
      split
      · exact h
      · rename_i call rest hcall
        split
        · exact late g s h
        · exact ih (heard g s call rest (Nat.lt_of_not_le hq) hcall h)

theorem drain_induction {M : WriteRound → σ → Prop}
    (heard : ∀ g s call rest, InFlight.earliest g.pending = some (call, rest) → M g s →
        M (receive net sloppy key v call.answer { g with pending := rest, time := call.due } s).1
          (receive net sloppy key v call.answer { g with pending := rest, time := call.due } s).2)
    (fuel : Nat) {g : WriteRound} {s : σ} (h : M g s) :
    M (drain net sloppy key v fuel g s).1 (drain net sloppy key v fuel g s).2 := by
  induction fuel generalizing g s with
  | zero => exact h
  | succ fuel ih =>
    unfold drain
    split
    · exact h
    · rename_i call rest hcall
      exact ih (heard g s call rest hcall h)

theorem receive_preserves (hput : ∀ n s, I s → I (net.send n (.put key v) s).2)
    (hhint : ∀ n target s, I s → I (net.send n (.putHinted target key v) s).2)
    (a : WriteAnswer) (g : WriteRound) {s : σ} (h : I s) :
    I (receive net sloppy key v a g s).2 := by
  unfold receive
  split
  · exact h
  · unfold replace
    split
    · exact h
    · rename_i n _ _
      split
      · exact write_preserves hput hhint g.time a.target (some n) h
      · exact h

theorem listen_preserves (hput : ∀ n s, I s → I (net.send n (.put key v) s).2)
    (hhint : ∀ n target s, I s → I (net.send n (.putHinted target key v) s).2) (fuel : Nat)
    (g : WriteRound) {s : σ} (h : I s) :
    I (listen net sloppy key v quorum deadline fuel g s).2 := by
  refine listen_induction (M := fun _ s => I s) (fun _ _ h => h) ?_ fuel h
  intro g s call rest _ _ h
  exact receive_preserves hput hhint _ _ h

theorem run_preserves (hput : ∀ n s, I s → I (net.send n (.put key v) s).2)
    (hhint : ∀ n target s, I s → I (net.send n (.putHinted target key v) s).2)
    (replicas standIns : List NodeId) (time : Nat) {s : σ} (h : I s) :
    I (run net sloppy key v replicas standIns quorum time deadline s).2 :=
  listen_preserves hput hhint _ _ (writeAll_preserves hput time replicas h)

theorem drain_preserves (hput : ∀ n s, I s → I (net.send n (.put key v) s).2)
    (hhint : ∀ n target s, I s → I (net.send n (.putHinted target key v) s).2) (fuel : Nat)
    (g : WriteRound) {s : σ} (h : I s) : I (drain net sloppy key v fuel g s).2 := by
  refine drain_induction (M := fun _ s => I s) ?_ fuel h
  intro g s call rest _ h
  exact receive_preserves hput hhint _ _ h

end WriteRound

namespace Repair

theorem push_preserves_at (hnet : net.PreservesAt deep I) (key : Key) (vs : List Version) (n : NodeId)
    {s : σ} (h : I s) : I (push net key vs n s).2.2 :=
  hnet.send n (.repairPush key vs) nofun h

theorem versions_preserves_at (hnet : net.PreservesAt deep I) (key : Key) (n : NodeId) {s : σ} (h : I s) :
    I (versions net key n s).2 :=
  hnet.send n (.get key) nofun h

theorem digest_preserves_at (hnet : net.PreservesAt deep I) {depth : Nat} (hdepth : deep depth)
    (n peer : NodeId) {s : σ} (h : I s) : I (digest net depth n peer s).2 :=
  hnet.send n (.digest peer depth) (fun _ hd => Option.some.inj hd ▸ hdepth) h

theorem bucketKeys_preserves_at (hnet : net.PreservesAt deep I) {depth : Nat} (hdepth : deep depth)
    (buckets : List Nat) (n peer : NodeId) {s : σ} (h : I s) :
    I (bucketKeys net depth buckets n peer s).2 :=
  hnet.send n (.bucketKeys peer depth buckets) (fun _ hd => Option.some.inj hd ▸ hdepth) h

theorem pushAll_preserves_at (hnet : net.PreservesAt deep I) (vs : List Version) (time : Nat)
    (ns : List NodeId) {s : σ} (h : I s) : I (pushAll net key vs time ns s).2.2 := by
  induction ns generalizing s with
  | nil => exact h
  | cons n ns ih =>
    have hpush := push_preserves_at hnet key vs n h
    simp only [pushAll]
    split
    · exact ih (hnet.count _ _ hpush)
    · exact ih hpush

theorem pushResolved_preserves_at (hnet : net.PreservesAt deep I) (canonical : List Version) (time : Nat)
    (observed : List (NodeId × List Version)) {s : σ} (h : I s) :
    I (pushResolved net key canonical time observed s).2.2 := by
  unfold pushResolved
  split
  · exact h
  · exact pushAll_preserves_at hnet _ _ _ h

theorem pushAll_preserves (hnet : net.Preserves I) (vs : List Version) (time : Nat)
    (ns : List NodeId) {s : σ} (h : I s) : I (pushAll net key vs time ns s).2.2 :=
  pushAll_preserves_at (hnet.at fun _ => True) vs time ns h

theorem pushResolved_preserves (hnet : net.Preserves I) (canonical : List Version) (time : Nat)
    (observed : List (NodeId × List Version)) {s : σ} (h : I s) :
    I (pushResolved net key canonical time observed s).2.2 :=
  pushResolved_preserves_at (hnet.at fun _ => True) canonical time observed h

theorem mendNode_preserves_at (hnet : net.PreservesAt deep I) (key : Key) (reconciled : List Version)
    (n : NodeId) (held : List Version) {s : σ} (h : I s) : I (mendNode net key reconciled n held s).2 := by
  unfold mendNode
  split
  · exact push_preserves_at hnet key reconciled n h
  · exact h

theorem mendKey_preserves_at (hnet : net.PreservesAt deep I) (a b : NodeId) (key : Key)
    (report : RepairReport) {s : σ} (h : I s) : I (mendKey net a b key report s).2 := by
  have ha := versions_preserves_at hnet key a h
  have hb := versions_preserves_at hnet key b ha
  unfold mendKey
  dsimp only
  split
  · exact hb
  · exact hb
  · rename_i heldA heldB _ _
    have hmendA := mendNode_preserves_at hnet key (Version.reconcile (heldA ++ heldB)) a heldA hb
    split
    · rename_i hm
      rwa [hm] at hmendA
    · rename_i hm
      rw [hm] at hmendA
      have hmendB := mendNode_preserves_at hnet key (Version.reconcile (heldA ++ heldB)) b heldB hmendA
      split
      · rename_i hm
        rwa [hm] at hmendB
      · rename_i hm
        rwa [hm] at hmendB

theorem mendKeys_preserves_at (hnet : net.PreservesAt deep I) (a b : NodeId) (keys : List Key)
    (report : RepairReport) {s : σ} (h : I s) : I (mendKeys net a b keys report s).2 := by
  induction keys generalizing report s with
  | nil => exact h
  | cons key keys ih =>
    have hkey := mendKey_preserves_at hnet a b key report h
    unfold mendKeys
    split
    · rename_i hm
      rwa [hm] at hkey
    · rename_i hm
      rw [hm] at hkey
      exact ih _ hkey

theorem syncPair_preserves_at (hnet : net.PreservesAt deep I) {depth : Nat} (hdepth : deep depth)
    (a b : NodeId) {s : σ} (h : I s) : I (syncPair net depth a b s).2 := by
  have hcount := hnet.count .repairPasses 1 h
  have hda := digest_preserves_at hnet hdepth a b hcount
  have hdb := digest_preserves_at hnet hdepth b a hda
  unfold syncPair
  dsimp only
  split
  · exact hdb
  · exact hdb
  · rename_i da db _ _
    split
    · exact hdb
    · have hka := bucketKeys_preserves_at hnet hdepth (da.diff db) a b hdb
      have hkb := bucketKeys_preserves_at hnet hdepth (da.diff db) b a hka
      split
      · exact hkb
      · exact hkb
      · rename_i ka kb _ _
        have hmend := mendKeys_preserves_at hnet a b
          ((allKeys ka kb).filter (fun key => !decide (ka.get? key = kb.get? key)))
          ⟨(da.diff db).length, (allKeys ka kb).length, 0, 0⟩ hkb
        split
        · rename_i hm
          exact (congrArg (fun r => I r.2) hm).mp hmend
        · rename_i hm
          exact hnet.count _ _ ((congrArg (fun r => I r.2) hm).mp hmend)

end Repair

namespace Coordinator

theorem put_preserves_at (hnet : net.PreservesAt deep I) (key : Key) (v : Version) (n : NodeId) (s : σ) :
    I s → I (net.send n (.put key v) s).2 :=
  hnet.send n (.put key v) nofun

theorem putHinted_preserves_at (hnet : net.PreservesAt deep I) (key : Key) (v : Version)
    (n target : NodeId) (s : σ) : I s → I (net.send n (.putHinted target key v) s).2 :=
  hnet.send n (.putHinted target key v) nofun

theorem accept_preserves_at (hnet : net.PreservesAt deep I) (c : Coordinator) (payload : Payload)
    (context : VersionVector) {s : σ} (h : I s) : I (c.accept net key payload context s).2 := by
  have hcount := hnet.count payload.meter 1 h
  unfold accept
  dsimp only
  split
  · exact hcount
  · rename_i replicas _
    have hread := ReadRound.run_preserves (fun n _ => hnet.send n (.get key) nofun) c.quorum.sloppy
      replicas (c.ring.standIns key replicas) c.quorum.w c.quorum.writeTimeout hcount
    split
    · exact hread
    · rename_i vector _
      split
      · exact hnet.count _ _ (WriteRound.run_preserves (put_preserves_at hnet key _)
          (putHinted_preserves_at hnet key _) _ _ _ hread)
      · exact WriteRound.run_preserves (put_preserves_at hnet key _)
          (putHinted_preserves_at hnet key _) _ _ _ hread

theorem write_preserves_at (hnet : net.PreservesAt deep I) (c : Coordinator) (payload : Payload)
    (context : VersionVector) {s : σ} (h : I s) : I (c.write net key payload context s).2 := by
  have haccept : I (c.accept net key payload context s).2 :=
    accept_preserves_at hnet c payload context h
  unfold write
  split
  · rename_i heq
    rwa [heq] at haccept
  · rename_i heq
    rw [heq] at haccept
    exact WriteRound.drain_preserves (put_preserves_at hnet key _) (putHinted_preserves_at hnet key _)
      _ _ haccept

theorem write_preserves (hnet : net.Preserves I) (c : Coordinator) (payload : Payload)
    (context : VersionVector) {s : σ} (h : I s) : I (c.write net key payload context s).2 :=
  write_preserves_at (hnet.at fun _ => True) c payload context h

theorem repairObserved_preserves_at (hnet : net.PreservesAt deep I) (canonical : List Version)
    (round : ReadRound) (deadline : Option Nat) {s : σ} (h : I s) :
    I (repairObserved net key canonical round deadline s) :=
  Repair.pushResolved_preserves_at hnet _ _ _ (Repair.pushResolved_preserves_at hnet _ _ _ h)

theorem read_preserves_at (hnet : net.PreservesAt deep I) (c : Coordinator) {s : σ} (h : I s) :
    I (c.read net key s).2 := by
  have hcount := hnet.count .gets 1 h
  unfold read
  dsimp only
  split
  · exact hcount
  · rename_i replicas _
    have hread := ReadRound.run_preserves (fun n _ => hnet.send n (.get key) nofun) c.quorum.sloppy
      replicas (c.ring.standIns key replicas) c.quorum.r c.quorum.readTimeout hcount
    split
    · exact hnet.count _ _ hread
    · split
      · exact hread
      · have hconflict : ∀ b : Bool, ∀ s, I s →
            I (if b = true then net.count .conflicts 1 s else s) := by
          intro b s h
          split
          · exact hnet.count _ _ h
          · exact h
        split <;> split
        all_goals
          first
          | exact hconflict _ _ hread
          | exact repairObserved_preserves_at hnet _ _ _ (hconflict _ _ hread)

end Coordinator

end QuorumStore
