import QuorumStore.Proofs.Preservation

namespace QuorumStore.ReadRound

variable {σ : Type} {net : Network σ} {I : σ → Prop} {key : Key} {deadline : Nat}
  {good : NodeId → List Version → Prop} {replicas standIns : List NodeId} {g : ReadRound}

def awaited (g : ReadRound) : List NodeId := g.pending.map (·.answer.node)

theorem awaited_perm (heard : List NodeId) {call : InFlight ReadAnswer} {rest : List (InFlight ReadAnswer)}
    (hperm : (call :: rest).Perm g.pending) :
    (call.answer.node :: (heard ++ rest.map (·.answer.node))).Perm (heard ++ g.awaited) := by
  have hnodes : (call.answer.node :: rest.map (·.answer.node)).Perm g.awaited :=
    hperm.map (fun c : InFlight ReadAnswer => c.answer.node)
  exact List.perm_middle.symm.trans (hnodes.append_left heard)

theorem mem_versions_hear {n : NodeId} {isStandIn : Bool} {vs : List Version} {v : Version} :
    v ∈ (g.hear n isStandIn vs).versions ↔ v ∈ g.versions ∨ v ∈ vs := by
  cases isStandIn <;> simp [hear, versions, or_assoc, or_comm]

@[simp] theorem successes_hear (g : ReadRound) (n : NodeId) (isStandIn : Bool) (vs : List Version) :
    (g.hear n isStandIn vs).successes = g.successes + 1 := by
  cases isStandIn <;> rfl

@[simp] theorem pending_hear (g : ReadRound) (n : NodeId) (isStandIn : Bool) (vs : List Version) :
    (g.hear n isStandIn vs).pending = g.pending := by
  cases isStandIn <;> rfl

@[simp] theorem standIns_hear (g : ReadRound) (n : NodeId) (isStandIn : Bool) (vs : List Version) :
    (g.hear n isStandIn vs).standIns = g.standIns := by
  cases isStandIn <;> rfl

def Proper (good : NodeId → List Version → Prop) (a : ReadAnswer) : Prop :=
  ∀ vs, a.versions = .ok vs → good a.node vs

structure Reads (net : Network σ) (key : Key) (I : σ → Prop)
    (good : NodeId → List Version → Prop) : Prop where
  keeps : ∀ n s, I s → I (net.send n (.get key) s).2
  good : ∀ n s vs, I s → (net.send n (.get key) s).1.answer = .ok (.versions vs) → good n vs

theorem versions_of_bind_eq_ok {answer : Except CallError Response} {n : NodeId} {vs : List Version}
    (h : answer.bind (Response.expectVersions n) = .ok vs) : answer = .ok (.versions vs) := by
  cases answer with
  | error e => cases h
  | ok response => cases response <;> cases h; rfl

theorem Reads.proper (h : Reads net key I good) {isStandIn : Bool} {time : Nat} {n : NodeId}
    {s : σ} (hs : I s) : Proper good (ask net key isStandIn time n s).1.answer :=
  fun vs hvs => h.good n s vs hs (versions_of_bind_eq_ok hvs)

theorem map_node_askAll (ns : List NodeId) (s : σ) :
    (askAll net key ns s).1.map (·.answer.node) = ns := by
  induction ns generalizing s with
  | nil => rfl
  | cons n ns ih => exact congrArg (n :: ·) (ih _)

theorem of_mem_askAll {Q : InFlight ReadAnswer → Prop}
    (hkeeps : ∀ n s, I s → I (net.send n (.get key) s).2)
    (hask : ∀ n s, I s → Q (ask net key false 0 n s).1) (ns : List NodeId) {s : σ} (hs : I s) :
    ∀ c ∈ (askAll net key ns s).1, Q c := by
  induction ns generalizing s with
  | nil => exact fun _ h => nomatch h
  | cons n ns ih =>
    intro c hc
    rcases List.mem_cons.mp hc with rfl | hc
    · exact hask n s hs
    · exact ih (hkeeps n s hs) c hc

theorem run_induction {M : ReadRound → Prop} {Q : InFlight ReadAnswer → Prop}
    (hkeeps : ∀ n s, I s → I (net.send n (.get key) s).2)
    (first : ∀ n s, I s → Q (ask net key false 0 n s).1)
    (next : ∀ call n s, I s → Q call → Q (ask net key true call.due n s).1)
    (start : ∀ calls, M ⟨0, [], [], calls, standIns, 0⟩)
    (late : ∀ g call, Q call → deadline ≤ call.due → M g → M { g with time := deadline })
    (good : ∀ g call rest vs, Q call → call.answer.versions = .ok vs → M g →
      M (({ g with pending := rest, time := call.due } : ReadRound).hear call.answer.node
        call.answer.isStandIn vs))
    (bad : ∀ g call pending standIns, Q call → M g →
      M { g with pending, standIns, time := call.due })
    (sloppy : Bool) (quorum : Nat) {s : σ} (hs : I s) :
    M (run net sloppy key replicas standIns quorum deadline s).1 := by
  suffices I (run net sloppy key replicas standIns quorum deadline s).2 ∧
      M (run net sloppy key replicas standIns quorum deadline s).1 ∧
      ∀ c ∈ (run net sloppy key replicas standIns quorum deadline s).1.pending, Q c from this.2.1
  refine listen_induction (M := fun g s => I s ∧ M g ∧ ∀ c ∈ g.pending, Q c) ?_ ?_ _
    ⟨askAll_preserves hkeeps replicas hs, start _, of_mem_askAll hkeeps first replicas hs⟩
  · rintro g s call rest hcall hlate ⟨hs, hg, hpending⟩
    have hmem := (InFlight.earliest_perm hcall).subset (List.mem_cons_self ..)
    exact ⟨hs, late g call (hpending call hmem) hlate hg, hpending⟩
  · rintro g s call rest - hcall - ⟨hs, hg, hpending⟩
    have hperm := InFlight.earliest_perm hcall
    have hQ := hpending call (hperm.subset (List.mem_cons_self ..))
    have hrest : ∀ c ∈ rest, Q c := fun c hc => hpending c (hperm.subset (List.mem_cons_of_mem _ hc))
    refine ⟨receive_preserves hkeeps _ _ hs, ?_⟩
    rw [receive]
    split
    · rename_i vs hvs
      exact ⟨good g call rest vs hQ hvs hg, by simpa using hrest⟩
    · rw [replace]
      split
      · exact ⟨bad g call rest g.standIns hQ hg, hrest⟩
      · split
        · refine ⟨bad g call _ _ hQ hg, fun c hc => ?_⟩
          rcases List.mem_append.mp hc with hc | hc
          · exact hrest c hc
          · obtain rfl := List.mem_singleton.mp hc
            exact next call _ s hs hQ
        · exact ⟨bad g call rest g.standIns hQ hg, hrest⟩

theorem run_versions {P : Version → Prop} (hr : Reads net key I (fun _ vs => ∀ v ∈ vs, P v))
    (sloppy : Bool) (quorum deadline : Nat) {s : σ} (hs : I s) :
    ∀ v ∈ (run net sloppy key replicas standIns quorum deadline s).1.versions, P v := by
  refine run_induction (M := fun g => ∀ v ∈ g.versions, P v)
    (Q := fun c => Proper (fun _ vs => ∀ v ∈ vs, P v) c.answer) hr.keeps ?_ ?_ ?_ ?_ ?_ ?_ _ _ hs
  · exact fun _ _ hs => hr.proper hs
  · exact fun _ _ _ hs _ => hr.proper hs
  · exact fun _ _ h => nomatch h
  · exact fun _ _ _ _ hg => hg
  · intro g call rest vs hproper hvs hg v hv
    exact (mem_versions_hear.mp hv).elim (hg v) (hproper vs hvs v)
  · exact fun _ _ _ _ _ hg => hg

theorem run_time (hkeeps : ∀ n s, I s → I (net.send n (.get key) s).2)
    (hdelay : ∀ n s, I s → (net.send n (.get key) s).1.delay = 0) (sloppy : Bool) (quorum : Nat)
    (hdeadline : 0 < deadline) {s : σ} (hs : I s) :
    (run net sloppy key replicas standIns quorum deadline s).1.time = 0 := by
  refine run_induction (M := fun g => g.time = 0) (Q := fun c => c.due = 0) hkeeps ?_ ?_ ?_ ?_ ?_ ?_
    sloppy quorum hs
  · exact fun n s hs => congrArg (0 + ·) (hdelay n s hs)
  · exact fun call n s hs hdue => (congrArg (call.due + ·) (hdelay n s hs)).trans hdue
  · exact fun _ => rfl
  · intro g call hdue hlate _
    omega
  · intro g call rest vs hdue _ _
    cases call.answer.isStandIn <;> exact hdue
  · exact fun _ _ _ _ hdue _ => hdue

theorem run_versions_of_deadline_zero (sloppy : Bool) (quorum : Nat) (s : σ) :
    (run net sloppy key replicas standIns quorum 0 s).1.versions = [] := by
  refine listen_induction (M := fun g _ => g.versions = []) ?_ ?_ _ rfl
  · exact fun _ _ _ _ _ _ h => h
  · exact fun _ _ _ _ _ _ hdue _ => absurd hdue (Nat.not_lt_zero _)

theorem run_versions_of_single {n : NodeId} {vs : List Version} {s : σ}
    (hanswer : (net.send n (.get key) s).1.answer = .ok (.versions vs))
    (hdelay : (net.send n (.get key) s).1.delay = 0) (sloppy : Bool) (hdeadline : 0 < deadline) :
    (run net sloppy key [n] standIns 1 deadline s).1.versions = vs := by
  have hask : (ask net key false 0 n s).1 = ⟨0, n, false, .ok vs⟩ := by
    simp only [ask, hanswer, hdelay]
    rfl
  have hlisten : ∀ fuel g s, 1 ≤ g.successes → listen net sloppy key 1 deadline fuel g s = (g, s) := by
    intro fuel g s h
    cases fuel with
    | zero => rfl
    | succ fuel => rw [listen, if_pos h]
  rw [run, List.length_singleton, Nat.add_comm 1]
  simp only [askAll, hask, listen, InFlight.earliest, receive]
  have hmet : ∀ g : ReadRound, 1 ≤ (g.hear n false vs).successes := fun g =>
    le_of_le_of_eq (Nat.le_add_left 1 g.successes) (successes_hear g n false vs).symm
  rw [if_neg (by omega), if_neg (by omega), hlisten _ _ _ (hmet _)]
  simp [hear, versions]

end QuorumStore.ReadRound
