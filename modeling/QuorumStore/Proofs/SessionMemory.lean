import QuorumStore.Proofs.SessionReads

namespace QuorumStore

namespace Session

def Operation.key : Operation → Key
  | .write key _ => key
  | .read key => key

variable {σ : Type} {net : Network σ} {c : Coordinator} {key k : Key} {session : Session}
  {v w : VersionVector} {j j' : Journal}

inductive Event.Shows : Event → Key → VersionVector → Prop where
  | wrote (key : Key) (payload : Payload) (ack : WriteAck) : Shows (.wrote key payload ack) key ack.vector
  | saw (key : Key) (r : Read) : Shows (.saw key r) key r.context

def Remembers (session : Session) (key : Key) (v : VersionVector) : Prop :=
  ∃ seen, session.context? key = some seen ∧ v ≤ seen

theorem context?_observe_of_ne (session : Session) (v : VersionVector) (h : k ≠ key) :
    (session.observe k v).context? key = session.context? key := by
  simp only [observe, context?, SortedMap.get?_insert]
  rw [if_neg (Ne.symm h)]

theorem exists_context?_observe (session : Session) (key : Key) (v : VersionVector) :
    ∃ seen, (session.observe key v).context? key = some seen ∧ v ≤ seen ∧
      ∀ w, session.context? key = some w → w ≤ seen := by
  simp only [observe, context?, SortedMap.get?_insert, if_true]
  cases session.seen.get? key with
  | none => exact ⟨v, rfl, v.le_refl, fun w h => absurd h.symm (Option.some_ne_none w)⟩
  | some seen =>
    refine ⟨seen.merge v, rfl, seen.le_merge_right v, fun w h => ?_⟩
    obtain rfl := Option.some.inj h
    exact seen.le_merge_left v

theorem remembers_observe (session : Session) (key : Key) (v : VersionVector) :
    (session.observe key v).Remembers key v := by
  obtain ⟨seen, hseen, hle, -⟩ := session.exists_context?_observe key v
  exact ⟨seen, hseen, hle⟩

theorem Remembers.observe (h : session.Remembers key w) (k : Key) (v : VersionVector) :
    (session.observe k v).Remembers key w := by
  obtain ⟨seen, hseen, hle⟩ := h
  by_cases hk : k = key
  · subst hk
    obtain ⟨seen', hseen', -, hmono⟩ := session.exists_context?_observe k v
    exact ⟨seen', hseen', VersionVector.le_trans hle (hmono seen hseen)⟩
  · exact ⟨seen, (session.context?_observe_of_ne v hk).trans hseen, hle⟩

theorem remembers_remember (session : Session) (key : Key) (own : Version) :
    (session.remember key own).Remembers key own.vector :=
  session.remembers_observe key own.vector

theorem Remembers.remember (h : session.Remembers key w) (k : Key) (own : Version) :
    (session.remember k own).Remembers key w :=
  h.observe k own.vector

namespace Journal

inductive Step (j : Journal) (key : Key) : Journal → Prop where
  | failed (error : StoreFailure) : Step j key ⟨j.session, .failed key error :: j.events⟩
  | wrote (payload : Payload) (ack : WriteAck)
      (hdom : ack.vector.compare ((j.session.context? key).getD ∅) = .dominates) :
      Step j key
        ⟨j.session.remember key (ownVersion (payload, ack)), .wrote key payload ack :: j.events⟩
  | saw (r : Read) : Step j key ⟨j.session.observe key r.context, .saw key r :: j.events⟩

theorem step_add (net : Network σ) (c : Coordinator) (j : Journal) (operation : Operation) (s : σ) :
    j.Step operation.key (j.add net c (operation, s)) := by
  cases operation with
  | write key payload =>
    rcases hwrite : c.write net key payload ((j.session.context? key).getD ∅) s with ⟨e | ack, s'⟩
    · simp only [add, Session.write, hwrite]
      exact .failed e
    · obtain ⟨replicas, -, -, hstamp, -⟩ := Coordinator.write_eq_ok hwrite
      simp only [add, Session.write, hwrite]
      exact .wrote payload ack (Coordinator.stamp?_dominates hstamp).2
  | read key =>
    rcases j.session.read_cases net c key s with ⟨e, s', -, -, heq⟩ | ⟨found, s', -, heq⟩
    · simp only [add, heq]
      exact .failed e
    · simp only [add, heq]
      cases complete c.quorum.policy (j.session.written.get? key) found with
      | none => exact .failed .notFound
      | some r => exact .saw r

theorem ofCalls_concat (net : Network σ) (c : Coordinator) (calls : List (Operation × σ))
    (call : Operation × σ) :
    ofCalls net c (calls ++ [call]) = (ofCalls net c calls).add net c call :=
  List.foldl_concat ..

namespace Step

theorem remembers (h : j.Step k j') (hv : j.session.Remembers key v) : j'.session.Remembers key v := by
  cases h with
  | failed => exact hv
  | wrote => exact hv.remember ..
  | saw => exact hv.observe ..

theorem memory_of_ne (h : j.Step k j') (hne : k ≠ key) :
    j'.session.context? key = j.session.context? key ∧
      j'.session.written.get? key = j.session.written.get? key := by
  cases h with
  | failed => exact ⟨rfl, rfl⟩
  | wrote payload ack =>
    refine ⟨j.session.context?_observe_of_ne _ hne, ?_⟩
    simp [Ne.symm hne]
  | saw r => exact ⟨j.session.context?_observe_of_ne _ hne, rfl⟩

theorem session_of_failed (h : j.Step k j') {error : StoreFailure} {events : List Event}
    (hfailed : j'.events = .failed key error :: events) : j'.session = j.session := by
  cases h with
  | failed => rfl
  | wrote => cases hfailed
  | saw => cases hfailed

end Step

def Descending (events : List Event) : Prop :=
  events.Pairwise fun later earlier => ∀ key payload ack v, later = .wrote key payload ack →
    earlier.Shows key v → ack.vector.compare v = .dominates

structure Descends (j : Journal) : Prop where
  remembered : ∀ event ∈ j.events, ∀ key v, event.Shows key v → j.session.Remembers key v
  descending : Descending j.events

theorem Descends.step (h : j.Descends) (hstep : j.Step k j') : j'.Descends := by
  have hold : ∀ event ∈ j.events, ∀ key v, event.Shows key v → j'.session.Remembers key v :=
    fun event hevent key v hv => hstep.remembers (h.remembered event hevent key v hv)
  cases hstep with
  | failed error =>
    refine ⟨List.forall_mem_cons.mpr ⟨(fun _ _ hv => nomatch hv), hold⟩, h.descending.cons ?_⟩
    exact fun _ _ _ _ _ _ hwrote => nomatch hwrote
  | saw r =>
    refine ⟨List.forall_mem_cons.mpr ⟨fun key v hv => ?_, hold⟩, h.descending.cons ?_⟩
    · cases hv
      exact j.session.remembers_observe ..
    · exact fun _ _ _ _ _ _ hwrote => nomatch hwrote
  | wrote payload ack hdom =>
    refine ⟨List.forall_mem_cons.mpr ⟨fun key v hv => ?_, hold⟩, h.descending.cons ?_⟩
    · cases hv
      rw [← payload.vector_version ack.vector ack.timestamp]
      exact j.session.remembers_remember ..
    · -- the write's vector is above the context, and that is above all that was shown
      intro earlier hearlier key payload' ack' v hwrote hv
      cases hwrote
      obtain ⟨seen, hseen, hle⟩ := h.remembered earlier hearlier k v hv
      rw [hseen, Option.getD_some] at hdom
      exact VersionVector.dominates_of_le hle hdom

theorem descends_start : start.Descends := ⟨List.forall_mem_nil _, .nil⟩

theorem foldl_add {P : Journal → Prop} (hstep : ∀ {j j' : Journal} {k}, j.Step k j' → P j → P j')
    (net : Network σ) (c : Coordinator) (calls : List (Operation × σ)) (h : P j) :
    P (calls.foldl (add net c) j) := by
  induction calls generalizing j with
  | nil => exact h
  | cons call calls ih => exact ih (hstep (step_add net c j call.1 call.2) h)

end Journal

end Session

open Session

theorem session_writes_descend {σ : Type} (net : Network σ) (c : Coordinator)
    (calls : List (Operation × σ)) :
    ((Journal.ofCalls net c calls).events.Pairwise fun later earlier =>
      ∀ key payload ack, later = .wrote key payload ack →
        (∀ payload' ack', earlier = .wrote key payload' ack' →
          ack.vector.compare ack'.vector = .dominates) ∧
        ∀ r, earlier = .saw key r → ack.vector.compare r.context = .dominates) ∧
    (∀ more key seen, (Journal.ofCalls net c calls).session.context? key = some seen →
      ∃ seen', (Journal.ofCalls net c (calls ++ more)).session.context? key = some seen' ∧
        seen ≤ seen') ∧
    ∀ operation s, let before := (Journal.ofCalls net c calls).session
      let after := Journal.ofCalls net c (calls ++ [(operation, s)])
      (∀ k error, after.events.head? = some (.failed k error) → after.session = before) ∧
      ∀ key, operation.key ≠ key → after.session.context? key = before.context? key ∧
        after.session.written.get? key = before.written.get? key := by
  refine ⟨?_, fun more key seen hseen => ?_, fun operation s => ?_⟩
  · refine (Journal.foldl_add (fun hstep h => h.step hstep) net c calls Journal.descends_start).descending.imp ?_
    rintro _ earlier h key payload ack rfl
    refine ⟨?_, ?_⟩
    · rintro payload' ack' rfl
      exact h key payload ack _ rfl (.wrote key payload' ack')
    · rintro r rfl
      exact h key payload ack _ rfl (.saw key r)
  · rw [Journal.ofCalls, List.foldl_append]
    refine Journal.foldl_add (fun hstep h => hstep.remembers h) net c more ⟨seen, hseen, seen.le_refl⟩
  · have hstep := Journal.step_add net c (Journal.ofCalls net c calls) operation s
    rw [← Journal.ofCalls_concat] at hstep
    refine ⟨fun k error hfailed => ?_, fun key hne => hstep.memory_of_ne hne⟩
    obtain ⟨events, hevents⟩ := List.head?_eq_some_iff.mp hfailed
    exact hstep.session_of_failed hevents

namespace Client

deriving instance DecidableEq for Event

def forgotten : List (Operation × Cluster) :=
  lonely ++ [(.read "k", missed), (.write "k" .deletion, missed)]

def forgottenEvents : List Event :=
  [.wrote "k" .deletion ⟨.ofEntries [("A", 2)], 0, 1, 0⟩,
   .saw "k" (.value (.live [1] (.ofEntries [("A", 1)]) 0)),
   .wrote "k" (.value [1]) ⟨.ofEntries [("A", 1)], 0, 1, 0⟩]

theorem forgotten_write_descends :
    (Journal.ofCalls Cluster.network (coordinator "A") forgotten).events = forgottenEvents ∧
    ((coordinator "A").gathering Cluster.network "k" ["C", "B", "A"] missed).versions = [] ∧
    (VersionVector.ofEntries [("A", 2)]).compare (.ofEntries [("A", 1)]) = .dominates := by
  have hevents : (Journal.ofCalls Cluster.network (coordinator "A") forgotten).events =
      forgottenEvents := by decide +kernel
  have hdescend := (session_writes_descend Cluster.network (coordinator "A") forgotten).1
  rw [hevents] at hdescend
  refine ⟨hevents, by decide +kernel, ?_⟩
  have hread := List.rel_of_pairwise_cons hdescend (List.mem_cons_self ..)
  exact (hread "k" .deletion _ rfl).2 _ rfl

end Client

end QuorumStore
