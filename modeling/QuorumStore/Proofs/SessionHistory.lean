import QuorumStore.Session

namespace QuorumStore.Session

variable {σ : Type} {net : Network σ} {c : Coordinator} {key k : Key} {session : Session}

inductive Operation where
  | write (key : Key) (payload : Payload)
  | read (key : Key)

inductive Event where
  | wrote (key : Key) (payload : Payload) (ack : WriteAck)
  | saw (key : Key) (read : Read)
  | failed (key : Key) (error : StoreFailure)

structure Journal where
  session : Session
  events : List Event

namespace Journal

def start : Journal := ⟨.empty, []⟩

def add (net : Network σ) (c : Coordinator) (j : Journal) : Operation × σ → Journal
  | (.write key payload, s) =>
      match j.session.write net c key payload s with
      | (.error e, session, _) => ⟨session, .failed key e :: j.events⟩
      | (.ok ack, session, _) => ⟨session, .wrote key payload ack :: j.events⟩
  | (.read key, s) =>
      match j.session.read net c key s with
      | (.error e, session, _) => ⟨session, .failed key e :: j.events⟩
      | (.ok read, session, _) => ⟨session, .saw key read :: j.events⟩

def ofCalls (net : Network σ) (c : Coordinator) (calls : List (Operation × σ)) : Journal :=
  calls.foldl (add net c) start

end Journal

def lastWrite? (key : Key) : List Event → Option (Payload × WriteAck)
  | [] => none
  | .wrote k payload ack :: events => if k = key then some (payload, ack) else lastWrite? key events
  | .saw _ _ :: events => lastWrite? key events
  | .failed _ _ :: events => lastWrite? key events

def ownVersion (w : Payload × WriteAck) : Version := w.1.version w.2.vector w.2.timestamp

@[simp] theorem get?_written_remember (session : Session) (key k : Key) (own : Version) :
    (session.remember key own).written.get? k =
      if k = key then some own else session.written.get? k :=
  SortedMap.get?_insert ..

theorem write_cases (session : Session) (net : Network σ) (c : Coordinator) (key : Key)
    (payload : Payload) (s : σ) :
    (∃ e s', session.write net c key payload s = (.error e, session, s')) ∨
    ∃ ack s', session.write net c key payload s =
      (.ok ack, session.remember key (ownVersion (payload, ack)), s') := by
  unfold write
  split
  · exact .inl ⟨_, _, rfl⟩
  · exact .inr ⟨_, _, rfl⟩

def shown : Option Read → Except StoreFailure Read
  | none => .error .notFound
  | some r => .ok r

theorem read_cases (session : Session) (net : Network σ) (c : Coordinator) (key : Key) (s : σ) :
    (∃ e s', e ≠ .notFound ∧ c.read net key s = (.error e, s') ∧
      session.read net c key s = (.error e, session, s')) ∨
    ∃ found s', c.read net key s = (shown found, s') ∧
      session.read net c key s =
        (shown (complete c.quorum.policy (session.written.get? key) found),
          (complete c.quorum.policy (session.written.get? key) found).elim session
            (fun r => session.observe key r.context), s') := by
  unfold read
  dsimp only
  split
  · rename_i r s' hread
    refine .inr ⟨some r, s', hread, ?_⟩
    cases complete c.quorum.policy (session.written.get? key) (some r) <;> rfl
  · rename_i s' hread
    refine .inr ⟨none, s', hread, ?_⟩
    cases complete c.quorum.policy (session.written.get? key) none <;> rfl
  · rename_i e s' hne hread
    refine .inl ⟨e, s', ?_, hread, rfl⟩
    rintro rfl
    exact hne rfl

theorem written_read (session : Session) (net : Network σ) (c : Coordinator) (key : Key) (s : σ) :
    (session.read net c key s).2.1.written = session.written := by
  rcases session.read_cases net c key s with ⟨e, s', -, -, heq⟩ | ⟨found, s', -, heq⟩
  · rw [heq]
  · rw [heq]
    cases complete c.quorum.policy (session.written.get? key) found <;> rfl

theorem get?_written_add {j : Journal}
    (h : j.session.written.get? key = (lastWrite? key j.events).map ownVersion)
    (call : Operation × σ) :
    (j.add net c call).session.written.get? key =
      (lastWrite? key (j.add net c call).events).map ownVersion := by
  obtain ⟨operation, s⟩ := call
  cases operation with
  | write k payload =>
    rcases j.session.write_cases net c k payload s with ⟨e, s', heq⟩ | ⟨ack, s', heq⟩
    · simp only [Journal.add, heq, lastWrite?]
      exact h
    · simp only [Journal.add, heq, lastWrite?, get?_written_remember]
      by_cases hk : k = key
      · rw [if_pos hk, if_pos hk.symm]
        rfl
      · rw [if_neg hk, if_neg (Ne.symm hk)]
        exact h
  | read k =>
    have hsession : (j.add net c (.read k, s)).session = (j.session.read net c k s).2.1 := by
      unfold Journal.add
      dsimp only
      split <;> rename_i heq <;> rw [heq]
    have hevents : lastWrite? key (j.add net c (.read k, s)).events = lastWrite? key j.events := by
      unfold Journal.add
      dsimp only
      split <;> rfl
    rw [hsession, hevents, written_read]
    exact h

theorem get?_written (net : Network σ) (c : Coordinator) (calls : List (Operation × σ)) (key : Key) :
    (Journal.ofCalls net c calls).session.written.get? key =
      (lastWrite? key (Journal.ofCalls net c calls).events).map ownVersion := by
  have hrun : ∀ j : Journal, j.session.written.get? key = (lastWrite? key j.events).map ownVersion →
      (calls.foldl (Journal.add net c) j).session.written.get? key =
        (lastWrite? key (calls.foldl (Journal.add net c) j).events).map ownVersion := by
    induction calls with
    | nil => exact fun _ h => h
    | cons call calls ih => exact fun j h => ih _ (get?_written_add h call)
  exact hrun .start rfl

end QuorumStore.Session
