import QuorumStore.Proofs.CalmCluster

namespace QuorumStore

open Cluster

inductive Action where
  | write (coordinator : NodeId) (payload : Payload) (context : VersionVector)
  | fail (n : NodeId)
  | recover (n : NodeId)

structure Deployment where
  quorum : Quorum
  perMember : Nat
  nodes : List NodeId
  copies : Nat
  callTimeout : Nat
  clock : UInt64

def Apart (vs ws : List Version) : Prop := ∀ v ∈ vs, ∀ w ∈ ws, v.vector.compare w.vector ≠ .equal

instance : DecidableRel Apart :=
  fun vs ws => inferInstanceAs (Decidable (∀ v ∈ vs, ∀ w ∈ ws, v.vector.compare w.vector ≠ .equal))

namespace Deployment

def ring (d : Deployment) : Ring := Ring.ofNodes d.perMember d.nodes

def start (d : Deployment) : Cluster := ofNodes ⟨d.ring, d.copies⟩ d.callTimeout d.clock d.nodes

def coordinator (d : Deployment) (n : NodeId) : Coordinator := ⟨n, d.quorum, d.ring⟩

def Within (d : Deployment) : Action → Prop
  | .write n _ _ => n ∈ d.nodes
  | _ => True

def perform (d : Deployment) (key : Key) (c : Cluster) : Action → Cluster × List Version
  | .write n payload context =>
      ((d.coordinator n).write network.noting key payload context (c, [])).2
  | .fail n => (c.alter n fun k => { k with down := true }, [])
  | .recover n => (c.alter n fun k => { k with down := false }, [])

def takings (d : Deployment) (key : Key) : List Action → Cluster → List (List Version)
  | [], _ => []
  | a :: as, c => (d.perform key c a).2 :: d.takings key as (d.perform key c a).1

def after (d : Deployment) (key : Key) (as : List Action) (c : Cluster) : Cluster :=
  as.foldl (fun c a => (d.perform key c a).1) c

@[simp] theorem takings_append (d : Deployment) (key : Key) (as bs : List Action) (c : Cluster) :
    d.takings key (as ++ bs) c = d.takings key as c ++ d.takings key bs (d.after key as c) := by
  induction as generalizing c with
  | nil => rfl
  | cons a as ih => exact congrArg (_ :: ·) (ih _)

variable {d : Deployment} {key : Key} {c : Cluster}

structure Single (d : Deployment) (key : Key) (n : NodeId) : Prop where
  member : n ∈ d.nodes
  replicas : d.ring.replicas key d.quorum.n = .ok [n]
  strict : d.quorum.sloppy = false ∨ d.ring.standIns key [n] = []
  quorum : d.quorum.w = 1
  patient : 0 < d.quorum.writeTimeout

structure Orderly (n : NodeId) (key : Key) (nodes : List NodeId) (c : Cluster)
    (s : Cluster × List Version) : Prop where
  calm : Calm nodes s.1
  keeps : ∀ w, Covers n key w c → Covers n key w s.1
  held : ∀ v ∈ s.2, Covers n key v.vector s.1
  above : ∀ v ∈ s.2, ∀ w, Covers n key w c → v.vector.compare w = .dominates

variable {n m : NodeId} {payload : Payload} {context : VersionVector}

theorem surveying_calm (hc : Calm d.nodes c) (co : Coordinator) (payload : Payload)
    (replicas : List NodeId) :
    Calm d.nodes (co.surveying network.noting key payload replicas (c, [])).2.1 ∧
      c.SameNetwork (co.surveying network.noting key payload replicas (c, [])).2.1 ∧
      (co.surveying network.noting key payload replicas (c, [])).2.2 = [] := by
  have hnet := (preserves_sameNetwork d.nodes c).noting
  have hrun := ReadRound.run_preserves (I := fun s : Cluster × List Version =>
      Calm d.nodes s.1 ∧ c.SameNetwork s.1) (fun n _ => hnet.send n (.get key)) co.quorum.sloppy
    replicas (co.ring.standIns key replicas) co.quorum.w co.quorum.writeTimeout
    (hnet.count payload.meter 1 (s := (c, [])) ⟨hc, sameNetwork_tally c c.tally⟩)
  exact ⟨hrun.1, hrun.2, ReadRound.run_notes_nothing ..⟩

theorem surveying_covers (hc : Calm d.nodes c) (co : Coordinator) (replicas : List NodeId)
    {w : VersionVector} (h : Covers n key w c) :
    Covers n key w (co.surveying network.noting key payload replicas (c, [])).2.1 := by
  refine (ReadRound.run_preserves (I := fun s : Cluster × List Version =>
    Calm d.nodes s.1 ∧ Covers n key w s.1) ?_ co.quorum.sloppy replicas _ _ _
    (s := network.noting.count payload.meter 1 (c, []))
    ⟨(Calm.preserves d.nodes).count payload.meter 1 hc, h⟩).2
  rintro m s ⟨hs, h⟩
  exact ⟨hs.send m (.get key), covers_send hs.honest m (.get key) h⟩

theorem surveying_single (hc : Calm d.nodes c) (hn : n ∈ d.nodes) (hup : c.isUp n = true)
    {co : Coordinator} (hw : co.quorum.w = 1) (htimeout : 0 < co.quorum.writeTimeout)
    {w : VersionVector} (h : Covers n key w c) :
    Version.Covered (co.surveying network.noting key payload [n] (c, [])).1.versions w := by
  have hcount : Calm d.nodes (network.count payload.meter 1 c) :=
    (Calm.preserves d.nodes).count payload.meter 1 hc
  obtain ⟨vs, hvs⟩ := hcount.versions_send hn hup key
  have hversions : (co.surveying network.noting key payload [n] (c, [])).1.versions = vs := by
    rw [Coordinator.surveying, hw]
    exact ReadRound.run_versions_of_single hvs (hcount.delay_send n (.get key)) _ htimeout
  rw [hversions]
  exact (covered_of_send_get hcount.honest hvs w).mpr (.inl h)

theorem orderly_put {v : Version} {s : Cluster × List Version} (hs : Calm d.nodes s.1)
    (hnothing : s.2 = []) (hkeeps : ∀ w, Covers n key w c → Covers n key w s.1)
    (habove : s.1.isUp n = true → ∀ w, Covers n key w c → v.vector.compare w = .dominates) :
    Orderly n key d.nodes c (network.noting.send n (.put key v) s).2 := by
  have htaken : ∀ u ∈ (network.noting.send n (.put key v) s).2.2,
      u = v ∧ (send n (.put key v) s.1).1.answer.isOk = true := by
    intro u hu
    rw [Network.mem_noted_iff, hnothing] at hu
    obtain ⟨hversion, hok⟩ := hu.resolve_left List.not_mem_nil
    exact ⟨(Option.some.inj hversion).symm, hok⟩
  refine ⟨hs.send n (.put key v), fun w hw => covers_send hs.honest n _ (hkeeps w hw), ?_, ?_⟩
  · intro u hu
    obtain ⟨rfl, hok⟩ := htaken u hu
    cases hanswer : (send n (.put key u) s.1).1.answer with
    | ok response => exact covers_of_send_put hs.honest hanswer
    | error e =>
      rw [hanswer] at hok
      cases hok
  · intro u hu
    obtain ⟨rfl, hok⟩ := htaken u hu
    refine habove ?_
    by_contra hdown
    obtain ⟨e, tally, heq⟩ := send_of_refuses hs.honest
      (.inr (.inl (Bool.eq_false_iff.mpr hdown))) (.put key u)
    rw [heq] at hok
    cases hok

theorem orderly_write (h : d.Single key n) (hc : Calm d.nodes c) (m : NodeId) (payload : Payload)
    (context : VersionVector) :
    Orderly n key d.nodes c (d.perform key c (.write m payload context)) := by
  obtain ⟨hcalm, hsame, hnothing⟩ :=
    surveying_calm hc (d.coordinator m) payload [n]
  have hkeeps : ∀ w, Covers n key w c → Covers n key w
      ((d.coordinator m).surveying network.noting key payload [n] (c, [])).2.1 :=
    fun w => surveying_covers hc (d.coordinator m) [n]
  rw [perform]
  cases hvector : Coordinator.stamp? (d.coordinator m).id
      ((d.coordinator m).surveying network.noting key payload [n] (c, [])).1.versions context with
  | none =>
    rw [Coordinator.write_eq_of_exhausted h.replicas hvector]
    refine ⟨hcalm, hkeeps, ?_, ?_⟩
    all_goals
      rw [hnothing]
      exact fun _ h => nomatch h
  | some vector =>
    refine Coordinator.write_of_single (K := Orderly n key d.nodes c) ?_ h.replicas h.strict hvector ?_
    · rintro k amount s ⟨hs, hkeeps, hheld, habove⟩
      exact ⟨(Calm.preserves d.nodes).count k amount hs, hkeeps, hheld, habove⟩
    · refine orderly_put hcalm hnothing hkeeps fun hisUp w hcovers => ?_
      rw [hsame.isUp] at hisUp
      rw [Payload.vector_version]
      exact (Coordinator.stamp?_dominates hvector).1 w
        (surveying_single hc h.member hisUp h.quorum h.patient hcovers)

theorem orderly_perform (h : d.Single key n) (hc : Calm d.nodes c) (a : Action) :
    Orderly n key d.nodes c (d.perform key c a) := by
  cases a with
  | write m payload context => exact orderly_write h hc m payload context
  | fail m => exact ⟨hc.alter m true, fun _ hw => hw, (fun _ h => nomatch h), (fun _ h => nomatch h)⟩
  | recover m =>
    exact ⟨hc.alter m false, fun _ hw => hw, (fun _ h => nomatch h), (fun _ h => nomatch h)⟩

theorem takings_above (h : d.Single key n) (as : List Action) (hc : Calm d.nodes c)
    {w : VersionVector} (hw : Covers n key w c) :
    ∀ vs ∈ d.takings key as c, ∀ v ∈ vs, v.vector.compare w = .dominates := by
  induction as generalizing c with
  | nil => exact fun _ h => nomatch h
  | cons a as ih =>
    have ha := orderly_perform h hc a
    intro vs hvs
    rcases List.mem_cons.mp hvs with rfl | hvs
    · exact fun v hv => ha.above v hv w hw
    · exact ih ha.calm (ha.keeps w hw) vs hvs

theorem takings_apart_of_single (h : d.Single key n) (as : List Action) (hc : Calm d.nodes c) :
    (d.takings key as c).Pairwise Apart := by
  induction as generalizing c with
  | nil => exact .nil
  | cons a as ih =>
    have ha := orderly_perform h hc a
    refine List.Pairwise.cons ?_ (ih ha.calm)
    intro ws hws v hv w hw
    exact VersionVector.compare_ne_equal_of_dominates
      (takings_above h as ha.calm (ha.held v hv) ws hws w hw)

theorem takings_apart_of_short (h : (d.ring.preference key).length < d.quorum.n) (as : List Action)
    (c : Cluster) : (d.takings key as c).Pairwise Apart := by
  have hnothing : ∀ (as : List Action) (c : Cluster), ∀ vs ∈ d.takings key as c, vs = [] := by
    intro as
    induction as with
    | nil => exact fun _ _ h => absurd h List.not_mem_nil
    | cons a as ih =>
      intro c vs hvs
      rcases List.mem_cons.mp hvs with rfl | hvs
      · cases a with
        | write n payload context =>
          obtain ⟨shortage, hshortage⟩ := Ring.replicas_eq_error_iff.mpr h
          rw [perform, Coordinator.write_eq_of_shortage (c := d.coordinator n) hshortage]
          rfl
        | fail n => rfl
        | recover n => rfl
      · exact ih _ vs hvs
  refine List.pairwise_of_forall_mem_list ?_
  intro vs hvs ws _ v hv
  rw [hnothing as c vs hvs] at hv
  exact absurd hv List.not_mem_nil

def Collides (d : Deployment) (key : Key) : Prop :=
  ∃ actions : List Action, (∀ a ∈ actions, d.Within a) ∧
    ¬ (d.takings key actions d.start).Pairwise Apart

theorem exists_stamp (m : NodeId) : ∃ V, Coordinator.stamp? m [] ∅ = some V := ⟨_, rfl⟩

theorem preserves_up (nodes : List NodeId) (x : NodeId) :
    network.Preserves (fun c => Calm nodes c ∧ c.isUp x = true) where
  send n request c := by
    rintro ⟨hc, hup⟩
    exact ⟨hc.send n request, ((sameNetwork_send n request hc.honest).isUp x).trans hup⟩
  count k amount c := by
    rintro ⟨hc, hup⟩
    exact ⟨(Calm.preserves nodes).count k amount hc, hup⟩

variable {x : NodeId} {replicas standIns : List NodeId} {V : VersionVector}

theorem perform_takes (hreplicas : d.ring.replicas key d.quorum.n = .ok replicas)
    (hV : Coordinator.stamp? m [] ∅ = some V)
    (hnone : ((d.coordinator m).surveying network.noting key payload replicas (c, [])).1.versions = [])
    (h : ∀ v, v ∈ ((d.coordinator m).storing network.noting key replicas v
      ((d.coordinator m).surveying network.noting key payload replicas (c, []))).2.2) :
    ∃ v ∈ (d.perform key c (.write m payload ∅)).2, v.vector = V := by
  have hvector : Coordinator.stamp? (d.coordinator m).id ((d.coordinator m).surveying
      network.noting key payload replicas (c, [])).1.versions ∅ = some V := by
    rw [hnone]
    exact hV
  exact ⟨_, Coordinator.write_takes hreplicas hvector (h _), payload.vector_version V _⟩

theorem write_takes_replica (hreplicas : d.ring.replicas key d.quorum.n = .ok replicas)
    (hV : Coordinator.stamp? m [] ∅ = some V) (hx : x ∈ replicas) (hmem : x ∈ d.nodes)
    (hc : Calm d.nodes c) (hup : c.isUp x = true)
    (hnone : ((d.coordinator m).surveying network.noting key payload replicas (c, [])).1.versions = []) :
    ∃ v ∈ (d.perform key c (.write m payload ∅)).2, v.vector = V := by
  obtain ⟨hcalm, hsame, -⟩ := surveying_calm hc (d.coordinator m) payload replicas
  refine perform_takes hreplicas hV hnone fun v => ?_
  refine WriteRound.run_takes (preserves_up d.nodes x) hx ?_ ⟨hcalm, (hsame.isUp x).trans hup⟩
  rintro c' ⟨hc', hup'⟩
  exact hc'.isOk_send hmem hup' rfl

def TakesAlone (d : Deployment) (key : Key) (m x : NodeId) (V : VersionVector) : Prop :=
  ∀ c, Calm d.nodes c → Alone x c → c.replica x = .volatile → c.isUp x = true →
    ∀ payload, ∃ v ∈ (d.perform key c (.write m payload ∅)).2, v.vector = V

theorem blank_of_alone (halone : Alone x c) (hx : c.replica x = .volatile) : Blank c := by
  intro n
  by_cases hn : n = x
  · exact .inr (hn ▸ hx)
  · exact .inl (halone n hn)

theorem surveying_blank (hc : Calm d.nodes c) (hblank : Blank c) (co : Coordinator)
    (replicas : List NodeId) :
    (co.surveying network.noting key payload replicas (c, [])).1.versions = [] := by
  refine List.eq_nil_iff_forall_not_mem.mpr ?_
  exact ReadRound.run_versions (reads_blank d.nodes key).noting _ _ _
    ⟨(Calm.preserves d.nodes).count payload.meter 1 hc, hblank⟩

theorem takesAlone_replica (hreplicas : d.ring.replicas key d.quorum.n = .ok replicas)
    (hV : Coordinator.stamp? m [] ∅ = some V) (hx : x ∈ replicas) (hmem : x ∈ d.nodes) :
    d.TakesAlone key m x V := by
  intro c hc halone hvolatile hup payload
  exact write_takes_replica hreplicas hV hx hmem hc hup
    (surveying_blank hc (blank_of_alone halone hvolatile) _ _)

theorem takesAlone_standIn (hreplicas : d.ring.replicas key d.quorum.n = .ok [n])
    (hV : Coordinator.stamp? m [] ∅ = some V) (hstandIns : d.ring.standIns key [n] = x :: standIns)
    (hne : n ≠ x) (hsloppy : d.quorum.sloppy = true) (hw : d.quorum.w = 1)
    (htimeout : 0 < d.quorum.writeTimeout) (hmem : x ∈ d.nodes) : d.TakesAlone key m x V := by
  intro c hc halone hvolatile hup payload
  refine perform_takes hreplicas hV (surveying_blank hc (blank_of_alone halone hvolatile) _ _) ?_
  intro v
  obtain ⟨hcalm, hsame, -⟩ := surveying_calm hc (d.coordinator m) payload [n]
  have htime : ((d.coordinator m).surveying network.noting key payload [n] (c, [])).1.time = 0 :=
    ReadRound.run_time (I := fun s : Cluster × List Version => Calm d.nodes s.1)
      (fun k _ h => h.send k _) (fun k _ h => h.delay_send k _) _ _ htimeout
      ((Calm.preserves d.nodes).count payload.meter 1 hc)
  obtain ⟨e, tally, hfail⟩ :=
    send_of_refuses hcalm.honest (hsame.refuses (halone n hne)) (.put key v)
  obtain ⟨hcalm', hup'⟩ := (preserves_up d.nodes x).send n (.put key v)
    ⟨hcalm, (hsame.isUp x).trans hup⟩
  have hdelay := hcalm.delay_send n (.put key v)
  rw [Coordinator.storing, show (d.coordinator m).quorum = d.quorum from rfl,
    show (d.coordinator m).ring = d.ring from rfl, hstandIns, hsloppy, hw, htime]
  refine WriteRound.run_of_replaced (network.noted_stays v) (e := e) ?_ ?_ ?_
  · rw [Network.reply_noting, network_send, hfail]
  · rw [Network.reply_noting, network_send, hdelay]
    exact htimeout
  · have hok := hcalm'.isOk_send hmem hup' (show (Request.putHinted n key v).about key from rfl)
    rw [Network.mem_noted_iff, Network.state_noting, network_send]
    exact .inr ⟨rfl, hok⟩

theorem after_fails (key : Key) (hc : Calm d.nodes c) (ns : List NodeId) :
    Calm d.nodes (d.after key (ns.map .fail) c) ∧
      (∀ k, (d.after key (ns.map .fail) c).replica k = c.replica k) ∧
      ∀ k, k ∈ ns ∨ c.isUp k = false → (d.after key (ns.map .fail) c).isUp k = false := by
  induction ns generalizing c with
  | nil => exact ⟨hc, fun _ => rfl, fun _ h => h.resolve_left List.not_mem_nil⟩
  | cons n ns ih =>
    obtain ⟨hcalm, hreplicas, hdown⟩ := ih (hc.alter n true)
    refine ⟨hcalm, hreplicas, fun k hk => hdown k ?_⟩
    by_cases hkn : k = n
    · simp [hkn]
    · simpa [hkn] using hk

theorem turn_takes (hx : d.TakesAlone key m x V) (hc : Calm d.nodes c) (halone : Alone x c)
    (hvolatile : c.replica x = .volatile) (payload : Payload) :
    ∃ vs, d.takings key [.recover x, .write m payload ∅] c = [[], vs] ∧
      (∃ v ∈ vs, v.vector = V) ∧
      Calm d.nodes (d.after key [.recover x, .write m payload ∅] c) ∧
      Alone x (d.after key [.recover x, .write m payload ∅] c) ∧
      ∀ k, k ≠ x → (d.after key [.recover x, .write m payload ∅] c).replica k = c.replica k := by
  generalize hback : (c.alter x fun k => { k with down := false }) = back
  have hcalm : Calm d.nodes back := hback ▸ hc.alter x false
  have halone' : Alone x back := hback ▸ fun n hn => refuses_alter_of_ne hn (halone n hn)
  have hreplica : ∀ k, back.replica k = c.replica k := hback ▸ fun _ => rfl
  have hup : back.isUp x = true := by
    simp [← hback]
  have htakes := hx back hcalm halone' ((hreplica x).trans hvolatile) hup payload
  have hwrite : (Calm d.nodes (d.perform key back (.write m payload ∅)).1 ∧
      back.SameNetwork (d.perform key back (.write m payload ∅)).1) ∧
      ∀ k, back.Refuses k → (d.perform key back (.write m payload ∅)).1.replica k = back.replica k :=
    Coordinator.write_preserves (preserves_refusing d.nodes back).noting (d.coordinator m) payload ∅
      (s := (back, [])) ⟨⟨hcalm, sameNetwork_tally back back.tally⟩, fun _ _ => rfl⟩
  obtain ⟨⟨hcalm', hnetwork⟩, hsame⟩ := hwrite
  subst hback
  exact ⟨_, rfl, htakes, hcalm', fun n hn => hnetwork.refuses (halone' n hn),
    fun k hk => (hsame k (halone' k hk)).trans (hreplica k)⟩

theorem turns_collide {p q : NodeId} (hne : q ≠ p) (hm : m ∈ d.nodes)
    (hp : d.TakesAlone key m p V) (hq : d.TakesAlone key m q V) : d.Collides key := by
  have hstart : Calm d.nodes d.start := calm_ofNodes ..
  obtain ⟨hcalm₁, hreplicas₁, hdown₁⟩ := after_fails key hstart d.nodes
  have hvolatile₁ : ∀ k, (d.after key (d.nodes.map .fail) d.start).replica k = .volatile :=
    fun k => (hreplicas₁ k).trans (replica_ofNodes ..)
  obtain ⟨vs, hvs, ⟨v, hv, hvV⟩, hcalm₂, halone₂, hreplicas₂⟩ := turn_takes hp hcalm₁
    (alone_of_down hcalm₁ fun k hk _ => hdown₁ k (.inl hk)) (hvolatile₁ p) (.value [1])
  generalize hc₂ : d.after key [.recover p, .write m (.value [1]) ∅]
    (d.after key (d.nodes.map .fail) d.start) = c₂ at hcalm₂ halone₂ hreplicas₂
  -- the other node has not heard of that write when it comes back in its place
  have halone₃ : Alone q (c₂.alter p fun k => { k with down := true }) := by
    intro k hkq
    by_cases hkp : k = p
    · exact .inr (.inl (by simp [hkp]))
    · exact refuses_alter_of_ne hkp (halone₂ k hkp)
  obtain ⟨ws, hws, ⟨w, hw, hwV⟩, -⟩ := turn_takes hq (hcalm₂.alter p true) halone₃
    ((hreplicas₂ q hne).trans (hvolatile₁ q)) (.value [2])
  refine ⟨d.nodes.map .fail ++ ([.recover p, .write m (.value [1]) ∅] ++
    .fail p :: [.recover q, .write m (.value [2]) ∅]), ?_, ?_⟩
  · intro a ha
    rcases List.mem_append.mp ha with ha | ha
    · obtain ⟨n, -, rfl⟩ := List.mem_map.mp ha
      trivial
    · simp only [List.cons_append, List.nil_append, List.mem_cons, List.not_mem_nil, or_false] at ha
      rcases ha with rfl | rfl | rfl | rfl | rfl
      all_goals first | exact hm | trivial
  · intro h
    rw [takings_append, takings_append, hvs, hc₂, takings] at h
    have hboth := (List.pairwise_append.mp (List.pairwise_append.mp h).2.1).2.2 vs
      (List.mem_cons_of_mem _ (List.mem_singleton_self vs)) ws
      (List.mem_cons_of_mem _ (hws ▸ List.mem_cons_of_mem _ (List.mem_singleton_self ws)))
    refine hboth v hv w hw ?_
    rw [hvV, hwV, VersionVector.compare_self]

theorem hasty_collide (hreplicas : d.ring.replicas key d.quorum.n = .ok replicas) (hx : x ∈ replicas)
    (hmem : x ∈ d.nodes) (htimeout : d.quorum.writeTimeout = 0) : d.Collides key := by
  obtain ⟨V, hV⟩ := exists_stamp x
  have hnone : ∀ (c : Cluster) (payload : Payload), ((d.coordinator x).surveying network.noting key
      payload replicas (c, [])).1.versions = [] := by
    intro c payload
    rw [Coordinator.surveying, show (d.coordinator x).quorum = d.quorum from rfl, htimeout]
    exact ReadRound.run_versions_of_deadline_zero ..
  have hstart : Calm d.nodes d.start ∧ d.start.isUp x = true := ⟨calm_ofNodes .., rfl⟩
  obtain ⟨v, hv, hvV⟩ := write_takes_replica hreplicas hV hx hmem hstart.1 hstart.2
    (hnone d.start (.value [1]))
  have hnext : Calm d.nodes (d.perform key d.start (.write x (.value [1]) ∅)).1 ∧
      (d.perform key d.start (.write x (.value [1]) ∅)).1.isUp x = true :=
    Coordinator.write_preserves (preserves_up d.nodes x).noting (d.coordinator x) (.value [1]) ∅
      (s := (d.start, [])) hstart
  obtain ⟨w, hw, hwV⟩ := write_takes_replica hreplicas hV hx hmem hnext.1 hnext.2
    (hnone _ (.value [2]))
  refine ⟨[.write x (.value [1]) ∅, .write x (.value [2]) ∅], ?_, ?_⟩
  · intro a ha
    simp only [List.mem_cons, List.not_mem_nil, or_false] at ha
    rcases ha with rfl | rfl
    all_goals exact hmem
  · intro h
    rw [takings, takings, List.pairwise_cons] at h
    refine h.1 _ (List.mem_cons_self ..) v hv w hw ?_
    rw [hvV, hwV, VersionVector.compare_self]

theorem preferred_collide {p q : NodeId} {rest : List NodeId}
    (hpreference : d.ring.preference key = p :: q :: rest)
    (hlong : d.quorum.n ≤ (d.ring.preference key).length) (hw : 1 ≤ d.quorum.w)
    (hwn : d.quorum.w ≤ d.quorum.n) (hpatient : 0 < d.quorum.writeTimeout)
    (hsloppy : d.quorum.n = 1 → d.quorum.sloppy = true) : d.Collides key := by
  have hsub : d.ring.preference key ⊆ d.nodes := Ring.preference_ofNodes_subset d.perMember d.nodes key
  have hnodup := d.ring.nodup_preference key
  have hreplicas := Ring.replicas_eq_ok_iff.mpr ⟨hlong, rfl⟩
  have hstandIns := Ring.standIns_of_replicas hreplicas
  rw [hpreference] at hsub hnodup hreplicas hstandIns
  have hpNode : p ∈ d.nodes := hsub (List.mem_cons_self ..)
  have hqNode : q ∈ d.nodes := hsub (List.mem_cons_of_mem _ (List.mem_cons_self ..))
  have hne : q ≠ p := by
    rintro rfl
    exact (List.nodup_cons.mp hnodup).1 (List.mem_cons_self ..)
  obtain ⟨V, hV⟩ := exists_stamp p
  obtain ⟨k, hk⟩ : ∃ k, d.quorum.n = k + 1 := ⟨d.quorum.n - 1, by omega⟩
  have hp : d.TakesAlone key p p V := by
    refine takesAlone_replica hreplicas hV ?_ hpNode
    rw [hk]
    exact List.mem_cons_self ..
  refine turns_collide hne hpNode hp ?_
  cases k with
  | zero =>
    rw [hk] at hstandIns
    exact takesAlone_standIn (hk ▸ hreplicas) hV hstandIns hne.symm (hsloppy hk) (by omega) hpatient
      hqNode
  | succ k =>
    refine takesAlone_replica hreplicas hV ?_ hqNode
    rw [hk]
    exact List.mem_cons_of_mem _ (List.mem_cons_self ..)

theorem exists_collision (hw : 1 ≤ d.quorum.w) (hwn : d.quorum.w ≤ d.quorum.n)
    (hlong : d.quorum.n ≤ (d.ring.preference key).length)
    (hmany : 0 < d.quorum.writeTimeout → d.quorum.n = 1 →
      d.quorum.sloppy = true ∧ (d.ring.preference key).length ≠ 1) : d.Collides key := by
  have hsub : d.ring.preference key ⊆ d.nodes := Ring.preference_ofNodes_subset d.perMember d.nodes key
  rcases Nat.eq_zero_or_pos d.quorum.writeTimeout with hhasty | hpatient
  · have hreplicas := Ring.replicas_eq_ok_iff.mpr ⟨hlong, rfl⟩
    obtain ⟨p, hp⟩ := List.exists_mem_of_length_pos (l := (d.ring.preference key).take d.quorum.n)
      (by rw [List.length_take]; omega)
    exact hasty_collide hreplicas hp (hsub (List.mem_of_mem_take hp)) hhasty
  · match hpreference : d.ring.preference key with
    | [] =>
      rw [hpreference, List.length_nil] at hlong
      omega
    | [p] =>
      rw [hpreference, List.length_singleton] at hlong hmany
      exact absurd rfl (hmany hpatient (by omega)).2
    | p :: q :: rest =>
      exact preferred_collide hpreference hlong hw hwn hpatient fun hone => (hmany hpatient hone).1

theorem single_of_preference {p : NodeId} {rest : List NodeId}
    (hpreference : d.ring.preference key = p :: rest) (hone : d.quorum.n = 1) (hw : d.quorum.w = 1)
    (hpatient : 0 < d.quorum.writeTimeout)
    (hstrict : d.quorum.sloppy = false ∨ (d.ring.preference key).length = 1) : d.Single key p := by
  have hsub : d.ring.preference key ⊆ d.nodes := Ring.preference_ofNodes_subset d.perMember d.nodes key
  have hreplicas : d.ring.replicas key d.quorum.n = .ok [p] := by
    refine Ring.replicas_eq_ok_iff.mpr ⟨?_, ?_⟩
    · rw [hpreference, hone, List.length_cons]
      omega
    · rw [hpreference, hone]
      rfl
  rw [hpreference] at hsub hstrict
  refine ⟨hsub (List.mem_cons_self ..), hreplicas, hstrict.imp_right fun hlength => ?_, hw, hpatient⟩
  rw [Ring.standIns_of_replicas hreplicas, hpreference, hone]
  exact List.length_eq_zero_iff.mp (Nat.succ.inj hlength)

end Deployment

theorem writes_apart_iff (d : Deployment) (hvalid : d.quorum.validate = .ok ()) (key : Key) :
    (∀ actions : List Action, (∀ a ∈ actions, d.Within a) →
        (d.takings key actions d.start).Pairwise Apart) ↔
      (d.ring.preference key).length < d.quorum.n ∨
        0 < d.quorum.writeTimeout ∧ d.quorum.n = 1 ∧
          (d.quorum.sloppy = false ∨ (d.ring.preference key).length = 1) := by
  obtain ⟨hw, hwn, -, -⟩ := Quorum.validate_eq_ok_iff.mp hvalid
  constructor
  · intro hall
    by_contra hnot
    simp only [not_or, not_and, Nat.not_lt, Bool.not_eq_false] at hnot
    obtain ⟨actions, hwithin, hcollide⟩ := Deployment.exists_collision hw hwn hnot.1 hnot.2
    exact hcollide (hall actions hwithin)
  · rintro (hshort | ⟨hpatient, hone, hstrict⟩) actions -
    · exact Deployment.takings_apart_of_short hshort actions d.start
    · cases hpreference : d.ring.preference key with
      | nil =>
        refine Deployment.takings_apart_of_short ?_ actions d.start
        rw [hpreference, hone]
        exact Nat.zero_lt_one
      | cons p rest =>
        have hsingle := Deployment.single_of_preference hpreference hone (by omega) hpatient hstrict
        exact Deployment.takings_apart_of_single hsingle actions
          (calm_ofNodes ⟨d.ring, d.copies⟩ d.callTimeout d.clock d.nodes)

namespace Turns

def single : Deployment :=
  ⟨⟨1, 1, 1, 5000, 5000, .background, .siblings, false⟩, 1, ["A", "B"], 1, 5000, 0⟩

theorem single_copy_writes_apart : single.quorum.validate = .ok () ∧
    (single.takings "k" [.write "A" (.value [1]) ∅, .write "B" (.value [2]) ∅] single.start).Pairwise
      Apart := by
  have hvalid : single.quorum.validate = .ok () := rfl
  refine ⟨hvalid, (writes_apart_iff single hvalid "k").mpr (.inr ⟨by decide, rfl, .inl rfl⟩) _ ?_⟩
  simp [Deployment.Within, single]

def triple : Deployment :=
  ⟨⟨3, 2, 2, 5000, 5000, .background, .siblings, false⟩, 1, ["A", "B", "C", "D"], 3, 5000, 0⟩

def turns : List Action :=
  [.fail "B", .fail "D", .write "A" (.value [1]) ∅, .fail "C", .recover "B", .recover "D",
    .write "A" (.value [2]) ∅, .recover "C"]

theorem failed_write_hides_acknowledged_write :
    ¬ (triple.takings "k" turns triple.start).Pairwise Apart ∧
    ((triple.coordinator "A").write network "k" (.value [2]) ∅
      (triple.after "k" (turns.take 6) triple.start)).1 = .ok ⟨.ofEntries [("A", 1)], 0, 2, 0⟩ ∧
    ((triple.coordinator "A").read network "k" (triple.after "k" turns triple.start)).1 =
      .ok (.value (.live [1] (.ofEntries [("A", 1)]) 0)) := by
  decide +kernel

end Turns

end QuorumStore
