import Mathlib.Data.List.Forall2
import Mathlib.Data.List.Perm.Basic
import QuorumStore.Proofs.ReadLedger
import QuorumStore.Proofs.Underway
import QuorumStore.Proofs.WriteLedger

namespace QuorumStore

open Cluster

section Paired

variable {α β : Type} {R : α → β → Prop} {as : List α} {bs : List β} {k : Nat} {a : α} {b : β}

theorem exists_paired (h : List.Forall₂ R as bs) (hb : bs[k]? = some b) :
    ∃ a, as[k]? = some a ∧ R a b := by
  induction h generalizing k with
  | nil => cases hb
  | cons hab _ ih =>
    cases k with
    | zero => exact ⟨_, rfl, Option.some.inj hb ▸ hab⟩
    | succ k => exact ih hb

theorem paired_set (h : List.Forall₂ R as bs) (ha : as[k]? = some a) (hab : R a b) :
    List.Forall₂ R as (bs.set k b) := by
  induction h generalizing k with
  | nil => cases ha
  | cons hfirst hrest ih =>
    cases k with
    | zero => exact .cons (Option.some.inj ha ▸ hab) hrest
    | succ k => exact .cons hfirst (ih ha)

theorem paired_eraseIdx (h : List.Forall₂ R as bs) (k : Nat) :
    List.Forall₂ R (as.eraseIdx k) (bs.eraseIdx k) := by
  rw [List.eraseIdx_eq_take_drop_succ, List.eraseIdx_eq_take_drop_succ]
  exact List.rel_append (List.forall₂_take k h) (List.forall₂_drop (k + 1) h)

theorem cons_eraseIdx_perm (ha : as[k]? = some a) : (a :: as.eraseIdx k).Perm as := by
  obtain ⟨hk, rfl⟩ := List.getElem?_eq_some_iff.mp ha
  exact List.getElem_cons_eraseIdx_perm hk

end Paired

variable {e : Environment} {sloppy : Bool} {key : Key} {v : Version} {quorum : Nat}
  {I : Cluster → Prop} {up : NodeId → Bool} {replicas standIns : List NodeId}

namespace ReadRound

variable {good : NodeId → List Version → Prop} {u : Underway ReadRound}

structure Gathers (e : Environment) (key : Key) (I : Cluster → Prop) (up : NodeId → Bool)
    (good : NodeId → List Version → Prop) : Prop where
  keeps : e.Keeps I
  good : ∀ n c vs, I c → (send n (.get key) c).1.answer = .ok (.versions vs) → good n vs
  up : ∀ n c, I c → up n = true → ∃ vs, (send n (.get key) c).1.answer = .ok (.versions vs)

structure Posted (key : Key) (up : NodeId → Bool) (good : NodeId → List Version → Prop)
    (call : InFlight ReadAnswer) (post : Post) : Prop where
  node : post.node = call.answer.node
  request : post.request = .get key
  good : ∀ vs, post.answer = some (.ok (.versions vs)) → good call.answer.node vs
  up : ∀ answer, post.answer = some answer → up call.answer.node = true →
    ∃ vs, answer = .ok (.versions vs)

theorem posted_ask (isStandIn : Bool) (time : Nat) (n : NodeId) :
    Posted key up good ⟨time, n, isStandIn, .error (.timeout n)⟩ ⟨n, .get key, none⟩ :=
  ⟨rfl, rfl, nofun, nofun⟩

structure Proceeds (sloppy : Bool) (key : Key) (quorum : Nat) (I : Cluster → Prop)
    (up : NodeId → Bool) (good : NodeId → List Version → Prop) (replicas standIns : List NodeId)
    (u : Underway ReadRound) : Prop where
  cluster : I u.cluster
  posted : List.Forall₂ (Posted key up good) u.round.pending u.posts
  ledger : ∃ asked heard, Ledger sloppy quorum up good replicas standIns asked heard u.round

theorem proceeds_begun (sloppy : Bool) (quorum : Nat) (hall : (replicas ++ standIns).Nodup)
    {c : Cluster} (hc : I c) :
    Proceeds sloppy key quorum I up good replicas standIns (begun key replicas standIns c) := by
  refine ⟨hc, ?_, [], [], .begun (map_node_askAll replicas []) (List.nodup_append.mp hall).1⟩
  simp only [begun, askAll_posting, List.nil_append]
  exact List.forall₂_map_left_iff.mpr (List.forall₂_map_right_iff.mpr
    (List.forall₂_same.mpr fun n _ => posted_ask false 0 n))

namespace Proceeds

theorem hear (hall : (replicas ++ standIns).Nodup) {k : Nat} {n : NodeId} {request : Request}
    {answer : Except CallError Response} (hpost : u.posts[k]? = some ⟨n, request, some answer⟩)
    (h : Proceeds sloppy key quorum I up good replicas standIns u) :
    Proceeds sloppy key quorum I up good replicas standIns
      { u with
        round := (listening sloppy key quorum k answer (u.round, u.posts)).1
        posts := (listening sloppy key quorum k answer (u.round, u.posts)).2 } := by
  obtain ⟨call, hcall, hposted⟩ := exists_paired h.posted hpost
  obtain ⟨asked, heard, hl⟩ := h.ledger
  have hperm := cons_eraseIdx_perm hcall
  have hrest := paired_eraseIdx h.posted k
  simp only [listening, hcall]
  split
  · exact h
  · rw [receive]
    dsimp only
    split
    · rename_i vs hvs
      have hgood := hposted.good vs (congrArg some (versions_of_bind_eq_ok hvs))
      exact ⟨h.cluster, by rwa [pending_hear], asked, _, hl.hear hperm hgood⟩
    · rename_i error herror
      have hdown : up call.answer.node = false := by
        refine Bool.eq_false_iff.mpr fun hup => ?_
        obtain ⟨vs, rfl⟩ := hposted.up answer rfl hup
        cases herror
      have hdrop := hl.drop hperm hdown
      rw [replace]
      split
      · exact ⟨h.cluster, hrest, asked, heard, hdrop⟩
      · rename_i m ms hms
        split
        · rename_i hask
          simp only [Bool.and_eq_true, decide_eq_true_eq] at hask
          simp only [ask_posting]
          exact ⟨h.cluster, List.rel_append hrest (.cons (posted_ask true _ m) .nil), asked ++ [m],
            heard, hdrop.ask hall rfl hms hask.1 hask.2⟩
        · exact ⟨h.cluster, hrest, asked, heard, hdrop⟩

theorem advance (hg : Gathers e key I up good) (hall : (replicas ++ standIns).Nodup) (m : Move e)
    (h : Proceeds sloppy key quorum I up good replicas standIns u) :
    Proceeds sloppy key quorum I up good replicas standIns
      (u.advance (listening sloppy key quorum) m) := by
  refine Underway.advance_cases
    (M := Proceeds sloppy key quorum I up good replicas standIns) h ?_ ?_ ?_ m
  · exact fun i => ⟨hg.keeps i.val i.property _ h.cluster, h.posted, h.ledger⟩
  · intro k n request hpost
    obtain ⟨call, hcall, hposted⟩ := exists_paired h.posted hpost
    obtain ⟨hn, hrequest⟩ : n = call.answer.node ∧ request = .get key :=
      ⟨hposted.node, hposted.request⟩
    subst hn hrequest
    refine ⟨hg.keeps (.call _ _) (e.calls _ _) _ h.cluster, ?_, h.ledger⟩
    refine paired_set h.posted hcall ⟨rfl, rfl, fun vs hvs => ?_, fun answer hanswer hup => ?_⟩
    · exact hg.good _ _ vs h.cluster (Option.some.inj hvs)
    · obtain rfl := Option.some.inj hanswer
      exact hg.up _ _ h.cluster hup
  · exact fun k n request answer hpost => hear hall hpost h

theorem play (hg : Gathers e key I up good) (hall : (replicas ++ standIns).Nodup)
    (moves : List (Move e)) (h : Proceeds sloppy key quorum I up good replicas standIns u) :
    Proceeds sloppy key quorum I up good replicas standIns
      (u.play (listening sloppy key quorum) moves) :=
  Underway.play_induction (M := Proceeds sloppy key quorum I up good replicas standIns)
    (fun _ m h => advance hg hall m h) moves h

end Proceeds

end ReadRound

namespace WriteRound

variable {holds : NodeId → Cluster → Prop} {u : Underway WriteRound}

def Settled (up : NodeId → Bool) (holds : NodeId → Cluster → Prop) (n : NodeId) (c : Cluster) :
    Except CallError Response → Prop
  | .ok _ => holds n c
  | .error _ => up n = false

theorem Settled.imp {n : NodeId} {c d : Cluster} (hd : holds n c → holds n d)
    {answer : Except CallError Response} (h : Settled up holds n c answer) :
    Settled up holds n d answer := by
  cases answer with
  | ok response => exact hd h
  | error error => exact h

structure Stores (e : Environment) (sloppy : Bool) (key : Key) (v : Version) (I : Cluster → Prop)
    (up : NodeId → Bool) (holds : NodeId → Cluster → Prop) : Prop where
  keeps : e.Keeps I
  stays : ∀ n, e.Keeps (fun c => I c ∧ holds n c)
  put : ∀ n c, I c →
    Settled up holds n (send n (.put key v) c).2 (send n (.put key v) c).1.answer
  hint : ∀ n target c, I c → sloppy = true → up target = false →
    Settled up holds n (send n (.putHinted target key v) c).2
      (send n (.putHinted target key v) c).1.answer

def WriteAnswer.request (key : Key) (v : Version) (a : WriteAnswer) : Request :=
  if a.standIn.isSome then .putHinted a.target key v else .put key v

structure Posted (sloppy : Bool) (key : Key) (v : Version) (up : NodeId → Bool)
    (holds : NodeId → Cluster → Prop) (c : Cluster) (call : InFlight WriteAnswer) (post : Post) :
    Prop where
  node : post.node = call.answer.route.receiver
  request : post.request = WriteAnswer.request key v call.answer
  around : call.answer.standIn.isSome = true → sloppy = true ∧ up call.answer.target = false
  settled : ∀ answer, post.answer = some answer →
    Settled up holds call.answer.route.receiver c answer

theorem posted_put (time : Nat) (n : NodeId) (c : Cluster) :
    Posted sloppy key v up holds c ⟨time, n, none, .error (.timeout n)⟩ ⟨n, .put key v, none⟩ :=
  ⟨rfl, rfl, nofun, nofun⟩

theorem posted_hint (time : Nat) {target : NodeId} (n : NodeId) (c : Cluster) (hsloppy : sloppy = true)
    (hdown : up target = false) :
    Posted sloppy key v up holds c ⟨time, target, some n, .error (.timeout n)⟩
      ⟨n, .putHinted target key v, none⟩ :=
  ⟨rfl, rfl, fun _ => ⟨hsloppy, hdown⟩, nofun⟩

structure Proceeds (sloppy : Bool) (key : Key) (v : Version) (I : Cluster → Prop)
    (up : NodeId → Bool) (holds : NodeId → Cluster → Prop) (replicas standIns : List NodeId)
    (u : Underway WriteRound) : Prop where
  cluster : I u.cluster
  posted : List.Forall₂ (Posted sloppy key v up holds u.cluster) u.round.pending u.posts
  ledger : ∃ asked acked, Ledger sloppy up replicas standIns asked acked u.round ∧
    ∀ r ∈ acked, holds r.receiver u.cluster

theorem proceeds_begun (hall : (replicas ++ standIns).Nodup) {c : Cluster} (hc : I c) :
    Proceeds sloppy key v I up holds replicas standIns (begun key v replicas standIns c) := by
  refine ⟨hc, ?_, [], [], .begun ?_ (List.nodup_append.mp hall).1, (fun _ h => nomatch h)⟩
  · simp only [begun, writeAll_posting, List.nil_append]
    exact List.forall₂_map_left_iff.mpr (List.forall₂_map_right_iff.mpr
      (List.forall₂_same.mpr fun n _ => posted_put 0 n c))
  · rw [writeAll_posting, List.map_map]
    rfl

namespace Proceeds

theorem hear (hall : (replicas ++ standIns).Nodup) {w : Option Nat} {k : Nat} {n : NodeId}
    {request : Request} {answer : Except CallError Response}
    (hpost : u.posts[k]? = some ⟨n, request, some answer⟩)
    (h : Proceeds sloppy key v I up holds replicas standIns u) :
    Proceeds sloppy key v I up holds replicas standIns
      { u with
        round := (listening sloppy key v w k answer (u.round, u.posts)).1
        posts := (listening sloppy key v w k answer (u.round, u.posts)).2 } := by
  obtain ⟨call, hcall, hposted⟩ := exists_paired h.posted hpost
  obtain ⟨asked, acked, hl, hheld⟩ := h.ledger
  have hperm := cons_eraseIdx_perm hcall
  have hrest := paired_eraseIdx h.posted k
  have hsettled := hposted.settled answer rfl
  simp only [listening, hcall]
  split
  · exact h
  · cases answer with
    | ok response =>
      refine ⟨h.cluster, hrest, asked, call.answer.route :: acked, hl.acknowledge hperm, ?_⟩
      exact List.forall_mem_cons.mpr ⟨hsettled, hheld⟩
    | error error =>
      obtain ⟨hdrop, hdown, htarget, hfree⟩ := hl.drop hperm hsettled
      simp only [receive, Except.map, replace]
      split
      · exact ⟨h.cluster, hrest, asked, acked, hdrop, hheld⟩
      · rename_i m ms hms
        split
        · rename_i hsloppy
          simp only [write_posting_hint]
          exact ⟨h.cluster,
            List.rel_append hrest (.cons (posted_hint _ m u.cluster hsloppy hdown) .nil),
            asked ++ [m], acked, hdrop.substitute hall rfl hms hsloppy hdown htarget hfree, hheld⟩
        · exact ⟨h.cluster, hrest, asked, acked, hdrop, hheld⟩

theorem moved (hs : Stores e sloppy key v I up holds) {i : Incident} (hi : e.allows i)
    (h : Proceeds sloppy key v I up holds replicas standIns u) :
    Proceeds sloppy key v I up holds replicas standIns { u with cluster := i.befall u.cluster } := by
  have hstays : ∀ n, holds n u.cluster → holds n (i.befall u.cluster) :=
    fun n hn => (hs.stays n i hi _ ⟨h.cluster, hn⟩).2
  obtain ⟨asked, acked, hl, hheld⟩ := h.ledger
  refine ⟨hs.keeps i hi _ h.cluster, ?_, asked, acked, hl, fun r hr => hstays _ (hheld r hr)⟩
  exact h.posted.imp fun call post hp =>
    ⟨hp.node, hp.request, hp.around, fun answer ha => (hp.settled answer ha).imp (hstays _)⟩

theorem advance (hs : Stores e sloppy key v I up holds) (hall : (replicas ++ standIns).Nodup)
    {w : Option Nat} (m : Move e) (h : Proceeds sloppy key v I up holds replicas standIns u) :
    Proceeds sloppy key v I up holds replicas standIns (u.advance (listening sloppy key v w) m) := by
  refine Underway.advance_cases (M := Proceeds sloppy key v I up holds replicas standIns) h ?_ ?_ ?_ m
  · exact fun i => h.moved hs i.property
  · intro k n request hpost
    obtain ⟨call, hcall, hposted⟩ := exists_paired h.posted hpost
    obtain ⟨hn, hrequest⟩ : n = call.answer.route.receiver ∧
      request = WriteAnswer.request key v call.answer := ⟨hposted.node, hposted.request⟩
    have hlater := h.moved hs (e.calls n request)
    refine ⟨hlater.cluster, paired_set hlater.posted hcall
      ⟨hn, hrequest, hposted.around, fun answer hanswer => ?_⟩, hlater.ledger⟩
    obtain rfl := Option.some.inj hanswer
    rw [hrequest, WriteAnswer.request, ← hn]
    split
    · rename_i hstandIn
      obtain ⟨hsloppy, hdown⟩ := hposted.around hstandIn
      exact hs.hint n _ _ h.cluster hsloppy hdown
    · exact hs.put n _ h.cluster
  · exact fun k n request answer hpost => hear hall hpost h

theorem play (hs : Stores e sloppy key v I up holds) (hall : (replicas ++ standIns).Nodup)
    {w : Option Nat} (moves : List (Move e))
    (h : Proceeds sloppy key v I up holds replicas standIns u) :
    Proceeds sloppy key v I up holds replicas standIns (u.play (listening sloppy key v w) moves) :=
  Underway.play_induction (M := Proceeds sloppy key v I up holds replicas standIns)
    (fun _ m h => advance hs hall m h) moves h

end Proceeds

end WriteRound

end QuorumStore
