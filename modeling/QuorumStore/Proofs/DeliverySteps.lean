import Mathlib.Logic.Relation
import QuorumStore.HintDelivery

namespace QuorumStore.HintDelivery

inductive Stage where
  | choosing (targets : List NodeId) (budget : Nat)
  | sending (target : NodeId) (hints : List (Key × Hint)) (budget : Nat) (targets : List NodeId)
  | settling (target : NodeId) (key : Key) (hint : Hint) (hints : List (Key × Hint)) (budget : Nat)
      (targets : List NodeId)
  | failing (target : NodeId) (key : Key) (hint : Hint) (budget : Nat) (targets : List NodeId)
  | dropping (target : NodeId) (key : Key) (hint : Hint) (budget : Nat) (targets : List NodeId)
  | done

variable {σ : Type} (net : Network σ) (access : HintAccess σ) (settings : DeliverySettings)

def step : Stage × DeliveryReport × σ → Stage × DeliveryReport × σ
  | (.choosing [] _, report, s) => (.done, report, s)
  | (.choosing (target :: targets) budget, report, s) =>
      (.sending target ((access.table s).hintsFor target) budget targets, report, s)
  | (.sending _ [] budget targets, report, s) => (.choosing targets budget, report, s)
  | (.sending _ (_ :: _) 0 targets, report, s) => (.choosing targets 0, report, s)
  | (.sending target ((key, h) :: hints) (budget + 1) targets, report, s) =>
      let (reply, s) := net.send target (.handoff key h.versions) s
      match reply.answer with
      | .ok _ => (.settling target key h hints budget targets, report, s)
      | .error _ => (.failing target key h budget targets, report, s)
  | (.settling target key h hints budget targets, report, s) =>
      (.sending target hints budget targets, { report with delivered := report.delivered + 1 },
        net.count .hintsDelivered 1 (settle access target key h.versions s))
  | (.failing target key h budget targets, report, s) =>
      let (attempts, s) := countFailure access target key h s
      let report := { report with failed := report.failed + 1 }
      if settings.maxAttempts.any (fun most => decide (most ≤ attempts)) then
        (.dropping target key h budget targets, report, s)
      else (.choosing targets budget, report, s)
  | (.dropping target key h budget targets, report, s) =>
      (.choosing targets budget, { report with dropped := report.dropped + 1 },
        net.count .hintsDropped 1 (settle access target key h.versions s))
  | (.done, report, s) => (.done, report, s)

inductive Passes : Stage → σ → Stage → σ → Prop where
  | finish (budget : Nat) (s : σ) : Passes (.choosing [] budget) s .done s
  | lookUp (target : NodeId) (targets : List NodeId) (budget : Nat) (s : σ) :
      Passes (.choosing (target :: targets) budget) s
        (.sending target ((access.table s).hintsFor target) budget targets) s
  | turn (target : NodeId) (budget : Nat) (targets : List NodeId) (s : σ) :
      Passes (.sending target [] budget targets) s (.choosing targets budget) s
  | spent (target : NodeId) (hint : Key × Hint) (hints : List (Key × Hint)) (targets : List NodeId) (s : σ) :
      Passes (.sending target (hint :: hints) 0 targets) s (.choosing targets 0) s
  | taken {target : NodeId} {key : Key} {h : Hint} {s : σ} {response : Response}
      (hints : List (Key × Hint)) (budget : Nat) (targets : List NodeId)
      (hanswer : (net.send target (.handoff key h.versions) s).1.answer = .ok response) :
      Passes (.sending target ((key, h) :: hints) (budget + 1) targets) s
        (.settling target key h hints budget targets) (net.send target (.handoff key h.versions) s).2
  | refused {target : NodeId} {key : Key} {h : Hint} {s : σ} {error : CallError}
      (hints : List (Key × Hint)) (budget : Nat) (targets : List NodeId)
      (hanswer : (net.send target (.handoff key h.versions) s).1.answer = .error error) :
      Passes (.sending target ((key, h) :: hints) (budget + 1) targets) s
        (.failing target key h budget targets) (net.send target (.handoff key h.versions) s).2
  | settled (target : NodeId) (key : Key) (h : Hint) (hints : List (Key × Hint)) (budget : Nat)
      (targets : List NodeId) (s : σ) :
      Passes (.settling target key h hints budget targets) s (.sending target hints budget targets)
        (net.count .hintsDelivered 1 (settle access target key h.versions s))
  | kept (target : NodeId) (key : Key) (h : Hint) (budget : Nat) (targets : List NodeId) (s : σ) :
      Passes (.failing target key h budget targets) s (.choosing targets budget)
        (countFailure access target key h s).2
  | expired (target : NodeId) (key : Key) (h : Hint) (budget : Nat) (targets : List NodeId) (s : σ)
      (hlimit : settings.maxAttempts.isSome = true) :
      Passes (.failing target key h budget targets) s (.dropping target key h budget targets)
        (countFailure access target key h s).2
  | dropped (target : NodeId) (key : Key) (h : Hint) (budget : Nat) (targets : List NodeId) (s : σ) :
      Passes (.dropping target key h budget targets) s (.choosing targets budget)
        (net.count .hintsDropped 1 (settle access target key h.versions s))
  | rest (s : σ) : Passes .done s .done s

def Steps : Stage × DeliveryReport × σ → Stage × DeliveryReport × σ → Prop :=
  Relation.ReflTransGen fun x y => step net access settings x = y

variable {net access settings}

theorem passes_step (stage : Stage) (report : DeliveryReport) (s : σ) :
    let next := step net access settings (stage, report, s)
    Passes net access settings stage s next.1 next.2.2 := by
  intro next
  cases stage with
  | choosing targets budget =>
    cases targets with
    | nil => exact .finish budget s
    | cons target targets => exact .lookUp target targets budget s
  | sending target hints budget targets =>
    cases hints with
    | nil => exact .turn target budget targets s
    | cons hint hints =>
      obtain ⟨key, h⟩ := hint
      cases budget with
      | zero => exact .spent target (key, h) hints targets s
      | succ budget =>
        simp only [next, step]
        split
        · rename_i response hanswer
          exact .taken hints budget targets hanswer
        · rename_i error hanswer
          exact .refused hints budget targets hanswer
  | settling target key h hints budget targets => exact .settled target key h hints budget targets s
  | failing target key h budget targets =>
    simp only [next, step]
    split
    · rename_i hlimit
      refine .expired target key h budget targets s ?_
      obtain ⟨most, hmost, -⟩ := (Option.any_eq_true _ _).mp hlimit
      rw [hmost]
      rfl
    · exact .kept target key h budget targets s
  | dropping target key h budget targets => exact .dropped target key h budget targets s
  | done => exact .rest s

theorem Steps.head {x y z : Stage × DeliveryReport × σ} (h : step net access settings x = y)
    (h' : Steps net access settings y z) : Steps net access settings x z :=
  Relation.ReflTransGen.head h h'

theorem steps_deliverTo (target : NodeId) (targets : List NodeId) (hints : List (Key × Hint))
    (budget : Nat) (report : DeliveryReport) (s : σ) :
    let r := deliverTo net access settings target hints budget report s
    Steps net access settings (.sending target hints budget targets, report, s)
      (.choosing targets r.1, r.2.1, r.2.2) := by
  induction hints generalizing budget report s with
  | nil => exact .head rfl .refl
  | cons hint hints ih =>
    obtain ⟨key, h⟩ := hint
    cases budget with
    | zero => exact .head rfl .refl
    | succ budget =>
      cases hsend : net.send target (.handoff key h.versions) s with
      | mk reply s' =>
      cases hanswer : reply.answer with
      | ok response =>
        simp only [deliverTo, hsend, hanswer]
        refine .head (y := (.settling target key h hints budget targets, report, s')) ?_ (.head rfl (ih ..))
        simp only [step, hsend, hanswer]
      | error e =>
        simp only [deliverTo, hsend, hanswer]
        refine .head (y := (.failing target key h budget targets, report, s')) ?_ ?_
        · simp only [step, hsend, hanswer]
        · by_cases hdrop : settings.maxAttempts.any
              (fun most => decide (most ≤ (countFailure access target key h s').1)) = true
          · rw [if_pos hdrop]
            refine .head (if_pos hdrop) (.head rfl .refl)
          · rw [if_neg hdrop]
            exact .head (if_neg hdrop) .refl

theorem steps_deliverAll (targets : List NodeId) (budget : Nat) (report : DeliveryReport) (s : σ) :
    Steps net access settings (.choosing targets budget, report, s)
      (.done, deliverAll net access settings targets budget report s) := by
  induction targets generalizing budget report s with
  | nil => exact .head rfl .refl
  | cons target targets ih => exact .head rfl ((steps_deliverTo ..).trans (ih ..))

theorem steps_cycle (s : σ) :
    Steps net access settings (.choosing (access.table s).targets settings.maxHints, .none, s)
      (.done, cycle net access settings s) :=
  steps_deliverAll ..

end QuorumStore.HintDelivery
