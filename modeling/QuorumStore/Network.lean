import QuorumStore.Meter

namespace QuorumStore

universe u

structure Network (σ : Type) where
  -- a call takes effect here or is merely noted, to take effect later
  send : NodeId → Request → σ → Reply × σ
  now : σ → UInt64
  count : Meter → Nat → σ → σ

structure InFlight (α : Type u) where
  due : Nat
  answer : α

namespace InFlight

variable {α : Type u}

def earliest : List (InFlight α) → Option (InFlight α × List (InFlight α))
  | [] => none
  | c :: cs =>
      match earliest cs with
      | none => some (c, [])
      | some (d, rest) => if c.due ≤ d.due then some (c, cs) else some (d, c :: rest)

theorem earliest_eq_none {cs : List (InFlight α)} : earliest cs = none ↔ cs = [] := by
  cases cs with
  | nil => simp [earliest]
  | cons c cs =>
      simp only [earliest]
      split
      · simp
      · split <;> simp

theorem earliest_perm {cs rest : List (InFlight α)} {c : InFlight α}
    (h : earliest cs = some (c, rest)) : (c :: rest).Perm cs := by
  induction cs generalizing c rest with
  | nil => simp [earliest] at h
  | cons d ds ih =>
      simp only [earliest] at h
      split at h
      · rename_i hn
        obtain ⟨rfl, rfl⟩ : d = c ∧ ([] : List (InFlight α)) = rest := by simpa using h
        rw [earliest_eq_none.mp hn]
      · rename_i e rest' he
        split at h
        · obtain ⟨rfl, rfl⟩ : d = c ∧ ds = rest := by simpa using h
          exact List.Perm.refl _
        · obtain ⟨rfl, rfl⟩ : e = c ∧ d :: rest' = rest := by simpa using h
          exact (List.Perm.swap d e rest').trans (List.Perm.cons d (ih he))

end InFlight

end QuorumStore
