import GmragApi.MemberMoves

/-! The lock on a workspace row: who is inside a transaction, and what stays as it was read. -/

namespace GmragApi.Members

open ProcessPool

/-- A process inside its transaction owns the lock, and the row is still as it read it. -/
def Proc.Consistent (s : State) (i : Nat) (p : Proc) : Prop :=
  (∀ w, p.workspace? = some w → s.locks w = some i) ∧
  ∀ target role, p.held? = some (target, role) →
    s.role target.workspace target.user = some role ∧ target.change ≠ .setRole role

def Inv (s : State) : Prop := ∀ (i : Nat) (p : Proc), s.procs[i]? = some p → p.Consistent s i

theorem Proc.held_workspace {p : Proc} {target : Target} {role : Role}
    (h : p.held? = some (target, role)) : p.workspace? = some target.workspace := by
  cases p <;> cases h <;> rfl

theorem Proc.consistent_of_outside {s : State} {i : Nat} {p : Proc} (h : p.workspace? = none) :
    p.Consistent s i := by
  refine ⟨fun w hw => ?_, fun target role hheld => ?_⟩
  · rw [h] at hw
    cases hw
  · have hw := Proc.held_workspace hheld
    rw [h] at hw
    cases hw

theorem afterGuard_held (target : Target) (role : Role) :
    (afterGuard target role).held? = some (target, role) := by
  unfold afterGuard
  split <;> rfl

theorem afterRead_held (target : Target) (tenant : Nat) (role : Role) :
    (afterRead target tenant role).held? = some (target, role) := by
  unfold afterRead
  split
  · rfl
  · exact afterGuard_held target role

theorem afterRevoke_held (target : Target) (role : Role) :
    (afterRevoke target role).held? = some (target, role) := by
  unfold afterRevoke
  split <;> rfl

section Invariant

variable {env : Env} {s t : State} {i : Nat} {p : Proc} {reply : Reply}

/-- A process that still holds `target`'s row as it read it. -/
theorem Proc.consistent_of_held {target : Target} {role : Role}
    (hheld : p.held? = some (target, role)) (hlock : s.locks target.workspace = some i)
    (hrow : s.role target.workspace target.user = some role) (hne : target.change ≠ .setRole role) :
    p.Consistent s i := by
  refine ⟨fun w hw => ?_, fun other r hother => ?_⟩
  · rw [Proc.held_workspace hheld] at hw
    cases hw
    exact hlock
  · rw [hheld] at hother
    cases hother
    exact ⟨hrow, hne⟩

theorem Next.consistent {q : Proc} (h : Next env s p q) (hc : p.Consistent s i) :
    q.Consistent s i := by
  have carry : ∀ target role, p.held? = some (target, role) → q.held? = some (target, role) →
      q.Consistent s i := by
    intro target role hpheld hqheld
    obtain ⟨hrow, hne⟩ := hc.2 target role hpheld
    exact Proc.consistent_of_held hqheld (hc.1 _ (Proc.held_workspace hpheld)) hrow hne
  cases h with
  | @read target tenant role hrow hne =>
    exact Proc.consistent_of_held (afterRead_held target tenant role) (hc.1 _ rfl) hrow hne
  | @adminPath target _ role => exact carry target role rfl (afterGuard_held target role)
  | @ownerPath target _ role => exact carry target role rfl (afterGuard_held target role)
  | _ => exact carry _ _ rfl rfl

/-- The process that moved is consistent where it stands now. -/
theorem Moves.self_consistent (h : Moves env s i p reply t) (hc : p.Consistent s i) :
    ∃ q, t.procs = s.procs.set i q ∧ q.Consistent t i := by
  cases h with
  | quiet outbox hp hq => exact ⟨_, rfl, Proc.consistent_of_outside hq.1⟩
  | insert hfree hnew => exact ⟨_, rfl, Proc.consistent_of_outside rfl⟩
  | write hk hq => exact ⟨_, rfl, Proc.consistent_of_outside hq.1⟩
  | drop k hw hq => exact ⟨_, rfl, Proc.consistent_of_outside hq⟩
  | lock hfree htenant =>
    refine ⟨_, rfl, fun w hw => ?_, nofun⟩
    cases hw
    exact Function.update_self _ _ _
  | leave hw hq => exact ⟨_, rfl, Proc.consistent_of_outside hq.1⟩
  | next hn => exact ⟨_, rfl, hn.consistent hc⟩
  | @revoke target role =>
    obtain ⟨hrow, hne⟩ := hc.2 target role rfl
    exact ⟨_, rfl, Proc.consistent_of_held (afterRevoke_held target role) (hc.1 _ rfl) hrow hne⟩
  | @skipRevoke target role e hchange hm =>
    obtain ⟨hrow, hne⟩ := hc.2 target role rfl
    exact ⟨_, rfl, Proc.consistent_of_held rfl (hc.1 _ rfl) hrow hne⟩
  | @commit target role =>
    obtain ⟨q, hq, -, hprocs⟩ := commitStep_procs s i target
    exact ⟨q, hprocs, Proc.consistent_of_outside hq⟩

theorem lock_unique {w j : Nat} (hc : p.Consistent s i) (hp : p.workspace? = some w)
    (hj : s.locks w = some j) : j = i := by
  rw [hc.1 w hp] at hj
  exact (Option.some.inj hj).symm

theorem Moves.other_consistent (h : Moves env s i p reply t) (hc : p.Consistent s i) {j : Nat}
    {q : Proc} (hj : j ≠ i) (hq : q.Consistent s j) : q.Consistent t j := by
  refine ⟨fun w hw => h.locks_other hc.1 hj (hq.1 w hw), fun target role hheld => ?_⟩
  obtain ⟨hrow, hne⟩ := hq.2 target role hheld
  rcases h.role_kept hrow with hkept | ⟨other, r, rfl, hw, -⟩
  · exact ⟨hkept, hne⟩
  · have hlock := hq.1 _ (Proc.held_workspace hheld)
    exact absurd (lock_unique hc (hw ▸ rfl) hlock) hj

theorem step_inv {a : Act} (hi : Inv s) (h : step env s a = some t) : Inv t := by
  rcases step_cases h with ⟨p, rfl, hp, -⟩ | ⟨i, p, reply, hp, hm, -⟩
  · exact forall_push (Proc.consistent_of_outside hp) fun j q hq => hi j q hq
  · obtain ⟨q, hprocs, hself⟩ := hm.self_consistent (hi i p hp)
    unfold Inv
    rw [hprocs]
    exact forall_set hp hself fun j r hj hr => hm.other_consistent (hi i p hp) hj (hi j r hr)

end Invariant

end GmragApi.Members
