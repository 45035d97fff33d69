import GmragApi.RecoverySafety

/-! A recovery leaves a workspace alone that somebody can manage. -/

namespace GmragApi.AdminRecovery

open Lowercase (CaseTables asciiTables)
open Members (Env AdminPath OwnerPath ManagementPath memberTuple)
open ProcessPool Transition

/-- What is ahead of a recovery of a workspace that somebody can manage: a row whose check will
succeed. -/
def Stage.Sees (env : Env) (team : Members.State) (workspace : Nat) : Stage → Prop
  | .checkAdmins _ _ todo =>
    (∃ admin ∈ todo, AdminPath team workspace admin) ∨ OwnerPath env team workspace
  | .listOwners _ _ => OwnerPath env team workspace
  | .checkOwners _ tenant todo =>
    ∃ owner ∈ todo, Fga.isTenantOwner team.tuples owner tenant = true
  | stage => stage.rescues = false

section Healthy

variable {env : Env} {tables : CaseTables} {team team' : Members.State} {s t : State} {i : Nat}
  {r : Recovery} {answer : Answer} {workspace : Nat} {stage next : Stage}

theorem Stage.Sees.rescues (h : stage.Sees env team workspace) : stage.rescues = false := by
  cases stage <;> first | rfl | exact h

/-- Paths stay ahead while a recovery holds the lock. -/
theorem Stage.Sees.kept (h : stage.Sees env team workspace)
    (admin : ∀ user, stage.locked = true → AdminPath team workspace user →
      AdminPath team' workspace user)
    (owner : ∀ user tenant, Fga.isTenantOwner team.tuples user tenant = true →
      Fga.isTenantOwner team'.tuples user tenant = true) : stage.Sees env team' workspace := by
  have path : OwnerPath env team workspace → OwnerPath env team' workspace := by
    rintro ⟨tenant, htenant, user, hmem, hcheck⟩
    exact ⟨tenant, htenant, user, hmem, owner user tenant hcheck⟩
  cases stage with
  | checkAdmins user tenant todo =>
    rcases h with ⟨found, hmem, hfound⟩ | hpath
    · exact .inl ⟨found, hmem, admin found rfl hfound⟩
    · exact .inr (path hpath)
  | listOwners user tenant => exact path h
  | checkOwners user tenant todo =>
    obtain ⟨found, hmem, hfound⟩ := h
    exact ⟨found, hmem, owner found tenant hfound⟩
  | _ => exact h

theorem Aids.sees {place : Nat} (h : Aids team team' place) (hs : stage.Sees env team workspace) :
    stage.Sees env team' workspace :=
  hs.kept (fun _ _ hpath => h.adminPath hpath) fun _ _ hcheck => h.isTenantOwner hcheck

/-- A move of the team takes no path from a workspace that a recovery has locked. -/
theorem moves_sees {p : Members.Proc} {reply : Reply} {place : Nat}
    (h : Members.Moves env team i p reply team') (hc : p.Consistent team i)
    (hg : p.Guarded env team) (hi : i ≠ place)
    (hlock : stage.locked = true → team.locks workspace = some place)
    (hs : stage.Sees env team workspace) : stage.Sees env team' workspace := by
  have hp := hg.not_worker
  refine hs.kept (fun user hlocked hpath => ?_) (fun user tenant hcheck => ?_)
  · rcases h.adminPath_kept hp hpath with hkept | ⟨target, role, hstand, rfl, -⟩
    · exact hkept
    · have hheld : p.workspace? = some target.workspace := by
        rcases hstand with rfl | rfl <;> rfl
      exact absurd (Members.lock_unique hc hheld (hlock hlocked)).symm hi
  · simp only [Fga.isTenantOwner, decide_eq_true_eq] at hcheck ⊢
    rcases h.tuple_kept hcheck with hkept | hworker | ⟨target, role, -, heq⟩
    · exact hkept
    · rw [hp] at hworker
      cases hworker
    · cases role <;> cases heq

theorem Turns.sees (h : Turns env team r answer stage next team')
    (ha : Aids team team' r.place) (hk : stage.Knows env team r.workspace)
    (hs : stage.Sees env team r.workspace) (hpath : ManagementPath env team r.workspace) :
    next.Sees env team' r.workspace := by
  cases h with
  | admins hperm =>
    rcases hpath with ⟨user, hu⟩ | ho
    · exact .inl ⟨user, hperm.mem_iff.mpr (mem_workspaceAdmins.mpr hu.1), hu⟩
    · exact .inr ho
  | nextAdmin hcheck =>
    rcases hs with ⟨user, hmem, hu⟩ | ho
    · rcases List.mem_cons.mp hmem with rfl | hmem
      · rw [hu.2] at hcheck
        cases hcheck
      · exact .inl ⟨user, hmem, hu⟩
    · exact .inr ho
  | noAdmin =>
    rcases hs with ⟨user, hmem, -⟩ | ho
    · cases hmem
    · exact ho
  | owners hperm =>
    obtain ⟨tenant, htenant, owner, hmem, hcheck⟩ := hs
    cases Option.some.inj (htenant.symm.trans hk)
    exact ⟨owner, hperm.mem_iff.mpr hmem, hcheck⟩
  | nextOwner hcheck =>
    obtain ⟨owner, hmem, hfound⟩ := hs
    rcases List.mem_cons.mp hmem with rfl | hmem
    · rw [hfound] at hcheck
      cases hcheck
    · exact ⟨owner, hmem, hfound⟩
  | wouldRecover hmode =>
    obtain ⟨owner, hmem, -⟩ := hs
    cases hmem
  | apply hmode =>
    obtain ⟨owner, hmem, -⟩ := hs
    cases hmem
  | @failed _ _ e hl he => cases e <;> first | rfl | exact absurd rfl he
  | @rolledBack _ _ e hl he => cases e <;> first | rfl | exact absurd rfl he
  | _ => first | rfl | exact absurd hs nofun

/-- The tables and the store are the same. -/
def State.SameTables (s t : State) : Prop :=
  t.team.members = s.team.members ∧ t.team.tuples = s.team.tuples ∧
    t.team.outbox = s.team.outbox ∧ t.users = s.users ∧ t.auditEvents = s.auditEvents

theorem Turns.same_tables (h : Turns env team r answer stage next team')
    (hs : stage.rescues = false) : team'.members = team.members ∧ team'.tuples = team.tuples ∧
      team'.outbox = team.outbox := by
  cases h with
  | committed => cases hs
  | written => cases hs
  | enqueued outbox => cases hs
  | _ => exact ⟨rfl, rfl, rfl⟩

structure HealthyInv (env : Env) (workspace : Nat) (s : State) : Prop where
  inv : Inv env s
  path : ManagementPath env s.team workspace
  sees : ∀ (i : Nat) (r : Recovery), s.recoveries[i]? = some r → r.workspace = workspace →
    r.stage.Sees env s.team workspace

theorem step_healthyInv {a : Act} (hi : HealthyInv env workspace s) (hok : faithful s a)
    (h : step env tables s a = some t) : HealthyInv env workspace t := by
  refine ⟨step_inv hi.inv hok h, step_path hi.inv hok h hi.path, ?_⟩
  rcases step_cases h with ⟨b, team, rfl, hteam, rfl⟩ | ⟨_, mode, rfl⟩ |
    ⟨i, r, answer, hr, hturn, -⟩
  · intro i r hr hw
    have hsees := hi.sees i r hr hw
    have hsound := hi.inv.sound i r hr
    rcases step_beside hsound.place hteam with ⟨p, rfl⟩ | rfl | ⟨j, p, reply, hp, hm, hj⟩
    · exact hsees
    · exact hsees
    · exact moves_sees hm (hi.inv.consistent j p hp) (hi.inv.guarded j p hp) hj
        (fun hl => hw ▸ hsound.lock hl) hsees
  · exact forall_push (fun _ => rfl) hi.sees
  · obtain ⟨next, hrec, hturn, -⟩ := hturn
    have hsound := hi.inv.sound i r hr
    have ha := hturn.aids hsound.lock
    rw [hrec]
    refine forall_set hr ?_ fun j other _ hother hw => ha.sees (hi.sees j other hother hw)
    rintro rfl
    exact hturn.sees ha hsound.knows (hi.sees i r hr rfl) hi.path

/-- A recovery leaves a workspace that somebody can manage as it is: none of its steps changes a
table or the store, and it never reports that it has recovered or would recover anything. -/
theorem healthy_workspace_left_alone
    (h : Reach (fun s => Fresh s ∧ ManagementPath env s.team workspace) (step env tables) faithful s)
    (hr : s.recoveries[i]? = some r) (hw : r.workspace = workspace)
    (hs : step env tables s (.advance i answer) = some t) :
    s.SameTables t ∧ ∃ r', t.recoveries[i]? = some r' ∧ r'.stage.rescues = false := by
  have hi : HealthyInv env workspace s := by
    refine h.invariant ?_ fun s t a hi hok hs => step_healthyInv hi hok hs
    rintro s ⟨hfresh, hpath⟩
    refine ⟨fresh_inv hfresh, hpath, fun i r hr => ?_⟩
    rw [hfresh.2] at hr
    cases hr
  subst hw
  have hsees := hi.sees i r hr rfl
  have hsound := hi.inv.sound i r hr
  simp only [step, hr] at hs
  obtain ⟨next, hrec, hturn, hsame⟩ := advance_turned hs
  obtain ⟨hmembers, htuples, houtbox⟩ := hturn.same_tables hsees.rescues
  obtain ⟨husers, haudit⟩ := hsame hsees.rescues
  have hnext := hturn.sees (hturn.aids hsound.lock) hsound.knows hsees hi.path
  refine ⟨⟨hmembers, htuples, houtbox, husers, haudit⟩, { r with stage := next }, ?_,
    hnext.rescues⟩
  rw [hrec]
  exact List.getElem?_set_self (List.getElem?_eq_some_iff.mp hr).1

end Healthy

/-- The recovery of a workspace whose member 1 is an admin. -/
def needless : List Act :=
  [.recover 0 .apply, .advance 0 (.resolved (some (some ⟨5, some ['e']⟩))),
    .advance 0 (.reply (.sql true)), .advance 0 (.reply (.listed [1]))]

def oneAdmin : State where
  team := { Members.twoAdmins with
    members := AList.singleton (0, 1) .admin
    tuples := {memberTuple 0 1 .admin} }
  users := fun _ => none
  auditEvents := []
  recoveries := []

def checking : State := (run (step Members.sampleEnv asciiTables) oneAdmin needless).getD oneAdmin

def confirmed : State :=
  (step Members.sampleEnv asciiTables checking (.advance 0 (.reply (.checked (.ok true))))).getD
    checking

theorem healthy_workspace_left_alone_needless : checking.SameTables confirmed := by
  have hrun : run (step Members.sampleEnv asciiTables) oneAdmin needless = some checking := rfl
  have hpath : ManagementPath Members.sampleEnv oneAdmin.team 0 := .inl ⟨1, rfl, by decide⟩
  have hfresh : Fresh oneAdmin := ⟨⟨rfl, fun _ => rfl⟩, rfl⟩
  have hmeets : Meets (step Members.sampleEnv asciiTables) faithful oneAdmin needless :=
    meets_of_smooth (by decide)
  have hstart : Fresh oneAdmin ∧ ManagementPath Members.sampleEnv oneAdmin.team 0 :=
    ⟨hfresh, hpath⟩
  have hreach : Reach (fun s => Fresh s ∧ ManagementPath Members.sampleEnv s.team 0)
      (step Members.sampleEnv asciiTables) faithful checking :=
    Reach.of_run (.start hstart) hmeets hrun
  have hr : checking.recoveries[0]? = some ⟨0, .apply, 0, .checkAdmins ⟨5, ['e']⟩ 0 [1]⟩ := rfl
  have hs : step Members.sampleEnv asciiTables checking
      (.advance 0 (.reply (.checked (.ok true)))) = some confirmed := rfl
  exact (healthy_workspace_left_alone hreach hr rfl hs).1

end GmragApi.AdminRecovery
