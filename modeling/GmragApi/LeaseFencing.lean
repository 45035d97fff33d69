import GmragApi.IngestionInvariant

/-! A worker whose job was claimed again can no longer change it, and no claim ends twice. -/

namespace GmragApi.Ingestion

open Transition

/-- The job was claimed again after `claim`: `claims` lists the latest claim first. -/
def Superseded (s : State) (claim : ClaimedJob) : Prop :=
  ∃ worker later earlier, s.claims = later ++ (claim, worker) :: earlier ∧
    ∃ p ∈ later, p.1.id = claim.id

/-- The steps of the calls that a worker makes with `claim`. -/
def CallWith (s : State) (claim : ClaimedJob) : Act → Prop
  | .extendLease job _ _ => job = claim
  | .setStage job _ _ _ => job = claim
  | .beginComplete job _ _ => job = claim
  | .beginFailure job _ _ _ => job = claim
  | .commit id => ∃ tx, s.locks id = some tx ∧ tx.job = claim
  | .rollback id => ∃ tx, s.locks id = some tx ∧ tx.job = claim
  | _ => False

section Fencing

variable {config : WorkerConfig} {s t : State} {claim : ClaimedJob}

theorem superseded_not_owned (hi : Inv s) (h : Superseded s claim) {j : Job}
    (hj : s.jobs claim.id = some j) (worker : Nat) : j.ownedBy claim worker = false := by
  obtain ⟨w, later, earlier, hclaims, p, hp, hpid⟩ := h
  have hlater : claim.claimToken < p.1.claimToken := by
    have hs := hi.tokens
    rw [hclaims, List.pairwise_append] at hs
    exact hs.2.2 p hp _ (List.mem_cons_self ..)
  have hpmem : p ∈ s.claims := by
    rw [hclaims]
    exact List.mem_append_left _ hp
  by_contra ho
  rw [Bool.not_eq_false, ownedBy_iff] at ho
  obtain ⟨c, v, -, -, hown, hmax⟩ := hi.held _ j hj ho.1
  rw [ownedBy_iff, ho.2.2, Option.some.injEq] at hown
  have := hmax p hpmem hpid
  omega

theorem superseded_not_ownedLive (hi : Inv s) (h : Superseded s claim) (worker : Nat) (stamp : Int) :
    s.ownedLive claim worker stamp = false := by
  by_contra ho
  rw [Bool.not_eq_false] at ho
  obtain ⟨j, hj, ho, -⟩ := ownedLive_iff.mp ho
  rw [superseded_not_owned hi h hj] at ho
  cases ho

theorem superseded_call_changes_nothing (hi : Inv s) (h : Superseded s claim) {a : Act}
    (ha : CallWith s claim a) (hstep : step config s a = some t) :
    t.jobs = s.jobs ∧ t.documents = s.documents := by
  cases a with
  | extendLease job worker stamp =>
    cases ha
    obtain ⟨-, hstep⟩ := Option.ite_none_right_eq_some.mp hstep
    unfold extendLease at hstep
    split at hstep
    next j hj =>
      rw [superseded_not_owned hi h hj] at hstep
      cases Option.some.inj hstep
      exact ⟨rfl, rfl⟩
    next =>
      cases Option.some.inj hstep
      exact ⟨rfl, rfl⟩
  | setStage job worker stage stamp =>
    cases ha
    obtain ⟨-, hstep⟩ := Option.ite_none_right_eq_some.mp hstep
    cases Option.some.inj hstep
    simp [setStageForOwner, superseded_not_ownedLive hi h]
  | beginComplete job worker stamp =>
    cases ha
    obtain ⟨-, hstep⟩ := Option.ite_none_right_eq_some.mp hstep
    rw [beginComplete, superseded_not_ownedLive hi h] at hstep
    cases Option.some.inj hstep
    exact ⟨rfl, rfl⟩
  | beginFailure job worker failure stamp =>
    cases ha
    obtain ⟨-, hstep⟩ := Option.ite_none_right_eq_some.mp hstep
    unfold beginFailure at hstep
    split at hstep
    next j hj =>
      rw [superseded_not_owned hi h hj] at hstep
      cases Option.some.inj hstep
      exact ⟨rfl, rfl⟩
    next =>
      cases Option.some.inj hstep
      exact ⟨rfl, rfl⟩
  | commit id =>
    obtain ⟨tx, htx, rfl⟩ := ha
    -- the lock has kept the row with this claim since the call read it
    obtain ⟨hid, -, j, hj, ho, -⟩ := hi.locked id tx htx
    rw [superseded_not_owned hi h (hid.symm ▸ hj)] at ho
    cases ho
  | rollback id =>
    obtain ⟨-, hstep⟩ := Option.ite_none_right_eq_some.mp hstep
    cases Option.some.inj hstep
    exact ⟨rfl, rfl⟩
  | _ => exact ha.elim

end Fencing

theorem reach_inv {config : WorkerConfig} {now : Int} {ok : State → Act → Prop} {s : State}
    (h : Reach (· = initial now) (step config) ok s) : Inv s := by
  refine h.invariant ?_ fun s t a hi _ hs => step_inv hi hs
  rintro s rfl
  exact initial_inv now

/-- Lease fencing, over every interleaving of workers: once a job is claimed again, the calls of
the earlier claim change neither table, and each claim ends at most once. -/
theorem ingestion_lease_fencing (config : WorkerConfig) (now : Int) {s : State}
    (h : Reach (· = initial now) (step config) anyStep s) :
    (∀ claim, Superseded s claim → ∀ a t, CallWith s claim a → step config s a = some t →
      t.jobs = s.jobs ∧ t.documents = s.documents) ∧
    ∀ token, (s.ends.map Prod.fst).count token ≤ 1 := by
  have hi := reach_inv h
  refine ⟨fun claim hs a t ha ht => superseded_call_changes_nothing hi hs ha ht, ?_⟩
  intro token
  exact List.nodup_iff_count_le_one.mp hi.ends_once token

def sampleConfig : WorkerConfig := ⟨1, 5, 300, 5, 300⟩

/-- Worker 1 claims the job again after the lease of worker 0 ran out. -/
def reclaimedRun : List Act :=
  [.upload 7 0, .claim 0 [0] 0, .tick 301, .claim 1 [0] 301]

def firstClaim : ClaimedJob := ⟨0, 0, 7, 1, 5, 0⟩

def reclaimed : State := (run (step sampleConfig) (initial 0) reclaimedRun).getD (initial 0)

/-- The row as worker 1 holds it. -/
def reclaimedJob : Job := ⟨0, 7, .processing, 2, 5, 0, some 601, some 1, some 1, none, none⟩

theorem ingestion_lease_fencing_reclaimed :
    Superseded reclaimed firstClaim ∧
      (∃ t, step sampleConfig reclaimed (.beginComplete firstClaim 0 301) = some t ∧
        t.jobs 0 = some reclaimedJob) ∧
      (reclaimed.ends.map Prod.fst).count 0 ≤ 1 := by
  have hr : run (step sampleConfig) (initial 0) reclaimedRun = some reclaimed := rfl
  have hs : Superseded reclaimed firstClaim :=
    ⟨0, [(⟨0, 0, 7, 2, 5, 1⟩, 1)], [], rfl, _, List.mem_cons_self .., rfl⟩
  have ht : step sampleConfig reclaimed (.beginComplete firstClaim 0 301) = some reclaimed := rfl
  obtain ⟨hfenced, hends⟩ := ingestion_lease_fencing sampleConfig 0 (Reach.of_free_run rfl hr)
  obtain ⟨hjobs, -⟩ := hfenced firstClaim hs (.beginComplete firstClaim 0 301) _ rfl ht
  have hrow : reclaimed.jobs 0 = some reclaimedJob := rfl
  exact ⟨hs, ⟨_, ht, (congrFun hjobs 0).trans hrow⟩, hends 0⟩

end GmragApi.Ingestion
