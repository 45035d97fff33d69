import Mathlib
import GmragApi.IdentityReport

/-! What the exit code of the report says about the three stores. -/

namespace GmragApi.IdentityReport

open InviteCleanup (UserRow TupleText fgaUser isInvitePlaceholderUserId workspaceObject
  tenantObject documentObject)
open Keycloak (KeycloakUser normalizeEmail normalizedEmailCount)

/-- The rows of SQL stand behind the tuple. -/
def Backed (db : Postgres) (options : Options) (e : ExpectedTuple) : Prop :=
  (∃ tm ∈ db.tenantMembers, inTenant options tm.tenantId = true ∧
    e = ⟨fgaUser tm.userId, .owner, tenantObject tm.tenantId⟩) ∨
  (∃ wm ∈ db.workspaceMembers, inScope db options wm.workspaceId = true ∧
    e = ⟨fgaUser wm.userId, memberRelation wm.role, workspaceObject wm.workspaceId⟩) ∨
  ∃ ds ∈ db.documentShares,
    (∃ d ∈ db.documents, d.id = ds.documentId ∧ inScope db options d.workspaceId = true) ∧
    e = ⟨fgaUser ds.userId, .explicitViewer, documentObject ds.documentId⟩

/-- The account of a user is there under the same id and email; with `strict` it is enabled and
verified, and no other account has the email. -/
def AccountAgrees (w : World) (strict : Bool) (user : UserRow) : Prop :=
  ∃ account, w.getUserById user.id = .ok (some account) ∧ account.id = user.id ∧
    account.hasEmail w.tables user.email = true ∧
    (strict = true → account.verified = true ∧
      ∃ accounts, w.getUsersByEmailExact user.email = .ok accounts ∧
        normalizedEmailCount w.tables accounts user.email ≤ 1)

structure UserAgrees (w : World) (strict : Bool) (user : UserRow) : Prop where
  named : trim user.id ≠ []
  canonical : isInvitePlaceholderUserId user.id = false
  current : strict = true → looksLikeLegacyExternalId user.id = false
  account : AccountAgrees w strict user

/-- The three stores agree; what only `strict` asks for is a warning otherwise. -/
structure Consistent (w : World) (options : Options) (strict : Bool) : Prop where
  available : ∀ q, w.db.failure q = none
  users : ∀ u ∈ sqlUsers w.db options, UserAgrees w strict u
  emails : ∀ u ∈ sqlUsers w.db options, ∀ u' ∈ sqlUsers w.db options,
    normalizeEmail w.tables u.email = normalizeEmail w.tables u'.email → u = u'
  references : ∀ reference, ∀ row ∈ w.db.references reference, ∃ u ∈ w.db.users, u.id = row.1
  granted : ∀ e, Backed w.db options e → w.checkFga e.user e.relation e.object = .ok true
  subjects : ∀ tuples, w.listAllTuples = .ok tuples → ∀ t ∈ tuples, ∀ id, t.user = fgaUser id →
    isInvitePlaceholderUserId id = false ∧ ∃ u ∈ sqlUsers w.db options, u.id = id
  rows : strict = true → ∃ tuples, w.listAllTuples = .ok tuples ∧ ∀ t ∈ tuples, ∀ id,
    t.user = fgaUser id → isSqlBackedDirectRelation t = true →
      ∃ e, Backed w.db options e ∧ t = ⟨e.user, relationText e.relation, e.object⟩

/-- A finding that does not change the exit code. -/
def Tolerated (strict : Bool) (f : IdentityFinding) : Prop :=
  f.severity = .warning ∧ strict = false

section Findings

variable {w : World} {options : Options} {strict : Bool} {user : UserRow}

theorem flag_tolerated {wrong : Bool} {f : IdentityFinding} :
    (∀ g ∈ flag wrong f, Tolerated strict g) ↔ (wrong = true → Tolerated strict f) := by
  cases wrong <;> simp [flag]

theorem not_tolerated_critical {f : IdentityFinding} (h : f.severity = .critical) :
    ¬ Tolerated strict f := by
  rintro ⟨hwarning, -⟩
  rw [h] at hwarning
  cases hwarning

theorem flag_critical {wrong : Bool} {f : IdentityFinding} (h : f.severity = .critical) :
    (∀ g ∈ flag wrong f, Tolerated strict g) ↔ wrong = false := by
  rw [flag_tolerated, ← Bool.not_eq_true]
  exact imp_congr_right fun _ => iff_false_intro (not_tolerated_critical h)

theorem flag_warning {wrong : Bool} {f : IdentityFinding} (h : f.severity = .warning) :
    (∀ g ∈ flag wrong f, Tolerated strict g) ↔ (strict = true → wrong = false) := by
  rw [flag_tolerated]
  have htolerated : Tolerated strict f ↔ strict = false := and_iff_right h
  rw [htolerated]
  cases wrong <;> cases strict <;> simp

theorem singleton_critical {f : IdentityFinding} (h : f.severity = .critical) :
    ¬ ∀ g ∈ [f], Tolerated strict g :=
  fun hall => not_tolerated_critical h (hall f (List.mem_singleton_self f))

theorem singleton_warning {f : IdentityFinding} (h : f.severity = .warning) :
    (∀ g ∈ [f], Tolerated strict g) ↔ strict = false := by
  rw [List.forall_mem_singleton]
  exact and_iff_right h

theorem inspectAccountEmail_tolerated {account : KeycloakUser} :
    (∀ f ∈ inspectAccountEmail w options user account.email, Tolerated strict f) ↔
      account.hasEmail w.tables user.email = true := by
  unfold inspectAccountEmail KeycloakUser.hasEmail
  cases account.email with
  | none => exact iff_of_false (singleton_critical rfl) (by simp)
  | some email =>
    refine (flag_critical rfl).trans ?_
    simp

theorem inspectKeycloakUser_tolerated {account : KeycloakUser} :
    (∀ f ∈ inspectKeycloakUser w options user account, Tolerated strict f) ↔
      account.id = user.id ∧ account.hasEmail w.tables user.email = true ∧
        (strict = true → account.verified = true) := by
  unfold inspectKeycloakUser
  rw [List.forall_mem_append, List.forall_mem_append, List.forall_mem_append, flag_critical rfl,
    flag_warning rfl, flag_warning rfl, inspectAccountEmail_tolerated]
  have hid : (account.id != user.id) = false ↔ account.id = user.id := by simp
  have henabled : (!account.enabled.getD true) = false ↔ account.enabled.getD true = true := by simp
  have hverified : (!account.emailVerified.getD false) = false ↔
      account.emailVerified.getD false = true := by simp
  rw [hid, henabled, hverified, KeycloakUser.verified, Bool.and_eq_true]
  constructor
  · rintro ⟨⟨⟨hid, henabled⟩, hverified⟩, hemail⟩
    exact ⟨hid, hemail, fun hstrict => ⟨hverified hstrict, henabled hstrict⟩⟩
  · rintro ⟨hid, hemail, hboth⟩
    exact ⟨⟨⟨hid, fun hstrict => (hboth hstrict).2⟩, fun hstrict => (hboth hstrict).1⟩, hemail⟩

theorem inspectEmailAccounts_tolerated :
    (∀ f ∈ inspectEmailAccounts w user, Tolerated strict f) ↔
      (strict = true → ∃ accounts, w.getUsersByEmailExact user.email = .ok accounts ∧
        normalizedEmailCount w.tables accounts user.email ≤ 1) := by
  unfold inspectEmailAccounts
  cases w.getUsersByEmailExact user.email with
  | ok accounts =>
    refine (flag_warning rfl).trans (imp_congr_right fun _ => ?_)
    rw [decide_eq_false_iff_not, Nat.not_lt]
    constructor
    · exact fun hone => ⟨accounts, rfl, hone⟩
    · rintro ⟨accounts', heq, hone⟩
      cases heq
      exact hone
  | error e =>
    refine (singleton_warning rfl).trans ?_
    rw [← Bool.not_eq_true]
    refine imp_congr_right fun _ => (iff_false_intro ?_).symm
    rintro ⟨accounts, heq, -⟩
    cases heq

theorem inspectAccount_tolerated :
    (∀ f ∈ inspectAccount w options user, Tolerated strict f) ↔ AccountAgrees w strict user := by
  unfold inspectAccount AccountAgrees
  cases hreply : w.getUserById user.id with
  | error e =>
    refine iff_of_false (singleton_critical rfl) ?_
    rintro ⟨account, heq, -⟩
    cases heq
  | ok found =>
    cases found with
    | none =>
      refine iff_of_false (singleton_critical rfl) ?_
      rintro ⟨account, heq, -⟩
      cases heq
    | some account =>
      refine List.forall_mem_append.trans ?_
      rw [inspectKeycloakUser_tolerated, inspectEmailAccounts_tolerated]
      constructor
      · rintro ⟨⟨hid, hemail, hverified⟩, hunique⟩
        exact ⟨account, rfl, hid, hemail, fun hstrict => ⟨hverified hstrict, hunique hstrict⟩⟩
      · rintro ⟨account', heq, hid, hemail, hboth⟩
        cases heq
        exact ⟨⟨hid, hemail, fun hstrict => (hboth hstrict).1⟩, fun hstrict => (hboth hstrict).2⟩

theorem inspectSqlUser_tolerated :
    (∀ f ∈ inspectSqlUser w options user, Tolerated strict f) ↔ UserAgrees w strict user := by
  unfold inspectSqlUser
  rw [List.forall_mem_append, List.forall_mem_append, List.forall_mem_append, flag_critical rfl,
    flag_critical rfl, flag_warning rfl, inspectAccount_tolerated]
  have hnamed : (trim user.id).isEmpty = false ↔ trim user.id ≠ [] := List.isEmpty_eq_false_iff
  rw [hnamed]
  constructor
  · rintro ⟨⟨⟨hnamed, hcanonical⟩, hcurrent⟩, haccount⟩
    exact ⟨hnamed, hcanonical, hcurrent, haccount⟩
  · rintro ⟨hnamed, hcanonical, hcurrent, haccount⟩
    exact ⟨⟨⟨hnamed, hcanonical⟩, hcurrent⟩, haccount⟩

theorem forall_flatMap_tolerated {α : Type} {rows : List α} {inspect : α → List IdentityFinding}
    {agrees : α → Prop} (h : ∀ a, (∀ f ∈ inspect a, Tolerated strict f) ↔ agrees a) :
    (∀ f ∈ rows.flatMap inspect, Tolerated strict f) ↔ ∀ a ∈ rows, agrees a := by
  rw [List.forall_mem_flatMap]
  exact forall₂_congr fun a _ => h a

end Findings

section Emails

variable {w : World} {options : Options} {strict : Bool} {users : List UserRow}

theorem total_ids (ids : List (List Char)) :
    Gather.total (fun _ => []) (fun (found : List (List Char)) id => found ++ [id]) ids =
      if ids = [] then none else some ids := by
  have hfold : ∀ (ids found : List (List Char)),
      ids.foldl (fun found id => found ++ [id]) found = found ++ ids := by
    intro ids
    induction ids with
    | nil => exact fun found => (List.append_nil found).symm
    | cons id ids ih =>
      intro found
      rw [List.foldl_cons, ih, List.append_assoc]
      rfl
  cases ids with
  | nil => rfl
  | cons id ids => exact congrArg some (hfold (id :: ids) [])

theorem mem_idsByEmail {email : List Char} {ids : List (List Char)} :
    (email, ids) ∈ idsByEmail w users ↔ ids ≠ [] ∧
      ids = (users.filter fun u => normalizeEmail w.tables u.email == email).map UserRow.id := by
  have hevents : Gather.eventsAt
      (users.map fun u => (normalizeEmail w.tables u.email, u.id)) email =
        (users.filter fun u => normalizeEmail w.tables u.email == email).map UserRow.id := by
    rw [Gather.eventsAt, List.filter_map, List.map_map]
    rfl
  unfold idsByEmail
  rw [Gather.mem_gather_iff, hevents, total_ids]
  split
  next hempty =>
    refine iff_of_false (by simp) ?_
    rintro ⟨hne, rfl⟩
    exact hne hempty
  next hne =>
    constructor
    · intro h
      cases h
      exact ⟨hne, rfl⟩
    · rintro ⟨-, rfl⟩
      rfl

theorem length_le_one_iff {α : Type} {rows : List α} (hnodup : rows.Nodup) :
    rows.length ≤ 1 ↔ ∀ a ∈ rows, ∀ b ∈ rows, a = b := by
  constructor
  · intro hlength a ha b hb
    cases rows with
    | nil => cases ha
    | cons first rest =>
      have hrest : rest = [] := List.eq_nil_of_length_eq_zero (by
        rw [List.length_cons] at hlength
        omega)
      subst hrest
      rw [List.mem_singleton.mp ha, List.mem_singleton.mp hb]
  · intro hall
    cases rows with
    | nil => exact Nat.zero_le 1
    | cons first rest =>
      cases rest with
      | nil => exact Nat.le_refl 1
      | cons second rest =>
        have heq := hall first List.mem_cons_self second (List.mem_cons_of_mem _ List.mem_cons_self)
        subst heq
        exact absurd List.mem_cons_self (List.nodup_cons.mp hnodup).1

/-- No finding of the second loop is one that counts when no two users share a normalized email. -/
theorem inspectEmails_tolerated (hnodup : users.Nodup) :
    (∀ f ∈ (w.order (idsByEmail w users)).flatMap (inspectEmail options), Tolerated strict f) ↔
      ∀ u ∈ users, ∀ u' ∈ users,
        normalizeEmail w.tables u.email = normalizeEmail w.tables u'.email → u = u' := by
  have hentry : ∀ entry, (∀ f ∈ inspectEmail options entry, Tolerated strict f) ↔
      entry.2.length ≤ 1 := by
    intro entry
    refine (flag_critical rfl).trans ?_
    rw [decide_eq_false_iff_not, Nat.not_lt]
  rw [forall_flatMap_tolerated hentry]
  have hfiltered : ∀ email, ((users.filter fun u => normalizeEmail w.tables u.email == email).map
      UserRow.id).length ≤ 1 ↔
        ∀ u ∈ users, ∀ u' ∈ users, normalizeEmail w.tables u.email = email →
          normalizeEmail w.tables u'.email = email → u = u' := by
    intro email
    rw [List.length_map, length_le_one_iff (hnodup.filter _)]
    simp only [List.mem_filter, beq_iff_eq, and_imp]
    constructor
    · exact fun h u hu u' hu' he he' => h u hu he u' hu' he'
    · exact fun h u hu he u' hu' he' => h u hu u' hu' he he'
  constructor
  · intro h u hu u' hu' heq
    have hmem : (normalizeEmail w.tables u'.email, (users.filter fun v =>
        normalizeEmail w.tables v.email == normalizeEmail w.tables u'.email).map UserRow.id) ∈
          idsByEmail w users := by
      refine mem_idsByEmail.mpr ⟨List.ne_nil_of_mem (a := u'.id) ?_, rfl⟩
      exact List.mem_map_of_mem (List.mem_filter.mpr ⟨hu', beq_self_eq_true _⟩)
    have hone := h _ ((w.order_perm _).mem_iff.mpr hmem)
    exact (hfiltered _).mp hone u hu u' hu' heq rfl
  · rintro h ⟨email, ids⟩ hmem
    obtain ⟨-, rfl⟩ := mem_idsByEmail.mp ((w.order_perm _).mem_iff.mp hmem)
    exact (hfiltered email).mpr fun u hu u' hu' he he' => h u hu u' hu' (he.trans he'.symm)

end Emails

section Rows

variable {w : World} {options : Options} {strict : Bool}

theorem query_ok_iff {α : Type} {db : Postgres} {q : SqlQuery} {rows : List α} :
    db.query q rows = .ok rows ↔ db.failure q = none := by
  unfold Postgres.query
  cases db.failure q <;> simp

theorem query_failed {α : Type} {db : Postgres} {q : SqlQuery} {rows : List α} {error : List Char}
    (h : db.failure q = some error) : db.query q rows = .error error := by
  rw [Postgres.query, h]

theorem orphans_nil_iff {db : Postgres} {reference : Reference} :
    db.orphans reference = [] ↔
      ∀ row ∈ db.references reference, ∃ u ∈ db.users, u.id = row.1 := by
  unfold Postgres.orphans Postgres.hasUser
  rw [List.filter_eq_nil_iff]
  refine forall₂_congr fun row _ => ?_
  simp

theorem inspectReference_tolerated {reference : Reference} :
    (∀ f ∈ inspectReference w reference, Tolerated strict f) ↔
      w.db.failure (.references reference) = none ∧
        ∀ row ∈ w.db.references reference, ∃ u ∈ w.db.users, u.id = row.1 := by
  rw [← orphans_nil_iff]
  unfold inspectReference
  cases hfailure : w.db.failure (.references reference) with
  | some error =>
    rw [query_failed hfailure]
    refine iff_of_false (singleton_critical rfl) ?_
    rintro ⟨hnone, -⟩
    cases hnone
  | none =>
    rw [query_ok_iff.mpr hfailure, and_iff_right rfl]
    cases w.db.orphans reference with
    | nil => simp
    | cons row rows =>
      refine iff_of_false (fun h => ?_) (by simp)
      exact not_tolerated_critical rfl (h _ List.mem_cons_self)

theorem mem_allReferences (reference : Reference) : reference ∈ allReferences := by
  cases reference <;> decide

theorem inspectSqlIntegrity_tolerated :
    (∀ f ∈ inspectSqlIntegrity w, Tolerated strict f) ↔
      ∀ reference, w.db.failure (.references reference) = none ∧
        ∀ row ∈ w.db.references reference, ∃ u ∈ w.db.users, u.id = row.1 := by
  unfold inspectSqlIntegrity
  rw [forall_flatMap_tolerated fun reference => inspectReference_tolerated]
  exact forall_congr' fun reference => imp_iff_right (mem_allReferences reference)

theorem mem_expected {db : Postgres} {e : ExpectedTuple} :
    e ∈ tenantTuples db options ++ memberTuples db options ++ shareTuples db options ↔
      Backed db options e := by
  simp only [tenantTuples, memberTuples, shareTuples, Backed, List.mem_append, List.mem_map,
    List.mem_filter, List.any_eq_true, Bool.and_eq_true, beq_iff_eq, or_assoc]
  refine or_congr ?_ (or_congr ?_ ?_)
  · exact ⟨fun ⟨tm, ⟨hmem, hin⟩, heq⟩ => ⟨tm, hmem, hin, heq.symm⟩,
      fun ⟨tm, hmem, hin, heq⟩ => ⟨tm, ⟨hmem, hin⟩, heq.symm⟩⟩
  · exact ⟨fun ⟨wm, ⟨hmem, hin⟩, heq⟩ => ⟨wm, hmem, hin, heq.symm⟩,
      fun ⟨wm, hmem, hin, heq⟩ => ⟨wm, ⟨hmem, hin⟩, heq.symm⟩⟩
  · exact ⟨fun ⟨ds, ⟨hmem, hin⟩, heq⟩ => ⟨ds, hmem, hin, heq.symm⟩,
      fun ⟨ds, hmem, hin, heq⟩ => ⟨ds, ⟨hmem, hin⟩, heq.symm⟩⟩

theorem loadExpectedTuples_of_available {db : Postgres} (h : ∀ q, db.failure q = none) :
    loadExpectedTuples db options =
      .ok (tenantTuples db options ++ memberTuples db options ++ shareTuples db options) := by
  simp [loadExpectedTuples, query_ok_iff.mpr (h _)]

theorem loadExpectedTuples_ok {db : Postgres} {expected : List ExpectedTuple}
    (h : loadExpectedTuples db options = .ok expected) :
    db.failure .tenantMembers = none ∧ db.failure .workspaceMembers = none ∧
      db.failure .documentShares = none := by
  unfold loadExpectedTuples Postgres.query at h
  cases htenants : db.failure .tenantMembers <;> cases hmembers : db.failure .workspaceMembers <;>
    cases hshares : db.failure .documentShares <;> simp [htenants, hmembers, hshares] at h
  exact ⟨rfl, rfl, rfl⟩

theorem inspectExpectedRelation_tolerated {e : ExpectedTuple} :
    (∀ f ∈ inspectExpectedRelation w e, Tolerated strict f) ↔
      w.checkFga e.user e.relation e.object = .ok true := by
  unfold inspectExpectedRelation
  cases w.checkFga e.user e.relation e.object with
  | ok allowed =>
    refine (flag_critical rfl).trans ?_
    cases allowed <;> simp
  | error e => exact iff_of_false (singleton_critical rfl) (by simp)

end Rows

section Tuples

variable {w : World} {options : Options} {strict : Bool} {t : TupleText}

/-- A text is cut at its last bar in one way only. -/
theorem bar_split {a b c d : List Char} (hb : '|' ∉ b) (hd : '|' ∉ d)
    (h : a ++ '|' :: b = c ++ '|' :: d) : a = c ∧ b = d := by
  have hback : ∀ xs ys : List Char, '|' ∉ ys →
      ((xs ++ '|' :: ys).reverse.takeWhile fun c => c != '|') = ys.reverse := by
    intro xs ys hys
    have hall : ∀ c ∈ ys.reverse, (c != '|') = true := by
      intro c hc
      refine bne_iff_ne.mpr fun heq => hys ?_
      rw [← heq]
      exact List.mem_reverse.mp hc
    rw [List.reverse_append, List.reverse_cons, List.append_assoc,
      List.takeWhile_append_of_pos hall, List.singleton_append,
      List.takeWhile_cons_of_neg (by decide), List.append_nil]
  have hsame : b = d := by
    refine List.reverse_injective ?_
    rw [← hback a b hb, h, hback c d hd]
  subst hsame
  exact ⟨List.append_cancel_right h, rfl⟩

theorem relationText_noBar (relation : Relation) : '|' ∉ relationText relation := by
  cases relation <;> decide

theorem display_noBar (id : Uuid) : '|' ∉ id.display := by
  intro hmem
  have hall := List.all_eq_true.mp (display_all id) '|' hmem
  exact absurd hall (by decide)

theorem sqlBacked_relation (h : isSqlBackedDirectRelation t = true) :
    '|' ∉ t.relation ∧ t.object ≠ "platform:system".toList := by
  have hplatform : t.object = "platform:system".toList →
      (t.object.takeWhile fun c => c != ':') = "platform".toList := by
    intro heq
    rw [heq]
    rfl
  simp only [isSqlBackedDirectRelation, Bool.or_eq_true, Bool.and_eq_true, beq_iff_eq] at h
  rcases h with ((⟨hrelation, htype⟩ | ⟨hrelation, htype⟩) | ⟨hrelation, htype⟩) |
    ⟨hrelation, htype⟩
  all_goals
    refine ⟨hrelation ▸ by decide, fun heq => ?_⟩
    have hwrong := htype.symm.trans (hplatform heq)
    exact absurd hwrong (by decide)

theorem backed_object_noBar {e : ExpectedTuple} (h : Backed w.db options e) : '|' ∉ e.object := by
  have hobject : ∀ (kind : List Char) (id : Uuid), '|' ∉ kind → '|' ∉ kind ++ id.display := by
    intro kind id hkind hmem
    exact (List.mem_append.mp hmem).elim hkind (display_noBar id)
  rcases h with ⟨tm, -, -, rfl⟩ | ⟨wm, -, -, rfl⟩ | ⟨ds, -, -, rfl⟩
  · exact hobject _ _ (by decide)
  · exact hobject _ _ (by decide)
  · exact hobject _ _ (by decide)

theorem tupleKey_inj {u u' r r' o o' : List Char} (hr : '|' ∉ r) (hr' : '|' ∉ r') (ho : '|' ∉ o)
    (ho' : '|' ∉ o') (h : tupleKey u r o = tupleKey u' r' o') : u = u' ∧ r = r' ∧ o = o' := by
  have hsplit := bar_split (a := u ++ '|' :: r) (c := u' ++ '|' :: r') ho ho' (by
    unfold tupleKey at h
    simpa only [List.append_assoc, List.cons_append] using h)
  obtain ⟨hu, hr⟩ := bar_split hr hr' hsplit.1
  exact ⟨hu, hr, hsplit.2⟩

theorem inspectTuple_tolerated {userIds expectedKeys : List (List Char)} :
    (∀ f ∈ inspectTuple userIds expectedKeys t, Tolerated strict f) ↔
      ∀ id, t.user = fgaUser id → (isInvitePlaceholderUserId id = false ∧ id ∈ userIds) ∧
        (strict = true → isSqlBackedDirectRelation t = true →
          tupleKey t.user t.relation t.object ∈ expectedKeys) := by
  have hsubject : ∀ id, (∀ f ∈ inspectSubject userIds expectedKeys t id, Tolerated strict f) ↔
      (isInvitePlaceholderUserId id = false ∧ id ∈ userIds) ∧
        (strict = true → isSqlBackedDirectRelation t = true →
          tupleKey t.user t.relation t.object ∈ expectedKeys) := by
    intro id
    unfold inspectSubject
    rw [List.forall_mem_append, List.forall_mem_append, flag_critical rfl, flag_critical rfl,
      flag_warning rfl]
    refine and_congr (and_congr Iff.rfl (by simp)) (imp_congr_right fun _ => ?_)
    cases hbacked : isSqlBackedDirectRelation t with
    | false => simp
    | true =>
      have hobject := bne_iff_ne.mpr (sqlBacked_relation hbacked).2
      rw [hobject]
      simp
  unfold inspectTuple
  by_cases hprefix : "user:".toList <+: t.user
  · obtain ⟨id, hid⟩ := hprefix
    have hid : t.user = fgaUser id := hid.symm
    have hdrop : t.user.drop "user:".toList.length = id := by
      rw [hid]
      exact List.drop_left
    have hstarts : "user:".toList.isPrefixOf t.user = true :=
      List.isPrefixOf_iff_prefix.mpr ⟨id, hid.symm⟩
    rw [if_pos hstarts, hdrop, hsubject]
    constructor
    · intro h id' hid'
      rw [← List.append_cancel_left (hid.symm.trans hid')]
      exact h
    · exact fun h => h id hid
  · have hstarts : ¬ "user:".toList.isPrefixOf t.user = true := fun h =>
      hprefix (List.isPrefixOf_iff_prefix.mp h)
    rw [if_neg hstarts]
    refine iff_of_true (fun f hf => absurd hf List.not_mem_nil) fun id hid => ?_
    exact absurd ⟨id, hid.symm⟩ hprefix

/-- Where no object of the store has a bar in it, the key of a tuple is expected exactly when rows
stand behind the tuple. -/
theorem key_expected_iff {expected : List ExpectedTuple}
    (hexpected : ∀ e, e ∈ expected ↔ Backed w.db options e)
    (hobject : '|' ∉ t.object) (hbacked : isSqlBackedDirectRelation t = true) :
    tupleKey t.user t.relation t.object ∈ expected.map ExpectedTuple.key ↔
      ∃ e, Backed w.db options e ∧ t = ⟨e.user, relationText e.relation, e.object⟩ := by
  rw [List.mem_map]
  constructor
  · rintro ⟨e, he, hkey⟩
    have he := (hexpected e).mp he
    obtain ⟨huser, hrelation, hsame⟩ := tupleKey_inj (relationText_noBar _)
      (sqlBacked_relation hbacked).1 (backed_object_noBar he) hobject hkey
    refine ⟨e, he, ?_⟩
    rw [huser, hrelation, hsame]
  · rintro ⟨e, he, rfl⟩
    exact ⟨e, (hexpected e).mpr he, rfl⟩

end Tuples

section Exact

variable {w : World} {options : Options} {strict : Bool}

theorem exitCode_eq_two_iff {report : Report} :
    reportExitCode report strict = 2 ↔ ¬ ∀ f ∈ report.findings, Tolerated false f := by
  have hcritical : (report.findings.any fun f => f.severity == .critical) = true ↔
      ¬ ∀ f ∈ report.findings, Tolerated false f := by
    have hone : ∀ f : IdentityFinding, (f.severity == .critical) = true ↔ ¬ Tolerated false f := by
      intro f
      rw [Tolerated, and_iff_left rfl, beq_iff_eq]
      cases f.severity <;> simp
    simp [List.any_eq_true, hone]
  rw [← hcritical, reportExitCode]
  split
  next h => exact iff_of_true rfl h
  next h =>
    refine iff_of_false ?_ h
    split <;> simp

theorem exitCode_eq_zero_iff {report : Report} :
    reportExitCode report strict = 0 ↔ ∀ f ∈ report.findings, Tolerated strict f := by
  by_cases hall : ∀ f ∈ report.findings, Tolerated false f
  · have hcalm : ¬ (report.findings.any fun f => f.severity == .critical) = true := by
      rw [List.any_eq_true]
      rintro ⟨f, hf, hcritical⟩
      exact not_tolerated_critical (beq_iff_eq.mp hcritical) (hall f hf)
    rw [reportExitCode, if_neg hcalm]
    cases strict with
    | false => exact iff_of_true rfl hall
    | true =>
      rw [Bool.true_and]
      cases hfindings : report.findings with
      | nil => simp
      | cons f rest =>
        refine iff_of_false (by simp) fun h => ?_
        cases (h f List.mem_cons_self).2
  · have htwo : reportExitCode report strict = 2 := exitCode_eq_two_iff.mpr hall
    refine iff_of_false (by omega) fun h => hall fun f hf => ⟨(h f hf).1, rfl⟩

theorem inspectFgaTuples_tolerated {expected : List ExpectedTuple} {userIds : List (List Char)}
    (hexpected : ∀ e, e ∈ expected ↔ Backed w.db options e)
    (hbars : ∀ tuples, w.listAllTuples = .ok tuples → ∀ t ∈ tuples, '|' ∉ t.object) :
    (∀ f ∈ inspectFgaTuples w userIds expected, Tolerated strict f) ↔
      (∀ tuples, w.listAllTuples = .ok tuples → ∀ t ∈ tuples, ∀ id, t.user = fgaUser id →
        isInvitePlaceholderUserId id = false ∧ id ∈ userIds) ∧
      (strict = true → ∃ tuples, w.listAllTuples = .ok tuples ∧ ∀ t ∈ tuples, ∀ id,
        t.user = fgaUser id → isSqlBackedDirectRelation t = true →
          ∃ e, Backed w.db options e ∧ t = ⟨e.user, relationText e.relation, e.object⟩) := by
  unfold inspectFgaTuples
  cases htuples : w.listAllTuples with
  | error e =>
    refine (singleton_warning rfl).trans ?_
    constructor
    · rintro rfl
      refine ⟨fun tuples heq => ?_, fun heq => ?_⟩
      · cases heq
      · cases heq
    · rintro ⟨-, hread⟩
      rw [← Bool.not_eq_true]
      intro hstrict
      obtain ⟨tuples, heq, -⟩ := hread hstrict
      cases heq
  | ok tuples =>
    refine (forall_flatMap_tolerated fun t => inspectTuple_tolerated).trans ?_
    constructor
    · intro h
      refine ⟨fun tuples' heq t ht id hid => ?_, fun hstrict => ⟨tuples, rfl, ?_⟩⟩
      · cases heq
        exact (h t ht id hid).1
      · intro t ht id hid hbacked
        have hkey := (h t ht id hid).2 hstrict hbacked
        exact (key_expected_iff hexpected (hbars tuples htuples t ht) hbacked).mp hkey
    · rintro ⟨hsubjects, hrows⟩ t ht id hid
      refine ⟨hsubjects tuples rfl t ht id hid, fun hstrict hbacked => ?_⟩
      obtain ⟨tuples', heq, hrows⟩ := hrows hstrict
      cases heq
      have hrow := hrows t ht id hid hbacked
      exact (key_expected_iff hexpected (hbars tuples htuples t ht) hbacked).mpr hrow

theorem orFinding_tolerated {α : Type} {rows : Except (List Char) (List α)}
    {category expected : List Char}
    (h : ∀ f ∈ (orFinding rows category expected).2, Tolerated strict f) : ∃ found, rows = .ok found := by
  cases rows with
  | ok found => exact ⟨found, rfl⟩
  | error e => exact absurd h (singleton_critical rfl)

/-- Every query has answered where the findings count for nothing. -/
theorem available_of_tolerated (h : ∀ f ∈ findings w options, Tolerated strict f) (q : SqlQuery) :
    w.db.failure q = none := by
  simp only [findings, List.forall_mem_append] at h
  obtain ⟨⟨⟨⟨⟨husers, -⟩, hintegrity⟩, hexpected⟩, -⟩, -⟩ := h
  obtain ⟨expected, hexpected⟩ := orFinding_tolerated hexpected
  obtain ⟨htenants, hmembers, hshares⟩ := loadExpectedTuples_ok hexpected
  cases q with
  | users =>
    obtain ⟨users, husers⟩ := orFinding_tolerated husers
    cases hfailure : w.db.failure .users with
    | none => rfl
    | some error =>
      rw [query_failed hfailure] at husers
      cases husers
  | references reference => exact (inspectSqlIntegrity_tolerated.mp hintegrity reference).1
  | tenantMembers => exact htenants
  | workspaceMembers => exact hmembers
  | documentShares => exact hshares

theorem findings_of_available (h : ∀ q, w.db.failure q = none) :
    ∃ expected, (∀ e, e ∈ expected ↔ Backed w.db options e) ∧
      findings w options = inspectSqlUsers w options (sqlUsers w.db options) ++
        inspectSqlIntegrity w ++ expected.flatMap (inspectExpectedRelation w) ++
        inspectFgaTuples w ((sqlUsers w.db options).map UserRow.id) expected := by
  refine ⟨_, fun e => mem_expected, ?_⟩
  unfold findings
  rw [query_ok_iff.mpr (h .users), loadExpectedTuples_of_available h]
  simp only [orFinding, List.append_nil, List.nil_append]

/-- Where every query answers, the findings count for nothing exactly when the stores agree. -/
theorem findings_tolerated_iff (havailable : ∀ q, w.db.failure q = none)
    (hbars : ∀ tuples, w.listAllTuples = .ok tuples → ∀ t ∈ tuples, '|' ∉ t.object) :
    (∀ f ∈ findings w options, Tolerated strict f) ↔ Consistent w options strict := by
  obtain ⟨expected, hexpected, heq⟩ := findings_of_available havailable
  have hnodup : (sqlUsers w.db options).Nodup := List.nodup_dedup _
  rw [heq, List.forall_mem_append, List.forall_mem_append, List.forall_mem_append, inspectSqlUsers,
    List.forall_mem_append, forall_flatMap_tolerated fun u => inspectSqlUser_tolerated,
    inspectEmails_tolerated hnodup, inspectSqlIntegrity_tolerated,
    forall_flatMap_tolerated fun e => inspectExpectedRelation_tolerated,
    inspectFgaTuples_tolerated hexpected hbars]
  simp only [List.mem_map]
  constructor
  · rintro ⟨⟨⟨⟨husers, hemails⟩, hreferences⟩, hgranted⟩, hsubjects, hrows⟩
    exact ⟨havailable, husers, hemails, fun reference => (hreferences reference).2,
      fun e he => hgranted e ((hexpected e).mpr he), hsubjects, hrows⟩
  · intro h
    exact ⟨⟨⟨⟨h.users, h.emails⟩, fun reference => ⟨h.available _, h.references reference⟩⟩,
      fun e he => h.granted e ((hexpected e).mp he)⟩, h.subjects, h.rows⟩

/-- The exit code of the report is exact: it is 0 when PostgreSQL, Keycloak and OpenFGA agree, and
2 when they differ in more than what is a warning. -/
theorem report_exit_code_exact
    (hbars : ∀ tuples, w.listAllTuples = .ok tuples → ∀ t ∈ tuples, '|' ∉ t.object) :
    (reportExitCode (runIdentityConsistencyReport w options) strict = 0 ↔
      Consistent w options strict) ∧
    (reportExitCode (runIdentityConsistencyReport w options) strict = 2 ↔
      ¬ Consistent w options false) := by
  have hexact : ∀ strict, (∀ f ∈ findings w options, Tolerated strict f) ↔
      Consistent w options strict := by
    intro strict
    constructor
    · intro h
      exact (findings_tolerated_iff (available_of_tolerated h) hbars).mp h
    · intro h
      exact (findings_tolerated_iff h.available hbars).mpr h
  exact ⟨exitCode_eq_zero_iff.trans (hexact strict),
    exitCode_eq_two_iff.trans (not_congr (hexact false))⟩

end Exact

section Sample

def ownerAccount : KeycloakUser := ⟨['u'], some "o@x".toList, some true, none⟩

/-- One owner, who also administers a workspace. -/
def ownerDb : Postgres where
  users := [⟨['u'], "o@x".toList⟩]
  tenantMembers := [⟨.ofNat 1, ['u']⟩]
  workspaces := [⟨.ofNat 2, .ofNat 1⟩]
  workspaceMembers := [⟨.ofNat 2, ['u'], "ADMIN".toList⟩]
  documents := []
  documentShares := []
  chatSessions := [⟨.ofNat 2, ['u']⟩]
  auditEvents := [⟨some ['u'], some (.ofNat 1), none, none⟩]
  failure _ := none

def ownerTuples : List TupleText :=
  [⟨fgaUser ['u'], "owner".toList, tenantObject (.ofNat 1)⟩,
    ⟨fgaUser ['u'], "admin".toList, workspaceObject (.ofNat 2)⟩]

def ownerWorld : World where
  db := ownerDb
  getUserById id := .ok (if id = ['u'] then some ownerAccount else none)
  getUsersByEmailExact _ := .ok [ownerAccount]
  checkFga user relation object := .ok (ownerTuples.contains ⟨user, relationText relation, object⟩)
  listAllTuples := .ok ownerTuples
  tables := Lowercase.asciiTables
  order := id
  order_perm _ := .refl _

theorem report_exit_code_exact_owner : Consistent ownerWorld ⟨none, none, false⟩ true := by
  have hbars : ∀ tuples, ownerWorld.listAllTuples = .ok tuples → ∀ t ∈ tuples, '|' ∉ t.object := by
    intro tuples heq
    cases heq
    decide +kernel
  have hexit : reportExitCode
      (runIdentityConsistencyReport ownerWorld ⟨none, none, false⟩) true = 0 := by decide +kernel
  exact (report_exit_code_exact hbars).1.mp hexit

end Sample

end GmragApi.IdentityReport
