import Dbms.Auth.Rbac

/-! What each change of the users, groups and grants does to a check. -/

open Dbms.Core

namespace Dbms.Auth

namespace Rbac

variable {r : Rbac} {user db : Text} {p : Perm}

/-- The keys of a grant that concern the user: the user's own and those of the user's groups. -/
def Concerns (r : Rbac) (user principal : Text) : Prop :=
  principal = userKey user ∨
    ∃ u, r.users.lookup user = some u ∧ ∃ g ∈ u.groups, principal = groupKey g

theorem check_iff : r.check user db p = true ↔ granted r.dbDefaults db p = true ∨
    ∃ ps, r.grants.lookup db = some ps ∧
      ∃ principal, r.Concerns user principal ∧ granted ps principal p = true := by
  unfold check
  rw [Bool.or_eq_true]
  apply or_congr Iff.rfl
  cases hdb : r.grants.lookup db with
  | none => simp
  | some ps =>
    cases hu : r.users.lookup user with
    | none => simp [Concerns, hu]
    | some u =>
      simp only [Concerns, hu, Bool.or_eq_true, decide_eq_true_eq]
      constructor
      · rintro (hown | ⟨g, hg, hgrant⟩)
        · exact ⟨ps, rfl, userKey user, .inl rfl, hown⟩
        · exact ⟨ps, rfl, groupKey g, .inr ⟨u, rfl, g, hg, rfl⟩, hgrant⟩
      · rintro ⟨ps', hps, principal, hconcerns, hgrant⟩
        obtain rfl := Option.some.inj hps
        rcases hconcerns with rfl | ⟨u', hu', g, hg, rfl⟩
        · exact .inl hgrant
        · obtain rfl := Option.some.inj hu'
          exact .inr ⟨g, hg, hgrant⟩

theorem granted_insert_of_ne {m : Finmap fun _ : Text => Nat} {key other : Text} {mask : Nat}
    (h : other ≠ key) : granted (m.insert key mask) other p = granted m other p := by
  unfold granted
  rw [Finmap.lookup_insert_of_ne _ h]

theorem check_grant {d principal : Text} {mask : Nat}
    (h : ¬(db = d ∧ r.Concerns user principal)) (hno : r.check user db p = false) :
    (r.grant d principal mask).check user db p = false := by
  rw [← Bool.not_eq_true] at hno ⊢
  intro hyes
  apply hno
  rw [check_iff] at hyes ⊢
  rcases hyes with hdef | ⟨ps, hps, key, hkey, hgrant⟩
  · exact .inl hdef
  right
  by_cases hdb : db = d
  · subst hdb
    have hne : key ≠ principal := fun heq => h ⟨rfl, heq ▸ hkey⟩
    have hps' : ps = ((r.grants.lookup db).getD ∅).insert principal
        (((((r.grants.lookup db).getD ∅).lookup principal).getD 0) ||| mask) :=
      (Option.some.inj ((Finmap.lookup_insert _).symm.trans hps)).symm
    rw [hps', granted_insert_of_ne hne] at hgrant
    cases hold : r.grants.lookup db with
    | none =>
      rw [hold] at hgrant
      cases hgrant
    | some old =>
      rw [hold] at hgrant
      exact ⟨old, rfl, key, hkey, hgrant⟩
  · rw [show (r.grant d principal mask).grants.lookup db = r.grants.lookup db from
      Finmap.lookup_insert_of_ne _ hdb] at hps
    exact ⟨ps, hps, key, hkey, hgrant⟩

theorem check_createUser {pbkdf2 : Pbkdf2} {salt : Bytes} {name password : Text} {r' : Rbac}
    (h : r.createUser pbkdf2 salt name password = .ok r') (hno : r.check user db p = false) :
    r'.check user db p = false := by
  unfold createUser at h
  split at h
  · cases h
  cases h
  rw [← Bool.not_eq_true] at hno ⊢
  intro hyes
  apply hno
  rw [check_iff] at hyes ⊢
  rcases hyes with hdef | ⟨ps, hps, key, hkey, hgrant⟩
  · exact .inl hdef
  refine .inr ⟨ps, hps, key, ?_, hgrant⟩
  rcases hkey with hown | ⟨u, hu, g, hg, hkey⟩
  · exact .inl hown
  by_cases hname : user = name
  · -- a new account is in no group
    subst hname
    rw [Finmap.lookup_insert] at hu
    obtain rfl := Option.some.inj hu
    cases hg
  · rw [Finmap.lookup_insert_of_ne _ hname] at hu
    exact .inr ⟨u, hu, g, hg, hkey⟩

theorem check_createGroup {name : Text} {r' : Rbac} (h : r.createGroup name = .ok r') :
    r'.check user db p = r.check user db p := by
  unfold createGroup at h
  split at h
  · cases h
  · cases h
    rfl

theorem check_grantDefault {name : Text} (h : db ≠ name) :
    (r.grantDefaultOnNewDatabase name).check user db p = r.check user db p := by
  unfold check grantDefaultOnNewDatabase
  rw [granted_insert_of_ne h]

theorem mask_and {p q : Perm} : q.mask &&& p.mask ≠ 0 ↔ q = p := by
  cases p <;> cases q <;> decide

theorem granted_insert_or {m : Finmap fun _ : Text => Nat} {key : Text} {q : Perm} :
    granted (m.insert key ((m.lookup key).getD 0 ||| q.mask)) key p = true ↔
      granted m key p = true ∨ q = p := by
  unfold granted
  rw [Finmap.lookup_insert]
  simp only [decide_eq_true_eq, Nat.and_or_distrib_right, ne_eq, Nat.or_eq_zero_iff, not_and_or]
  cases m.lookup key with
  | none => simpa using mask_and
  | some old => simpa using or_congr Iff.rfl mask_and

theorem check_grant_iff {d principal : Text} {q : Perm} :
    (r.grant d principal q.mask).check user db p = true ↔
      r.check user db p = true ∨ db = d ∧ r.Concerns user principal ∧ q = p := by
  constructor
  · intro hyes
    by_cases hno : r.check user db p = true
    · exact .inl hno
    -- A grant that is of no concern here changes no answer; one that is may have set another bit.
    by_cases hother : db = d ∧ r.Concerns user principal
    · refine .inr ⟨hother.1, hother.2, ?_⟩
      obtain ⟨rfl, hconcerns⟩ := hother
      rw [check_iff] at hyes hno
      rcases hyes with hdef | ⟨ps, hps, key, hkey, hgrant⟩
      · exact absurd (.inl hdef) hno
      obtain rfl := Option.some.inj ((Finmap.lookup_insert _).symm.trans hps)
      have hold : granted ((r.grants.lookup db).getD ∅) key p = true → False := by
        intro h
        apply hno
        cases hlook : r.grants.lookup db with
        | none =>
          rw [hlook] at h
          cases h
        | some old =>
          rw [hlook] at h
          exact .inr ⟨old, rfl, key, hkey, h⟩
      by_cases heq : key = principal
      · subst heq
        exact (granted_insert_or.mp hgrant).resolve_left hold
      · rw [granted_insert_of_ne heq] at hgrant
        exact (hold hgrant).elim
    · exact absurd hyes (by rw [check_grant hother (Bool.not_eq_true _ ▸ hno)]; decide)
  · rintro (hyes | ⟨rfl, hconcerns, rfl⟩)
    · rw [check_iff] at hyes ⊢
      rcases hyes with hdef | ⟨ps, hps, key, hkey, hgrant⟩
      · exact .inl hdef
      right
      by_cases hdb : db = d
      · subst hdb
        refine ⟨_, Finmap.lookup_insert _, key, hkey, ?_⟩
        rw [hps, Option.getD_some]
        by_cases heq : key = principal
        · subst heq
          exact granted_insert_or.mpr (.inl hgrant)
        · rwa [granted_insert_of_ne heq]
      · exact ⟨ps, (Finmap.lookup_insert_of_ne _ hdb).trans hps, key, hkey, hgrant⟩
    · rw [check_iff]
      exact .inr ⟨_, Finmap.lookup_insert _, principal, hconcerns, granted_insert_or.mpr (.inr rfl)⟩

theorem check_createUser_eq {pbkdf2 : Pbkdf2} {salt : Bytes} {name password : Text} {r' : Rbac}
    (h : r.createUser pbkdf2 salt name password = .ok r') : r'.check user db p = r.check user db p := by
  unfold createUser at h
  split at h
  · cases h
  rename_i hnew
  cases h
  unfold check
  by_cases hname : user = name
  · subst hname
    rw [Finmap.lookup_insert, Finmap.lookup_eq_none.mpr hnew]
    simp
  · rw [Finmap.lookup_insert_of_ne _ hname]

theorem check_grantDefault_self : (r.grantDefaultOnNewDatabase db).check user db p = true := by
  rw [check_iff]
  left
  unfold granted grantDefaultOnNewDatabase
  rw [Finmap.lookup_insert]
  cases p <;> decide

end Rbac
end Dbms.Auth
