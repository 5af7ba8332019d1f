import Dbms.Core.Journaled
import Dbms.Exec.Effect
import Dbms.Exec.Escalation

/-! What the journals have after a run. -/

open Dbms.Core Dbms.Sql

namespace Dbms.Exec

/-- What a call appends to a journal: a mutating statement that is answered with `ok` and is no
REVERT goes to the journal of one database. -/
def Call.record (W : World) (c : Call) (ex : Executor) : Option JournalRecord :=
  match Parser.parse (statementText c.request.sql ++ [' ']) with
  | .error _ => none
  | .ok (st, _) =>
    let db := journalDb ex.catalog (c.outcome W ex).state.catalog st
    if (c.outcome W ex).ok && isMutating st && !c.request.skipJournal && !isRevert st && db ≠ [] then
      some ⟨(c.ticks []).nowUs, db, c.request.sql⟩
    else none

def records (W : World) : List Call → Executor → List JournalRecord
  | [], _ => []
  | c :: cs, ex => (c.record W ex).toList ++ records W cs (c.outcome W ex).state

def recordLines (rs : List JournalRecord) : Text :=
  rs.flatMap fun r => Journal.recordLine r.tsUs r.db r.sql ++ ['\n']

def sanitized (r : JournalRecord) : JournalRecord :=
  ⟨r.tsUs, Journal.sanitizeLine r.db, Journal.sanitizeLine r.sql⟩

/-- The journals are where they were, and have what they had. -/
structure SameFiles (ex ex' : Executor) : Prop where
  files : ex'.files = ex.files
  dataDir : ex'.dataDir = ex.dataDir

section
variable {W : World} {ticks : List Nat → Tick} {tick : Tick} {allow : Bool} {ex ex' : Executor}
  {st : Statement} {cs : List Call} {d : Text}

theorem SameFiles.trans {ex'' : Executor} (h : SameFiles ex ex') (h' : SameFiles ex' ex'') :
    SameFiles ex ex'' := ⟨h'.files.trans h.files, h'.dataDir.trans h.dataDir⟩

theorem ifAllowed_files {k : ExecResult × Executor} (h : SameFiles ex k.2) :
    SameFiles ex (ifAllowed allow ex k).2 :=
  ifAllowed_cases (P := SameFiles ex) ⟨rfl, rfl⟩ fun _ => h

theorem withCatalog_files (ex : Executor) (r : Except Text Catalog) :
    SameFiles ex (withCatalog ex r).2 := by
  cases r <;> exact ⟨rfl, rfl⟩

theorem withRbac_files (r : Except Text Auth.Rbac) : SameFiles ex (withRbac ex r).2 := by
  cases r <;> exact ⟨rfl, rfl⟩

theorem after_files (e : Execution) : SameFiles e.before (e.after W) := by
  obtain ⟨st, allow, tick, ex⟩ := e
  cases st with
  | createDatabase name =>
    apply ifAllowed_files
    split <;> exact ⟨rfl, rfl⟩
  | dropDatabase name => exact ifAllowed_files (withCatalog_files _ _)
  | use name => exact withCatalog_files _ _
  | createTable table columns =>
    apply ifAllowed_files
    split
    · exact ⟨rfl, rfl⟩
    · have hsame := fun pool r => withCatalog_files { ex with pool := pool } r
      exact ⟨(hsame _ _).files, (hsame _ _).dataDir⟩
  | dropTable table =>
    apply ifAllowed_files
    split
    · exact ⟨rfl, rfl⟩
    · exact withCatalog_files _ _
  | insert | update | delete =>
    apply ifAllowed_files
    split <;> exact ⟨rfl, rfl⟩
  | select items table w =>
    show SameFiles ex (execSelect W tick ex items table w).2
    unfold execSelect
    split
    · exact ⟨rfl, rfl⟩
    · split <;> exact ⟨rfl, rfl⟩
  | authLogin user password =>
    show SameFiles ex (execAuthLogin W tick ex user password).2
    unfold execAuthLogin
    split <;> exact ⟨rfl, rfl⟩
  | authCreateUser | authCreateGroup | authGrant => exact withRbac_files _
  | revert hint ts =>
    unfold Execution.after
    dsimp only
    split
    · rename_i hp
      obtain ⟨db, -, -, -, -, -, -, rfl⟩ := prepareRevert_ok hp
      exact ⟨rfl, rfl⟩
    · exact ⟨rfl, rfl⟩

theorem execStatement_files (W : World) (ticks : List Nat → Tick) (n : Nat) (path : List Nat)
    (st : Statement) (allow : Bool) (ex : Executor) :
    SameFiles ex (execStatement W ticks n path st allow ex).state := by
  have hT : Composes W fun ex _ ex' => SameFiles ex ex' :=
    ⟨fun _ => ⟨rfl, rfl⟩, fun h h' => h.trans h', after_files⟩
  exact hT.statement ticks n path st allow ex

theorem authenticate_files {r : Request} (h : authenticate W ticks r.jwt ex = .ok ex') :
    SameFiles ex ex' := by
  obtain ⟨u, rfl⟩ := authenticate_state h
  exact ⟨rfl, rfl⟩

theorem outcome_failed_files {c : Call} (h : (c.outcome W ex).ok = false) :
    c.record W ex = none ∧ SameFiles ex (c.outcome W ex).state := by
  constructor
  · unfold Call.record
    split
    · rfl
    · simp [h]
  unfold Call.outcome execute at h ⊢
  cases hauth : authenticate W c.ticks c.request.jwt ex with
  | error e => cases e <;> exact ⟨rfl, rfl⟩
  | ok ex₁ =>
    have hfiles := authenticate_files hauth
    rw [hauth] at h
    dsimp only at h ⊢
    cases hparse : Parser.parse (statementText c.request.sql ++ [' ']) with
    | error e => cases e <;> exact hfiles
    | ok p =>
      rw [hparse] at h
      dsimp only at h ⊢
      cases hgate : forbidden ex₁ p.1 with
      | some m => exact hfiles
      | none =>
        rw [hgate] at h
        have hrun := hfiles.trans (execStatement_files W c.ticks c.depth [] p.1
          c.request.allowMutations ex₁)
        dsimp only at h ⊢
        cases hex : execStatement W c.ticks c.depth [] p.1 c.request.allowMutations ex₁ with
        | done res ex₂ =>
          rw [hex] at h hrun
          unfold conclude at h ⊢
          dsimp only at h ⊢
          split
          · rename_i hdue
            rw [if_pos hdue] at h
            split
            · rename_i hjournal
              rw [hjournal] at h
              simp only [Bool.and_eq_true] at hdue
              exact absurd hdue.1.1.1 (Bool.eq_false_iff.mp h)
            · exact hrun
          · exact hrun
        | _ =>
          rw [hex] at hrun
          exact hrun

theorem journalPathFor_inj {d' : Text} (h : ex.journalPathFor d = ex.journalPathFor d') : d = d' := by
  unfold Executor.journalPathFor at h
  exact List.append_cancel_left (List.append_cancel_right h)

theorem maybeJournal_all (sql db : Text) (ex : Executor) (hall : tick.journal = some .all) :
    ∃ files, ex.maybeJournal tick sql false true db = some { ex with files := files } ∧
      ∀ path, files path = ex.files path ++
        recordLines ((if db ≠ [] then some ⟨tick.nowUs, db, sql⟩ else none).toList.filter fun r =>
          ex.journalPathFor r.db = path) := by
  unfold Executor.maybeJournal
  by_cases hdb : db = []
  · exact ⟨ex.files, by simp [hdb], by simp [hdb, recordLines]⟩
  · rw [if_neg (by simpa using hdb), if_pos hdb, hall]
    refine ⟨_, rfl, fun path => ?_⟩
    by_cases hpath : ex.journalPathFor db = path
    · subst hpath
      simp [Journal.append_eq, recordLines]
    · rw [Function.update_of_ne (Ne.symm hpath)]
      simp [hpath, recordLines]

theorem conclude_files {res : ExecResult} {ex₂ : Executor} {r : Request} {before : Catalog}
    (hall : (ticks []).journal = some .all) (hres : res.ok = true)
    (h : conclude ticks r before st (.done res ex₂) = .done res ex') :
    ex'.dataDir = ex₂.dataDir ∧ ∀ path, ex'.files path = ex₂.files path ++
      recordLines ((if isMutating st && !r.skipJournal && !isRevert st &&
          journalDb before ex₂.catalog st ≠ [] then
            some ⟨(ticks []).nowUs, journalDb before ex₂.catalog st, r.sql⟩
          else none).toList.filter fun rec => ex₂.journalPathFor rec.db = path) := by
  unfold conclude at h
  dsimp only at h
  split at h
  · rename_i hdue
    simp only [hres, Bool.true_and, Bool.and_eq_true, Bool.not_eq_true'] at hdue
    obtain ⟨⟨hmut, hskip⟩, hrevert⟩ := hdue
    obtain ⟨files, hsome, hfiles⟩ := maybeJournal_all r.sql
      (journalDb before ex₂.catalog st) ex₂ hall
    rw [hskip, hmut, hsome] at h
    cases h
    exact ⟨rfl, fun path => by simpa [hmut, hskip, hrevert] using hfiles path⟩
  · rename_i hdue
    cases h
    rw [if_neg]
    · exact ⟨rfl, fun path => (List.append_nil _).symm⟩
    · simp_all

/-- The files after a call. -/
theorem outcome_files {c : Call} (hall : (c.ticks []).journal = some .all) (ex : Executor) :
    (c.outcome W ex).state.dataDir = ex.dataDir ∧ ∀ path, (c.outcome W ex).state.files path =
      ex.files path ++ recordLines ((c.record W ex).toList.filter fun r =>
        ex.journalPathFor r.db = path) := by
  cases hok : (c.outcome W ex).ok with
  | false =>
    obtain ⟨hrecord, hfiles, hdir⟩ := outcome_failed_files hok
    rw [hrecord, hfiles]
    exact ⟨hdir, fun path => (List.append_nil _).symm⟩
  | true =>
    cases hrun : execute W c.ticks c.depth c.request ex with
    | done res ex' =>
      have hout : c.outcome W ex = .done res ex' := hrun
      have hres : res.ok = true := by rwa [hout] at hok
      rcases execute_done hrun with ⟨hfail, -⟩ | ⟨ex₁, st, rest, ex₂, hauth, hparse, -, hex, hend⟩
      · rw [hfail] at hres
        cases hres
      have hfiles : SameFiles ex ex₂ := by
        have hstep := execStatement_files W c.ticks c.depth [] st c.request.allowMutations ex₁
        rw [hex] at hstep
        exact (authenticate_files hauth).trans hstep
      have hcat : ex'.catalog = ex₂.catalog := by
        obtain ⟨ex₃, heq, files, rfl⟩ := conclude_eq_done hend
        obtain ⟨-, rfl⟩ := Outcome.done.inj heq
        rfl
      -- The line is due for the database that is current before the statement, or that it names.
      have hrecord : c.record W ex = if isMutating st && !c.request.skipJournal && !isRevert st &&
          journalDb ex₁.catalog ex₂.catalog st ≠ [] then
            some ⟨(c.ticks []).nowUs, journalDb ex₁.catalog ex₂.catalog st, c.request.sql⟩
          else none := by
        obtain ⟨u, rfl⟩ := authenticate_state hauth
        unfold Call.record
        rw [hparse, hout]
        simp only [Outcome.state, hcat, Outcome.ok, hres, Bool.true_and]
      have hpath : ∀ d, ex₂.journalPathFor d = ex.journalPathFor d := by
        intro d
        unfold Executor.journalPathFor
        rw [hfiles.2]
      obtain ⟨hdir', hfiles'⟩ := conclude_files hall hres hend
      rw [hout, hrecord]
      refine ⟨hdir'.trans hfiles.2, fun path => ?_⟩
      show ex'.files path = _
      rw [hfiles', hfiles.1]
      simp only [hpath]
    | _ =>
      rw [show c.outcome W ex = _ from hrun] at hok
      cases hok

theorem run_files (hall : ∀ c ∈ cs, (c.ticks []).journal = some .all) (ex : Executor) :
    (runAll W cs ex).dataDir = ex.dataDir ∧ ∀ path, (runAll W cs ex).files path =
      ex.files path ++ recordLines ((records W cs ex).filter fun r =>
        ex.journalPathFor r.db = path) := by
  induction cs generalizing ex with
  | nil => exact ⟨rfl, fun path => (List.append_nil _).symm⟩
  | cons c cs ih =>
    obtain ⟨hc, hcs⟩ := List.forall_mem_cons.mp hall
    obtain ⟨hdir, hfiles⟩ := outcome_files (W := W) hc ex
    obtain ⟨hdir', hfiles'⟩ := ih hcs (c.outcome W ex).state
    refine ⟨hdir'.trans hdir, fun path => ?_⟩
    have hpath : ∀ d, (c.outcome W ex).state.journalPathFor d = ex.journalPathFor d := by
      intro d
      unfold Executor.journalPathFor
      rw [hdir]
    rw [runAll, hfiles', hfiles, records, List.filter_append]
    simp only [hpath, recordLines, List.flatMap_append, List.append_assoc]

theorem read_recordLines {file : Text} (hfile : Journal.Complete file) {rs : List JournalRecord}
    (h : ∀ r ∈ rs, r.tsUs < 2 ^ 64) :
    Journal.read (file ++ recordLines rs) = Journal.read file ++ rs.map sanitized := by
  induction rs generalizing file with
  | nil => simp [recordLines]
  | cons r rs ih =>
    have hr : Journal.read (Journal.append .all file r.tsUs r.db r.sql) =
        Journal.read file ++ [sanitized r] := Journal.read_append hfile (h r List.mem_cons_self)
    have hstep := ih (Journal.complete_append file r.tsUs r.db r.sql) fun r' hr' =>
      h r' (List.mem_cons_of_mem _ hr')
    rw [hr, List.append_assoc] at hstep
    rw [show file ++ recordLines (r :: rs) = Journal.append .all file r.tsUs r.db r.sql ++ recordLines rs
      by simp [recordLines, Journal.append_eq]]
    exact hstep

theorem records_clock (hclock : ∀ c ∈ cs, (c.ticks []).nowUs < 2 ^ 64) :
    ∀ r ∈ records W cs ex, r.tsUs < 2 ^ 64 := by
  induction cs generalizing ex with
  | nil => exact fun r hr => by cases hr
  | cons c cs ih =>
    rw [List.forall_mem_cons] at hclock
    refine List.forall_mem_append.mpr ⟨fun r hr => ?_, ih hclock.2⟩
    have hr' := Option.mem_toList.mp hr
    unfold Call.record at hr'
    split at hr'
    · cases hr'
    · dsimp only at hr'
      split at hr'
      · cases hr'
        exact hclock.1
      · cases hr'

theorem journal_run (hall : ∀ c ∈ cs, (c.ticks []).journal = some .all) (ex : Executor) (d : Text) :
    (runAll W cs ex).files (ex.journalPathFor d) = ex.files (ex.journalPathFor d) ++
      recordLines ((records W cs ex).filter fun r => r.db = d) := by
  rw [(run_files (W := W) hall ex).2]
  refine congrArg (fun rs => _ ++ recordLines rs) (List.filter_congr fun r _ => ?_)
  exact decide_eq_decide.mpr ⟨journalPathFor_inj, fun h => by rw [h]⟩

theorem read_run (hall : ∀ c ∈ cs, (c.ticks []).journal = some .all)
    (hclock : ∀ c ∈ cs, (c.ticks []).nowUs < 2 ^ 64) {d : Text}
    (hfile : Journal.Complete (ex.files (ex.journalPathFor d))) :
    Journal.read ((runAll W cs ex).files (ex.journalPathFor d)) =
      Journal.read (ex.files (ex.journalPathFor d)) ++
        ((records W cs ex).filter fun r => r.db = d).map sanitized := by
  rw [journal_run hall]
  exact read_recordLines hfile fun r hr => records_clock hclock r (List.mem_of_mem_filter hr)

/-- If every line is written in full, so it is with every journal, and no other file is written. -/
theorem run_journals (cs : List Call) (ex : Executor) (d : Text)
    (hall : ∀ c ∈ cs, (c.ticks []).journal = some .all)
    (hclock : ∀ c ∈ cs, (c.ticks []).nowUs < 2 ^ 64)
    (hfile : Journal.Complete (ex.files (ex.journalPathFor d))) :
    (runAll W cs ex).files (ex.journalPathFor d) = ex.files (ex.journalPathFor d) ++
        recordLines ((records W cs ex).filter fun r => r.db = d) ∧
      Journal.read ((runAll W cs ex).files (ex.journalPathFor d)) =
        Journal.read (ex.files (ex.journalPathFor d)) ++
          ((records W cs ex).filter fun r => r.db = d).map sanitized ∧
      ∀ path, (∀ d, ex.journalPathFor d ≠ path) → (runAll W cs ex).files path = ex.files path := by
  refine ⟨journal_run hall ex d, read_run hall hclock hfile, fun path hpath => ?_⟩
  rw [(run_files hall ex).2 path, List.filter_eq_nil_iff.mpr (by simp [hpath])]
  exact List.append_nil _

theorem run_journals_create :
    (runAll sampleWorld [sampleCall 5 "CREATE DATABASE d"] sampleStart).files
        (sampleStart.journalPathFor ['d']) = sampleStart.files (sampleStart.journalPathFor ['d']) ++
          recordLines ((records sampleWorld [sampleCall 5 "CREATE DATABASE d"] sampleStart).filter
            fun r => r.db = ['d']) ∧
      Journal.read ((runAll sampleWorld [sampleCall 5 "CREATE DATABASE d"] sampleStart).files
          (sampleStart.journalPathFor ['d'])) =
        Journal.read (sampleStart.files (sampleStart.journalPathFor ['d'])) ++
          ((records sampleWorld [sampleCall 5 "CREATE DATABASE d"] sampleStart).filter
            fun r => r.db = ['d']).map sanitized ∧
      ∀ path, (∀ d, sampleStart.journalPathFor d ≠ path) →
        (runAll sampleWorld [sampleCall 5 "CREATE DATABASE d"] sampleStart).files path =
          sampleStart.files path :=
  run_journals _ _ _ (List.forall_mem_singleton.mpr rfl) (List.forall_mem_singleton.mpr (by decide))
    (.inl rfl)

end
end Dbms.Exec
