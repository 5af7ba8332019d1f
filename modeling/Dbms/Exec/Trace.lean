import Dbms.Exec.Basic

/-! The statements that requests execute, in the order they are executed, the records of a REVERT
included. -/

open Dbms.Core Dbms.Lib Dbms.Sql Dbms.Auth

namespace Dbms.Exec

/-- A statement with what it finds. A REVERT stands for what it does before its first record. -/
structure Execution where
  statement : Statement
  allow : Bool
  tick : Tick
  before : Executor

def Execution.after (W : World) (e : Execution) : Executor :=
  match e.statement with
  | .revert hint ts =>
    match prepareRevert e.tick e.allow hint ts e.before with
    | .ok (_, _, _, ex) => ex
    | .error _ => e.before
  | st => (execSimple W e.tick e.allow e.before st).2

def replayTrace (exec : Nat → Statement → Executor → Outcome)
    (sub : Nat → Statement → Executor → List Execution) (db : Held) (ts : Nat) :
    Nat → List JournalRecord → Executor → List Execution
  | _, [], _ => []
  | i, r :: rs, ex =>
    if ¬ex.catalog.Alive db.key db.id then []
    else if r.db ≠ db.name || ts < r.tsUs then replayTrace exec sub db ts (i + 1) rs ex
    else
      match Parser.parse (r.sql ++ [' ']) with
      | .error _ => []
      | .ok (st, _) => sub i st ex ++
        match exec i st ex with
        | .done res ex => if res.ok then replayTrace exec sub db ts (i + 1) rs ex else []
        | _ => []

def statementTrace (W : World) (ticks : List Nat → Tick) :
    Nat → List Nat → Statement → Bool → Executor → List Execution
  | n, path, .revert hint ts, allow, ex => ⟨.revert hint ts, allow, ticks path, ex⟩ ::
    match prepareRevert (ticks path) allow hint ts ex with
    | .error _ => []
    | .ok (db, ts, recs, ex) =>
      match n with
      | 0 => []
      | n + 1 => replayTrace (fun i st ex => execStatement W ticks n (path ++ [i]) st true ex)
          (fun i st ex => statementTrace W ticks n (path ++ [i]) st true ex) db ts 0 recs ex
  | _, path, st, allow, ex => [⟨st, allow, ticks path, ex⟩]

/-- What `execute` executes. -/
def callTrace (W : World) (c : Call) (ex : Executor) : List Execution :=
  match authenticate W c.ticks c.request.jwt ex with
  | .error _ => []
  | .ok ex =>
    match Parser.parse (statementText c.request.sql ++ [' ']) with
    | .error _ => []
    | .ok (st, _) =>
      match forbidden ex st with
      | some _ => []
      | none => statementTrace W c.ticks c.depth [] st c.request.allowMutations ex

def trace (W : World) : List Call → Executor → List Execution
  | [], _ => []
  | c :: cs, ex => callTrace W c ex ++ trace W cs (c.outcome W ex).state

theorem trace_append (W : World) (cs cs' : List Call) (ex : Executor) :
    trace W (cs ++ cs') ex = trace W cs ex ++ trace W cs' (runAll W cs ex) := by
  induction cs generalizing ex with
  | nil => rfl
  | cons c cs ih => simp only [List.cons_append, trace, runAll, ih, List.append_assoc]

/-- A relation of the states before and after some statements that follows from its instances for
single ones. -/
structure Composes (W : World) (T : Executor → List Execution → Executor → Prop) : Prop where
  refl : ∀ ex, T ex [] ex
  trans : ∀ {ex ex' ex'' es es'}, T ex es ex' → T ex' es' ex'' → T ex (es ++ es') ex''
  step : ∀ e : Execution, T e.before [e] (e.after W)

section
variable {W : World} {ticks : List Nat → Tick} {T : Executor → List Execution → Executor → Prop}
  {n : Nat} {path : List Nat} {allow : Bool} {ex : Executor} {st : Statement}

theorem statementTrace_simple (h : isRevert st = false) :
    statementTrace W ticks n path st allow ex = [⟨st, allow, ticks path, ex⟩] := by
  cases st with
  | revert hint ts => cases h
  | _ => cases n <;> rfl

@[simp] theorem after_simple {e : Execution} (h : isRevert e.statement = false) :
    e.after W = (execSimple W e.tick e.allow e.before e.statement).2 := by
  obtain ⟨st, allow, tick, ex⟩ := e
  cases st with
  | revert hint ts => cases h
  | _ => rfl

theorem Composes.replay (hT : Composes W T) {exec : Nat → Statement → Executor → Outcome}
    {sub : Nat → Statement → Executor → List Execution} {db : Held} {ts i : Nat}
    {recs : List JournalRecord}
    (hexec : ∀ i st ex, T ex (sub i st ex) (exec i st ex).state) :
    T ex (replayTrace exec sub db ts i recs ex) (replay exec db ts i recs ex).state := by
  induction recs generalizing i ex with
  | nil => exact hT.refl ex
  | cons r rs ih =>
    unfold Exec.replay replayTrace
    by_cases hgone : ¬ex.catalog.Alive db.key db.id
    · rw [if_pos hgone, if_pos hgone]
      exact hT.refl ex
    rw [if_neg hgone, if_neg hgone]
    by_cases hskip : (r.db ≠ db.name || ts < r.tsUs) = true
    · rw [if_pos hskip, if_pos hskip]
      exact ih
    rw [if_neg hskip, if_neg hskip]
    cases hparse : Parser.parse (r.sql ++ [' ']) with
    | error e => cases e <;> exact hT.refl ex
    | ok p =>
      obtain ⟨st, rest⟩ := p
      have hstep := hexec i st ex
      simp only
      cases hrun : exec i st ex with
      | done res ex' =>
        rw [hrun] at hstep
        cases hok : res.ok with
        | false => simpa [hok, Outcome.state] using hstep
        | true =>
          simp only [hok, if_true]
          exact hT.trans hstep ih
      | _ =>
        rw [hrun] at hstep
        simpa using hstep

theorem Composes.statement (hT : Composes W T) (ticks : List Nat → Tick) (n : Nat)
    (path : List Nat) (st : Statement) (allow : Bool) (ex : Executor) :
    T ex (statementTrace W ticks n path st allow ex)
      (execStatement W ticks n path st allow ex).state := by
  -- Without depth left, a REVERT gets as far as its first record.
  induction n generalizing path st allow ex with
  | zero =>
    cases hr : isRevert st with
    | false =>
      rw [execStatement_simple hr, statementTrace_simple hr]
      have hstep := hT.step ⟨st, allow, ticks path, ex⟩
      rwa [after_simple hr] at hstep
    | true =>
      cases st with
      | revert hint ts =>
        have hstep := hT.step ⟨.revert hint ts, allow, ticks path, ex⟩
        simp only [Execution.after] at hstep
        rw [statementTrace, execStatement]
        cases hp : prepareRevert (ticks path) allow hint ts ex <;> rw [hp] at hstep <;> exact hstep
      | _ => cases hr
  | succ n ih =>
    cases hr : isRevert st with
    | false =>
      rw [execStatement_simple hr, statementTrace_simple hr]
      have hstep := hT.step ⟨st, allow, ticks path, ex⟩
      rwa [after_simple hr] at hstep
    | true =>
      cases st with
      | revert hint ts =>
        have hstep := hT.step ⟨.revert hint ts, allow, ticks path, ex⟩
        simp only [Execution.after] at hstep
        rw [statementTrace, execStatement]
        cases hp : prepareRevert (ticks path) allow hint ts ex with
        | error err =>
          rw [hp] at hstep
          exact hstep
        | ok p =>
          rw [hp] at hstep
          exact hT.trans hstep (hT.replay fun i st ex => ih _ st true ex)
      | _ => cases hr

theorem Composes.call (hT : Composes W T) (huser : ∀ ex u, T ex [] { ex with rbacUser := u })
    (hfiles : ∀ ex files, T ex [] { ex with files := files }) (c : Call) (ex : Executor) :
    T ex (callTrace W c ex) (c.outcome W ex).state := by
  unfold Call.outcome execute callTrace
  cases hauth : authenticate W c.ticks c.request.jwt ex with
  | error e => cases e <;> exact hT.refl ex
  | ok ex₁ =>
    have hM : T ex [] ex₁ := by
      obtain ⟨u, rfl⟩ := authenticate_state hauth
      exact huser ex u
    simp only
    cases hparse : Parser.parse (statementText c.request.sql ++ [' ']) with
    | error e => cases e <;> exact hM
    | ok p =>
      obtain ⟨st, rest⟩ := p
      simp only
      cases hgate : forbidden ex₁ st with
      | some m => exact hM
      | none =>
        have hrun := hT.trans hM (hT.statement c.ticks c.depth [] st c.request.allowMutations ex₁)
        simp only [List.nil_append] at hrun ⊢
        obtain ⟨files, hstate⟩ := conclude_state c.ticks c.request ex₁.catalog st
          (execStatement W c.ticks c.depth [] st c.request.allowMutations ex₁)
        rw [hstate, ← List.append_nil (statementTrace W c.ticks c.depth [] st
          c.request.allowMutations ex₁)]
        exact hT.trans hrun (hfiles _ files)

theorem Composes.run (hT : Composes W T) (huser : ∀ ex u, T ex [] { ex with rbacUser := u })
    (hfiles : ∀ ex files, T ex [] { ex with files := files }) (cs : List Call) (ex : Executor) :
    T ex (trace W cs ex) (runAll W cs ex) := by
  induction cs generalizing ex with
  | nil => exact hT.refl ex
  | cons c cs ih => exact hT.trans (hT.call huser hfiles c ex) (ih _)

end

section
variable {W : World} {P : Statement → Prop}

theorem replayTrace_statements {exec : Nat → Statement → Executor → Outcome}
    {sub : Nat → Statement → Executor → List Execution}
    (hP : ∀ src st rest, Parser.parse src = .ok (st, rest) → P st)
    (hsub : ∀ i st ex, P st → ∀ e ∈ sub i st ex, P e.statement) (db : Held) (ts i : Nat)
    (recs : List JournalRecord) (ex : Executor) :
    ∀ e ∈ replayTrace exec sub db ts i recs ex, P e.statement := by
  induction recs generalizing i ex with
  | nil => exact fun e he => by cases he
  | cons r rs ih =>
    unfold replayTrace
    split
    · exact fun e he => by cases he
    split
    · exact ih (i + 1) ex
    split
    · exact fun e he => by cases he
    · rename_i st rest hparse
      refine List.forall_mem_append.mpr ⟨hsub i st ex (hP _ _ _ hparse), ?_⟩
      split
      · split
        · exact ih (i + 1) _
        · exact fun e he => by cases he
      · exact fun e he => by cases he

theorem statementTrace_statements {ticks : List Nat → Tick}
    (hP : ∀ src st rest, Parser.parse src = .ok (st, rest) → P st) (n : Nat) (path : List Nat)
    (st : Statement) (allow : Bool) (ex : Executor) (hst : P st) :
    ∀ e ∈ statementTrace W ticks n path st allow ex, P e.statement := by
  induction n generalizing path st allow ex with
  | zero =>
    cases hr : isRevert st with
    | false =>
      rw [statementTrace_simple hr]
      exact List.forall_mem_singleton.mpr hst
    | true =>
      cases st with
      | revert hint ts =>
        rw [statementTrace]
        refine List.forall_mem_cons.mpr ⟨hst, ?_⟩
        split <;> exact fun e he => by cases he
      | _ => cases hr
  | succ n ih =>
    cases hr : isRevert st with
    | false =>
      rw [statementTrace_simple hr]
      exact List.forall_mem_singleton.mpr hst
    | true =>
      cases st with
      | revert hint ts =>
        rw [statementTrace]
        refine List.forall_mem_cons.mpr ⟨hst, ?_⟩
        split
        · exact fun e he => by cases he
        · exact replayTrace_statements hP (fun i st ex => ih _ st true ex) _ _ _ _ _
      | _ => cases hr

/-- What holds of every statement that can be parsed holds of those executed in a run. -/
theorem trace_statements (hP : ∀ src st rest, Parser.parse src = .ok (st, rest) → P st)
    (cs : List Call) (ex : Executor) : ∀ e ∈ trace W cs ex, P e.statement := by
  induction cs generalizing ex with
  | nil => exact fun e he => by cases he
  | cons c cs ih =>
    refine List.forall_mem_append.mpr ⟨?_, ih _⟩
    unfold callTrace
    split
    · exact fun e he => by cases he
    split
    · exact fun e he => by cases he
    rename_i st rest hparse
    split
    · exact fun e he => by cases he
    · exact statementTrace_statements hP _ _ st _ _ (hP _ _ _ hparse)

end

section
variable {W : World} {M I : Executor → Prop} {Q : Execution → Prop} {cs : List Call} {ex : Executor}

theorem trace_brings (hstep : ∀ e : Execution, M (e.after W) ↔ M e.before ∨ Q e)
    (huser : ∀ ex u, M { ex with rbacUser := u } ↔ M ex)
    (hfiles : ∀ ex files, M { ex with files := files } ↔ M ex) :
    M (runAll W cs ex) ↔ M ex ∨ ∃ e ∈ trace W cs ex, Q e := by
  apply Composes.run (T := fun ex es ex' => M ex' ↔ M ex ∨ ∃ e ∈ es, Q e) ⟨_, _, _⟩
  · simp only [List.not_mem_nil, false_and, exists_false, or_false]
    exact huser
  · simp only [List.not_mem_nil, false_and, exists_false, or_false]
    exact hfiles
  · simp
  · intro ex ex' ex'' es es' h h'
    rw [h', h, or_assoc]
    simp only [List.mem_append, or_and_right, exists_or]
  · simpa using hstep

theorem trace_keeps (hstep : ∀ e : Execution, I e.before → Q e → I (e.after W))
    (huser : ∀ ex u, I ex → I { ex with rbacUser := u })
    (hfiles : ∀ ex files, I ex → I { ex with files := files })
    (hall : ∀ e ∈ trace W cs ex, Q e) (hI : I ex) : I (runAll W cs ex) := by
  have hT : Composes W fun ex es ex' => (∀ e ∈ es, Q e) → I ex → I ex' := by
    constructor
    · exact fun _ _ hI => hI
    · intro ex ex' ex'' es es' h h' hes hI
      rw [List.forall_mem_append] at hes
      exact h' hes.2 (h hes.1 hI)
    · exact fun e he hI => hstep e hI (he e List.mem_cons_self)
  exact hT.run (fun ex u _ => huser ex u) (fun ex files _ => hfiles ex files) cs ex hall hI

end
end Dbms.Exec
