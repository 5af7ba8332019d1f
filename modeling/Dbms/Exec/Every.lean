import Dbms.Exec.Basic

/-! What holds of every statement that a request executes, the records of a REVERT included, and
what these statements preserve together. -/

open Dbms.Core Dbms.Lib Dbms.Sql Dbms.Auth

namespace Dbms.Exec

/-- `Q` holds of every statement that the loop of REVERT gets to, in the state it gets there. -/
def EveryReplayed (exec : Nat → Statement → Executor → Outcome)
    (Q : Nat → Statement → Executor → Prop) (db : Held) (ts : Nat) :
    Nat → List JournalRecord → Executor → Prop
  | _, [], _ => True
  | i, r :: rs, ex =>
    if r.db ≠ db.name || ts < r.tsUs then EveryReplayed exec Q db ts (i + 1) rs ex
    else ∀ st rest, Parser.parse (r.sql ++ [' ']) = .ok (st, rest) →
      Q i st ex ∧ ∀ res ex', exec i st ex = .done res ex' → res.ok = true →
        EveryReplayed exec Q db ts (i + 1) rs ex'

/-- `Q` holds of the statement and, if it is a REVERT, of every statement it replays. Its flag is
`allow_mutations`. -/
def EveryStatement (W : World) (ticks : List Nat → Tick) (Q : Statement → Bool → Executor → Prop) :
    Nat → List Nat → Statement → Bool → Executor → Prop
  | 0, _, st, allow, ex => Q st allow ex
  | n + 1, path, st, allow, ex => Q st allow ex ∧
      ∀ hint ts db ts' recs ex', st = .revert hint ts →
        prepareRevert (ticks path) allow hint ts ex = .ok (db, ts', recs, ex') →
        EveryReplayed (fun i st ex => execStatement W ticks n (path ++ [i]) st true ex)
          (fun i st ex => EveryStatement W ticks Q n (path ++ [i]) st true ex) db ts' 0 recs ex'

def EveryRequest (W : World) (Q : Statement → Bool → Executor → Prop) (c : Call) (ex : Executor) :
    Prop :=
  ∀ ex₁ st rest, authenticate W c.ticks c.request.jwt ex = .ok ex₁ →
    Parser.parse (statementText c.request.sql ++ [' ']) = .ok (st, rest) →
    forbidden ex₁ st = none → EveryStatement W c.ticks Q c.depth [] st c.request.allowMutations ex₁

section
variable {W : World} {ticks : List Nat → Tick} {Q : Statement → Bool → Executor → Prop}
  {I : Executor → Prop} {n : Nat} {path : List Nat} {allow : Bool} {ex ex' : Executor}
  {st : Statement} {c : Call}

theorem EveryReplayed.rule {exec : Nat → Statement → Executor → Outcome}
    {R : Nat → Statement → Executor → Prop} {db : Held} {ts i : Nat} {recs : List JournalRecord}
    (hexec : ∀ i st ex, I ex → R i st ex → I (exec i st ex).state)
    (h : EveryReplayed exec R db ts i recs ex) (hI : I ex) :
    I (replay exec db ts i recs ex).state := by
  induction recs generalizing i ex with
  | nil => exact hI
  | cons r rs ih =>
    unfold EveryReplayed at h
    unfold replay
    split
    · exact hI
    split
    · rename_i hskip
      rw [if_pos hskip] at h
      exact ih h hI
    rename_i hdue
    rw [if_neg hdue] at h
    split
    · exact hI
    · exact hI
    · exact hI
    rename_i st rest hparse
    obtain ⟨hR, hrest⟩ := h st rest hparse
    have hstep := hexec i st ex hI hR
    split
    · rename_i res ex' hrun
      rw [hrun] at hstep
      split
      · rename_i hok
        exact ih (hrest res ex' hrun hok) hstep
      · exact hstep
    · exact hstep

/-- What every single statement preserves is preserved by a statement and all it replays. -/
theorem EveryStatement.rule
    (hsimple : ∀ path st allow ex, isRevert st = false → I ex → Q st allow ex →
      I (execSimple W (ticks path) allow ex st).2)
    (hprep : ∀ path allow hint ts ex db ts' recs ex', I ex →
      prepareRevert (ticks path) allow hint ts ex = .ok (db, ts', recs, ex') → I ex')
    (h : EveryStatement W ticks Q n path st allow ex) (hI : I ex) :
    I (execStatement W ticks n path st allow ex).state := by
  -- On the depth to which REVERTs may still be nested; only REVERT goes down by one.
  induction n generalizing path st allow ex with
  | zero =>
    cases hr : isRevert st with
    | false =>
      rw [execStatement_simple hr]
      exact hsimple path st allow ex hr hI h
    | true =>
      cases st with
      | revert hint ts =>
        unfold execStatement
        split
        · exact hI
        · rename_i hp
          exact hprep path allow hint ts ex _ _ _ _ hI hp
      | _ => cases hr
  | succ n ih =>
    cases hr : isRevert st with
    | false =>
      rw [execStatement_simple hr]
      exact hsimple path st allow ex hr hI h.1
    | true =>
      cases st with
      | revert hint ts =>
        unfold execStatement
        split
        · exact hI
        · rename_i db ts' recs ex' hp
          apply EveryReplayed.rule _ (h.2 hint ts db ts' recs ex' rfl hp)
          · exact hprep path allow hint ts ex _ _ _ _ hI hp
          · intro i st ex hI hst
            exact ih hst hI
      | _ => cases hr

theorem EveryRequest.rule
    (huser : ∀ ex u, I ex → I { ex with rbacUser := u })
    (hfiles : ∀ ex files, I ex → I { ex with files := files })
    (hsimple : ∀ path st allow ex, isRevert st = false → I ex → Q st allow ex →
      I (execSimple W (c.ticks path) allow ex st).2)
    (hprep : ∀ path allow hint ts ex db ts' recs ex', I ex →
      prepareRevert (c.ticks path) allow hint ts ex = .ok (db, ts', recs, ex') → I ex')
    (h : EveryRequest W Q c ex) (hI : I ex) : I (c.outcome W ex).state := by
  unfold Call.outcome execute
  split
  · exact hI
  · exact hI
  rename_i ex₁ hauth
  have hI₁ : I ex₁ := by
    obtain ⟨u, rfl⟩ := authenticate_state hauth
    exact huser ex u hI
  split
  · exact hI₁
  · exact hI₁
  · exact hI₁
  rename_i st rest hparse
  split
  · exact hI₁
  rename_i hgate
  have hrun := EveryStatement.rule hsimple hprep (h ex₁ st rest hauth hparse hgate) hI₁
  obtain ⟨files, hstate⟩ := conclude_state c.ticks c.request ex₁.catalog st
    (execStatement W c.ticks c.depth [] st c.request.allowMutations ex₁)
  rw [hstate]
  exact hfiles _ files hrun

theorem EachCall.rule {P : Call → Executor → Prop} {cs : List Call}
    (hstep : ∀ c ex, I ex → P c ex → I (c.outcome W ex).state)
    (h : EachCall W P cs ex) (hI : I ex) : I (runAll W cs ex) := by
  induction cs generalizing ex with
  | nil => exact hI
  | cons c cs ih => exact ih h.tail (hstep c ex hI h.head)

end
end Dbms.Exec
