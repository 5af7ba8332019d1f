import Mathlib.Logic.Basic

/-! Programs that read a stream of tokens through one token of lookahead and may ask an outside
conversion for an answer. -/

namespace Dbms.Lib

/-- `τ` are the tokens, `ε` the errors, `ρ` and `κ` the questions and the answers. -/
inductive Reader (τ ε ρ κ α : Type) where
  | done (a : α)
  | fail (e : ε)
  | look (k : τ → Reader τ ε ρ κ α)
  | next (p : Reader τ ε ρ κ α)
  | ask (q : ρ) (k : κ → Reader τ ε ρ κ α)

namespace Reader
variable {τ ε ρ κ σ α β : Type}

def bind : Reader τ ε ρ κ α → (α → Reader τ ε ρ κ β) → Reader τ ε ρ κ β
  | done a, f => f a
  | fail e, _ => fail e
  | look k, f => look fun t => (k t).bind f
  | next p, f => next (p.bind f)
  | ask q k, f => ask q fun a => (k a).bind f

instance : Monad (Reader τ ε ρ κ) where
  pure := done
  bind := bind

/-- `scan` gives the current token and the stream behind it. -/
def run (scan : σ → τ × σ) (answer : ρ → Except ε κ) :
    Reader τ ε ρ κ α → σ → Except ε (α × σ)
  | done a, s => .ok (a, s)
  | fail e, _ => .error e
  | look k, s => (k (scan s).1).run scan answer s
  | next p, s => p.run scan answer (scan s).2
  | ask q k, s =>
    match answer q with
    | .ok a => (k a).run scan answer s
    | .error e => .error e

section Run
variable (scan : σ → τ × σ) (answer : ρ → Except ε κ)

@[simp] theorem run_pure (a : α) (s : σ) :
    run scan answer (pure a : Reader τ ε ρ κ α) s = .ok (a, s) := rfl

@[simp] theorem run_done (a : α) (s : σ) :
    run scan answer (done a : Reader τ ε ρ κ α) s = .ok (a, s) := rfl

@[simp] theorem run_fail (e : ε) (s : σ) :
    run scan answer (fail e : Reader τ ε ρ κ α) s = .error e := rfl

theorem run_bind (p : Reader τ ε ρ κ α) (f : α → Reader τ ε ρ κ β) (s : σ) :
    run scan answer (p >>= f) s =
      match run scan answer p s with
      | .ok (a, s') => run scan answer (f a) s'
      | .error e => .error e := by
  change run scan answer (p.bind f) s = _
  induction p generalizing s with
  | done a => rfl
  | fail e => rfl
  | look k ih => exact ih _ _
  | next p ih => exact ih _
  | ask q k ih =>
    simp only [bind, run]
    cases answer q with
    | error e => rfl
    | ok a => exact ih _ _

end Run

section Asked
variable (scan : σ → τ × σ) (ideal : ρ → κ)

def asked : Reader τ ε ρ κ α → σ → List ρ
  | done _, _ => []
  | fail _, _ => []
  | look k, s => (k (scan s).1).asked s
  | next p, s => p.asked (scan s).2
  | ask q k, s => q :: (k (ideal q)).asked s

variable {scan ideal} {answer : ρ → Except ε κ} {p : Reader τ ε ρ κ α} {s : σ}

theorem run_of_asked (h : ∀ q ∈ p.asked scan ideal s, answer q = .ok (ideal q)) :
    p.run scan answer s = p.run scan (fun q => .ok (ideal q)) s := by
  induction p generalizing s with
  | done a => rfl
  | fail e => rfl
  | look k ih => exact ih _ h
  | next p ih => exact ih h
  | ask q k ih =>
    have hq := h q (List.mem_cons_self ..)
    simp only [run, hq]
    exact ih _ fun q' hq' => h q' (List.mem_cons_of_mem _ hq')

/-- A question that `answer` fails on ends the run. -/
theorem run_of_failed {e : ε} (hans : ∀ q, answer q = .ok (ideal q) ∨ answer q = .error e)
    (h : ∃ q ∈ p.asked scan ideal s, answer q = .error e) : p.run scan answer s = .error e := by
  induction p generalizing s with
  | done a =>
    obtain ⟨q, hq, -⟩ := h
    cases hq
  | fail e' =>
    obtain ⟨q, hq, -⟩ := h
    cases hq
  | look k ih => exact ih _ h
  | next p ih => exact ih h
  | ask q k ih =>
    rcases hans q with hok | herr
    · simp only [run, hok]
      obtain ⟨q', hq', hfail⟩ := h
      rcases List.mem_cons.mp hq' with rfl | hq'
      · cases hok.symm.trans hfail
      · exact ih _ ⟨q', hq', hfail⟩
    · simp only [run, herr]

end Asked

end Reader
end Dbms.Lib
