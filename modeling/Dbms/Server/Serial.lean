import Dbms.Exec.Run
import Dbms.Lib.Machine

/-! What a storage node is for: one executor that serves every request once, one after the other. -/

open Dbms.Core Dbms.Exec Dbms.Lib

namespace Dbms.Server

/-- Who asks: the handler of a connection, or the worker of a job. -/
inductive Origin where
  | handler (i : Nat)
  | worker (k : Nat)
  deriving DecidableEq

structure Serve where
  origin : Origin
  call : Exec.Call

/-- What the requests served so far have left, and what each was answered. -/
structure Serial where
  engine : Executor
  replies : Origin → Option ExecResult

def internalError : ExecResult := .failed "internal error".toList

def Serve.reply (W : World) (e : Serve) (ex : Executor) : Option ExecResult :=
  match e.call.outcome W ex with
  | .done res _ => some res
  | .raised _ =>
    match e.origin with
    | .worker _ => some internalError
    | .handler _ => none
  | _ => none

def Serial.step (W : World) (e : Serve) (s : Serial) : Option Serial :=
  if s.replies e.origin = none then
    (e.reply W s.engine).map fun res =>
      { engine := (e.call.outcome W s.engine).state
        replies := Function.update s.replies e.origin (some res) }
  else none

/-- `e` was served with the answer `res`, behind the requests `pre` and before `post`. -/
structure Served (W : World) (ex : Executor) (es : List Serve) (e : Serve) (res : ExecResult)
    (pre post : List Serve) : Prop where
  split : es = pre ++ e :: post
  reply : e.reply W (runAll W (pre.map Serve.call) ex) = some res

section
variable {W : World} {s s' : Serial} {e : Serve} {es : List Serve} {o : Origin} {res : ExecResult}

theorem Serial.step_eq (h : s.step W e = some s') : s.replies e.origin = none ∧
    ∃ res, e.reply W s.engine = some res ∧ s'.engine = (e.call.outcome W s.engine).state ∧
      s'.replies = Function.update s.replies e.origin (some res) := by
  unfold Serial.step at h
  split at h
  · rename_i hnone
    obtain ⟨res, hres, rfl⟩ := Option.map_eq_some_iff.mp h
    exact ⟨hnone, res, hres, rfl, rfl⟩
  · cases h

theorem Serial.run_engine (h : Machine.run (Serial.step W) es s = some s') :
    s'.engine = runAll W (es.map Serve.call) s.engine := by
  induction es generalizing s with
  | nil =>
    cases h
    rfl
  | cons e es ih =>
    obtain ⟨s₁, hs₁, hrun⟩ := Machine.run_cons.mp h
    obtain ⟨-, res, -, heng, -⟩ := Serial.step_eq hs₁
    rw [ih hrun, heng]
    rfl

theorem Serial.run_once (h : Machine.run (Serial.step W) es s = some s') :
    (es.map Serve.origin).Nodup ∧ ∀ e ∈ es, s.replies e.origin = none := by
  induction es generalizing s with
  | nil => exact ⟨List.nodup_nil, fun e he => by cases he⟩
  | cons e es ih =>
    obtain ⟨s₁, hs₁, hrun⟩ := Machine.run_cons.mp h
    obtain ⟨hnone, res, -, -, hreplies⟩ := Serial.step_eq hs₁
    obtain ⟨hnodup, hfresh⟩ := ih hrun
    have hother : ∀ e' ∈ es, e'.origin ≠ e.origin := by
      intro e' he' heq
      have hset := hfresh e' he'
      rw [hreplies, heq, Function.update_self] at hset
      cases hset
    refine ⟨List.nodup_cons.mpr ⟨?_, hnodup⟩, List.forall_mem_cons.mpr ⟨hnone, fun e' he' => ?_⟩⟩
    · intro hmem
      obtain ⟨e', he', heq⟩ := List.mem_map.mp hmem
      exact hother e' he' heq
    · have hset := hfresh e' he'
      rwa [hreplies, Function.update_of_ne (hother e' he')] at hset

/-- An answer is that of the only request of its origin, at its place in the order. -/
theorem Serial.run_replies (h : Machine.run (Serial.step W) es s = some s') :
    s'.replies o = some res ↔ s.replies o = some res ∨
      ∃ e pre post, e.origin = o ∧ Served W s.engine es e res pre post := by
  induction es generalizing s with
  | nil =>
    cases h
    refine (or_iff_left ?_).symm
    rintro ⟨e, pre, post, -, hsplit, -⟩
    cases pre <;> cases hsplit
  | cons e es ih =>
    obtain ⟨s₁, hs₁, hrun⟩ := Machine.run_cons.mp h
    obtain ⟨hnone, r, hr, heng, hreplies⟩ := Serial.step_eq hs₁
    rw [ih hrun, hreplies]
    constructor
    · rintro (hset | ⟨e', pre, post, ho, rfl, hreply⟩)
      -- A request is served only if its origin has no answer yet.
      · by_cases heq : o = e.origin
        · subst heq
          rw [Function.update_self] at hset
          cases hset
          exact .inr ⟨e, [], es, rfl, rfl, hr⟩
        · rw [Function.update_of_ne heq] at hset
          exact .inl hset
      · refine .inr ⟨e', e :: pre, post, ho, rfl, ?_⟩
        rwa [heng] at hreply
    · rintro (hset | ⟨e', pre, post, ho, hsplit, hreply⟩)
      · by_cases heq : o = e.origin
        · subst heq
          rw [hnone] at hset
          cases hset
        · exact .inl (by rwa [Function.update_of_ne heq])
      · cases pre with
        | nil =>
          obtain ⟨rfl, rfl⟩ := List.cons.inj hsplit
          subst ho
          obtain rfl := Option.some.inj (hr.symm.trans hreply)
          exact .inl (Function.update_self ..)
        | cons d pre =>
          obtain ⟨rfl, rfl⟩ := List.cons.inj hsplit
          refine .inr ⟨e', pre, post, ho, rfl, ?_⟩
          rwa [heng]

end
end Dbms.Server
