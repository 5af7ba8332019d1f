import Dbms.Lib.Significant
import Dbms.Lib.Window
import Mathlib.Algebra.Ring.Int.Defs

/-! Request statistics of the server. Clock times are in nanoseconds; latencies are of any number
type. -/

open Dbms.Lib Dbms.Lib.Window

namespace Dbms.Server

structure Telemetry (D : Type*) where
  hits : List Int
  latencies : List (Int × D)
  errors : List Int

/-- The three numbers of the report; `rpsNow` is what is printed of it. -/
structure Snapshot (D : Type*) where
  rpsNow : Nat
  avgLatencyMs10s : D
  errorsLastMin : Nat
  deriving DecidableEq

def seconds (n : Int) : Int := n * 10 ^ 9

def pruneOld (d : List Int) (now window : Int) : List Int := expire id window now d

namespace Telemetry
variable {D : Type*}

def new : Telemetry D := ⟨[], [], []⟩

def recordRequest (t : Telemetry D) (now : Int) (error : Bool) (latencyMs : D) : Telemetry D where
  hits := pruneOld (t.hits ++ [now]) now (seconds 600)
  latencies := expire Prod.fst (seconds 10) now (t.latencies ++ [(now, latencyMs)])
  errors := pruneOld (if error then t.errors ++ [now] else t.errors) now (seconds 60)

def rps (hits : List Int) : Nat :=
  match hits.getLast? with
  | none => 0
  | some t0 => (hits.reverse.takeWhile fun t => t0 - t ≤ seconds 1).length

def average [Zero D] [Add D] [Div D] [NatCast D] (lat : List D) : D :=
  if lat = [] then 0 else lat.foldl (· + ·) 0 / (lat.length : D)

def averaged (t : Telemetry D) : List D := t.latencies.map Prod.snd

/-- The clock is read, and its value is not used. The rate is a `double`, of which the stream prints
six digits. -/
def snapshotJson [Zero D] [Add D] [Div D] [NatCast D] (t : Telemetry D)
    (_now : Int) : Snapshot D where
  rpsNow := significant 6 (rps t.hits)
  avgLatencyMs10s := average t.averaged
  errorsLastMin := t.errors.length

end Telemetry

inductive Call (D : Type*) where
  | recordRequest (error : Bool) (latencyMs : D)
  | snapshotJson

structure Request (D : Type*) where
  time : Int
  error : Bool
  latencyMs : D

section Run
variable {D : Type*} {calls : List (Int × Call D)}

def run (calls : List (Int × Call D)) : Telemetry D :=
  calls.foldl (fun t call => match call.2 with
    | .recordRequest error latencyMs => t.recordRequest call.1 error latencyMs
    | .snapshotJson => t) .new

def requests (calls : List (Int × Call D)) : List (Request D) :=
  calls.filterMap fun call => match call.2 with
    | .recordRequest error latencyMs => some ⟨call.1, error, latencyMs⟩
    | .snapshotJson => none

def InOrder (calls : List (Int × Call D)) : Prop := (calls.map Prod.fst).Pairwise (· ≤ ·)

def lastTime (rs : List (Request D)) : Int := (rs.getLast?.map Request.time).getD 0

def queues (rs : List (Request D)) : Telemetry D where
  hits := (recent Request.time (seconds 600) (lastTime rs) rs).map Request.time
  latencies := (recent Request.time (seconds 10) (lastTime rs) rs).map fun r => (r.time, r.latencyMs)
  errors := ((recent Request.time (seconds 60) (lastTime rs) rs).filter Request.error).map Request.time

theorem requests_record (calls : List (Int × Call D)) (now : Int) (error : Bool) (latencyMs : D) :
    requests (calls ++ [(now, .recordRequest error latencyMs)]) =
      requests calls ++ [⟨now, error, latencyMs⟩] := by
  simp [requests, List.filterMap_append]

theorem requests_snapshot (calls : List (Int × Call D)) (now : Int) :
    requests (calls ++ [(now, .snapshotJson)]) = requests calls := by
  simp [requests, List.filterMap_append]

theorem lastTime_le {rs : List (Request D)} {now : Int} (hnow : ∀ r ∈ rs, r.time ≤ now)
    (hrs : rs ≠ []) : lastTime rs ≤ now := by
  unfold lastTime
  rw [List.getLast?_eq_some_getLast hrs]
  exact hnow _ (List.getLast_mem hrs)

theorem recordRequest_queues {rs : List (Request D)} {r : Request D}
    (horder : Ordered Request.time (rs ++ [r])) :
    (queues rs).recordRequest r.time r.error r.latencyMs = queues (rs ++ [r]) := by
  have hle : ∀ r' ∈ rs, r'.time ≤ r.time := fun r' hr' =>
    (List.pairwise_append.mp horder).2.2 r' hr' r (List.mem_singleton_self r)
  have hlast : lastTime (rs ++ [r]) = r.time := by simp [lastTime]
  have hhits : pruneOld ((queues rs).hits ++ [r.time]) r.time (seconds 600) =
      (queues (rs ++ [r])).hits := by
    show _ = (recent Request.time (seconds 600) (lastTime (rs ++ [r])) (rs ++ [r])).map Request.time
    rw [hlast]
    exact expire_join id Request.time rfl horder (lastTime_le hle)
  have hlatencies : expire Prod.fst (seconds 10) r.time
      ((queues rs).latencies ++ [(r.time, r.latencyMs)]) = (queues (rs ++ [r])).latencies := by
    show _ = (recent Request.time (seconds 10) (lastTime (rs ++ [r])) (rs ++ [r])).map
      fun r => (r.time, r.latencyMs)
    rw [hlast]
    exact expire_join Prod.fst (fun r : Request D => (r.time, r.latencyMs)) rfl horder
      (lastTime_le hle)
  have herrors : pruneOld (if r.error then (queues rs).errors ++ [r.time] else (queues rs).errors)
      r.time (seconds 60) = (queues (rs ++ [r])).errors := by
    -- Only failed requests join this queue, so their own order has to be used.
    have hfiltered := horder.filter Request.error
    rw [List.filter_append] at hfiltered
    have hjoin : pruneOld ((queues rs).errors ++ ([r].filter Request.error).map Request.time) r.time
        (seconds 60) = (queues (rs ++ [r])).errors := by
      show pruneOld (((recent Request.time (seconds 60) (lastTime rs) rs).filter Request.error).map
          Request.time ++ ([r].filter Request.error).map Request.time) r.time (seconds 60) =
        ((recent Request.time (seconds 60) (lastTime (rs ++ [r])) (rs ++ [r])).filter
          Request.error).map Request.time
      rw [hlast, ← recent_filter, ← recent_filter, List.filter_append]
      apply expire_join id Request.time rfl hfiltered
      exact fun hne => lastTime_le hle fun hnil => hne (by rw [hnil]; rfl)
    cases herror : r.error with
    | true => simpa [herror] using hjoin
    | false => simpa [herror] using hjoin
  show Telemetry.mk (pruneOld ((queues rs).hits ++ [r.time]) r.time (seconds 600))
    (expire Prod.fst (seconds 10) r.time ((queues rs).latencies ++ [(r.time, r.latencyMs)]))
    (pruneOld (if r.error then (queues rs).errors ++ [r.time] else (queues rs).errors) r.time
      (seconds 60)) = _
  rw [hhits, hlatencies, herrors]

theorem requests_time {r : Request D} (h : r ∈ requests calls) :
    ∃ call ∈ calls, call.1 = r.time := by
  obtain ⟨call, hcall, hr⟩ := List.mem_filterMap.mp h
  refine ⟨call, hcall, ?_⟩
  cases hc : call.2 with
  | snapshotJson => simp [hc] at hr
  | recordRequest error latencyMs =>
    simp only [hc, Option.some.injEq] at hr
    rw [← hr]

theorem InOrder.requests (h : InOrder calls) : Ordered Request.time (requests calls) := by
  have hcalls : calls.Pairwise fun a b => a.1 ≤ b.1 := List.pairwise_map.mp h
  refine List.Pairwise.filterMap _ ?_ hcalls
  intro a b hab r hr r' hr'
  cases ha : a.2 with
  | snapshotJson => simp [ha] at hr
  | recordRequest error latencyMs =>
    cases hb : b.2 with
    | snapshotJson => simp [hb] at hr'
    | recordRequest error' latencyMs' =>
      simp only [ha, Option.some.injEq] at hr
      simp only [hb, Option.some.injEq] at hr'
      rw [← hr, ← hr']
      exact hab

theorem run_queues (h : InOrder calls) : run calls = queues (requests calls) := by
  induction calls using List.reverseRecOn with
  | nil => rfl
  | append_singleton calls call ih =>
    obtain ⟨now, call⟩ := call
    have horder := h.requests
    have hcalls : InOrder calls := by
      unfold InOrder at h ⊢
      rw [List.map_append] at h
      exact (List.pairwise_append.mp h).1
    have hstate := ih hcalls
    cases call with
    | snapshotJson =>
      rw [requests_snapshot, ← hstate]
      exact List.foldl_append
    | recordRequest error latencyMs =>
      rw [requests_record] at horder ⊢
      rw [← recordRequest_queues horder, ← hstate]
      exact List.foldl_append

theorem rps_queues {rs : List (Request D)} (horder : Ordered Request.time rs) :
    Telemetry.rps (queues rs).hits =
    (recent Request.time (seconds 1) (lastTime rs) rs).length := by
  rcases List.eq_nil_or_concat rs with rfl | ⟨before, r, rfl⟩
  · rfl
  have hlast : lastTime (before.concat r) = r.time := by simp [lastTime]
  have hnewest : (queues (before.concat r)).hits.getLast? = some r.time := by
    have hself : recent Request.time (seconds 600) r.time [r] = [r] :=
      List.filter_cons_of_pos (by simp [seconds])
    show ((recent Request.time (seconds 600) (lastTime (before.concat r)) (before.concat r)).map
      Request.time).getLast? = _
    rw [hlast, List.concat_eq_append, recent_append, hself]
    simp
  have hhits : Ordered id (queues (before.concat r)).hits := List.pairwise_map.mpr horder.recent
  have hback := @takeWhile_reverse_eq_recent _ _ (seconds 1) r.time _ hhits
  have hrecent : recent id (seconds 1) r.time (queues (before.concat r)).hits =
      (recent Request.time (seconds 1) r.time (before.concat r)).map Request.time := by
    show recent id (seconds 1) r.time ((recent Request.time (seconds 600)
      (lastTime (before.concat r)) (before.concat r)).map Request.time) = _
    rw [recent_map, hlast]
    exact congrArg _ (recent_recent (Int.le_refl _) (by decide))
  unfold Telemetry.rps
  rw [hnewest, hlast]
  show ((queues (before.concat r)).hits.reverse.takeWhile
    fun t => r.time - id t ≤ seconds 1).length = _
  rw [hback, hrecent, List.length_reverse, List.length_map]

/-- No request has left a window since the newest one. -/
structure Prompt (now : Int) (rs : List (Request D)) : Prop where
  rate : ∀ r ∈ rs, lastTime rs - r.time ≤ seconds 1 → now - r.time ≤ seconds 1
  latencies : ∀ r ∈ rs, lastTime rs - r.time ≤ seconds 10 → now - r.time ≤ seconds 10
  errors : ∀ r ∈ rs, r.error = true → lastTime rs - r.time ≤ seconds 60 → now - r.time ≤ seconds 60

/-- The same, but of the requests in the second before the newest one the six digits of their number
count. -/
structure Fresh (now : Int) (rs : List (Request D)) : Prop where
  rate : significant 6 (recent Request.time (seconds 1) (lastTime rs) rs).length =
    (recent Request.time (seconds 1) now rs).length
  latencies : ∀ r ∈ rs, lastTime rs - r.time ≤ seconds 10 → now - r.time ≤ seconds 10
  errors : ∀ r ∈ rs, r.error = true → lastTime rs - r.time ≤ seconds 60 → now - r.time ≤ seconds 60

theorem fresh_iff_prompt {now : Int} {rs : List (Request D)}
    (hnow : rs ≠ [] → lastTime rs ≤ now)
    (hfew : (recent Request.time (seconds 1) (lastTime rs) rs).length < 10 ^ 6) :
    Fresh now rs ↔ Prompt now rs := by
  have hrate : significant 6 (recent Request.time (seconds 1) (lastTime rs) rs).length =
      (recent Request.time (seconds 1) now rs).length ↔
      ∀ r ∈ rs, lastTime rs - r.time ≤ seconds 1 → now - r.time ≤ seconds 1 := by
    rw [significant_of_lt hfew]
    exact recent_length_eq_iff hnow
  constructor
  · intro h
    exact ⟨hrate.mp h.rate, h.latencies, h.errors⟩
  · intro h
    exact ⟨hrate.mpr h.rate, h.latencies, h.errors⟩

section Exact
variable [Zero D] [Add D] [Div D] [NatCast D] {now : Int} {rs : List (Request D)}

structure Exact (now : Int) (rs : List (Request D)) (t : Telemetry D) : Prop where
  errorsLastMin : (t.snapshotJson now).errorsLastMin =
    (rs.filter fun r => r.error && now - r.time ≤ seconds 60).length
  avgLatencyMs10s : t.averaged = (rs.filter fun r => now - r.time ≤ seconds 10).map Request.latencyMs
  rpsNow : (t.snapshotJson now).rpsNow = (rs.filter fun r => now - r.time ≤ seconds 1).length

theorem exact_iff_fresh (horder : Ordered Request.time rs) (hnow : rs ≠ [] → lastTime rs ≤ now) :
    Exact now rs (queues rs) ↔ Fresh now rs := by
  have herrors : (queues rs).errors.length =
      (rs.filter fun r => r.error && now - r.time ≤ seconds 60).length ↔
      ∀ r ∈ rs, r.error = true → lastTime rs - r.time ≤ seconds 60 → now - r.time ≤ seconds 60 := by
    have hqueue : (queues rs).errors.length =
        (recent Request.time (seconds 60) (lastTime rs) (rs.filter Request.error)).length := by
      rw [recent_filter]
      exact List.length_map ..
    have hgoal : (rs.filter fun r => r.error && now - r.time ≤ seconds 60) =
        recent Request.time (seconds 60) now (rs.filter Request.error) := by
      simp only [recent, List.filter_filter, Bool.and_comm]
    rw [hqueue, hgoal, recent_length_eq_iff fun hne => hnow fun hnil => hne (by rw [hnil]; rfl)]
    simp only [List.mem_filter, and_imp]
  have hlatencies : (queues rs).averaged =
      (rs.filter fun r => now - r.time ≤ seconds 10).map Request.latencyMs ↔
      ∀ r ∈ rs, lastTime rs - r.time ≤ seconds 10 → now - r.time ≤ seconds 10 := by
    have hqueue : (queues rs).averaged =
        (recent Request.time (seconds 10) (lastTime rs) rs).map Request.latencyMs :=
      List.map_map
    rw [hqueue, ← recent_length_eq_iff hnow]
    constructor
    · intro h
      have hlength := congrArg List.length h
      rwa [List.length_map, List.length_map] at hlength
    · intro h
      exact congrArg _ (recent_eq_of_length hnow h)
  have hrps : significant 6 (Telemetry.rps (queues rs).hits) =
      (rs.filter fun r => now - r.time ≤ seconds 1).length ↔
      significant 6 (recent Request.time (seconds 1) (lastTime rs) rs).length =
        (recent Request.time (seconds 1) now rs).length := by
    rw [rps_queues horder]
    rfl
  constructor
  · intro h
    exact ⟨hrps.mp h.rpsNow, hlatencies.mp h.avgLatencyMs10s, herrors.mp h.errorsLastMin⟩
  · intro h
    exact ⟨herrors.mpr h.errors, hlatencies.mpr h.latencies, hrps.mpr h.rate⟩

def promptCalls : List (Int × Call Int) :=
  [(0, .recordRequest true 3), (seconds 5, .snapshotJson), (seconds 20, .recordRequest true 4),
    (seconds 65, .recordRequest false 5), (seconds 72, .recordRequest false 6)]

end Exact

end Run

end Dbms.Server
