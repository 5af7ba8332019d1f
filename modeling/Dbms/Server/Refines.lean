import Dbms.Server.Storage

/-! A storage node refines the serial executor: whatever its threads do between each other, requests
take effect one at a time, each once. -/

open Dbms.Core Dbms.Exec Dbms.Lib Dbms.Auth

namespace Dbms.Server

def Phase.reply : Phase → Option ExecResult
  | .executed _ _ res | .recorded _ _ res => some res
  | .closed res => res
  | _ => none

def WorkerPhase.reply : WorkerPhase → Option ExecResult
  | .ran res | .stored res => some res
  | _ => none

def Event.Calls {D : Type} : Event D → Prop
  | .enter _ | .leave .. => True
  | _ => False

namespace Node
variable {D : Type} {n n' : Node D} {i j k t0 t1 : Nat} {h : Handler} {w : Worker} {phase : Phase} {z : D}

def replies (n : Node D) : Origin → Option ExecResult
  | .handler i => (n.handlers i).phase.reply
  | .worker k => (n.workers k).phase.reply

def toSerial (n : Node D) : Serial := ⟨n.engine, n.replies⟩

def pending (n : Node D) (ticks : List Nat → Tick) (depth : Nat) : Origin → Option Serve
  | .handler i =>
    match (n.handlers i).phase with
    | .executing jwt sql _ => some ⟨.handler i, ⟨ticks, depth, sqlRequest jwt sql⟩⟩
    | _ => none
  | .worker k =>
    match (n.workers k).phase with
    | .running => (n.handlers (n.workers k).owner).phase.captures.map fun c =>
        ⟨.worker k, ⟨ticks, depth, sqlRequest c.1 c.2⟩⟩
    | _ => none

/-- The request that a step serves: one whose call ends with an answer. -/
def serves (W : World) (e : Event D) (n : Node D) : Option Serve :=
  match e with
  | .leave o ticks depth =>
    (n.pending ticks depth o).filter fun s => (s.reply W n.engine).isSome
  | _ => none

inductive Move (W : World) (z : D) (n : Node D) : Event D → Node D → Prop where
  | accept (input : Text) : Move W z n (.accept input) (n.accept input)
  | closes (i t0 : Nat) (now : Int) (reply : Text) : (n.handlers i).phase = .opened →
      (∀ b jwt sql, (n.handlers i).asks ≠ some (.sql b jwt sql)) →
      (∀ id, (n.handlers i).asks = some (.poll id) → reply = pollReply (n.jobs.poll id)) →
      ((n.handlers i).asks = none → reply = []) →
      Move W z n (.read i t0 now) (n.answer i reply (.closed none))
  | starts (i t0 : Nat) (now : Int) (b : Bool) (jwt sql : Text) : (n.handlers i).phase = .opened →
      (n.handlers i).asks = some (.sql b jwt sql) →
      Move W z n (.read i t0 now) (n.advance i (if b then .async jwt sql t0 else .sync jwt sql t0))
  | enters (i : Nat) (jwt sql : Text) (t0 : Nat) : (n.handlers i).phase = .sync jwt sql t0 →
      Move W z n (.enter (.handler i))
        ({ n with busy := some (.handler i) }.advance i (.executing jwt sql t0))
  | executes (i : Nat) (ticks : List Nat → Tick) (depth : Nat) (jwt sql : Text) (t0 : Nat)
      (res : ExecResult) (ex : Executor) : (n.handlers i).phase = .executing jwt sql t0 →
      Exec.execute W ticks depth (sqlRequest jwt sql) n.engine = .done res ex →
      Move W z n (.leave (.handler i) ticks depth)
        ({ n with engine := ex, busy := none }.advance i (.executed sql t0 res))
  | begins (k : Nat) : (n.workers k).phase = .waiting →
      Move W z n (.enter (.worker k))
        ({ n with busy := some (.worker k) }.setWorker k { n.workers k with phase := .running })
  | works (k : Nat) (ticks : List Nat → Tick) (depth : Nat) (jwt sql : Text) (res : ExecResult) :
      (n.workers k).phase = .running →
      (n.handlers (n.workers k).owner).phase.captures = some (jwt, sql) →
      (Serve.mk (.worker k) ⟨ticks, depth, sqlRequest jwt sql⟩).reply W n.engine = some res →
      Move W z n (.leave (.worker k) ticks depth)
        ({ n with
          engine := (Exec.execute W ticks depth (sqlRequest jwt sql) n.engine).state
          busy := none }.setWorker k { n.workers k with phase := .ran res })
  | stops (e : Event D) (fate : Fate) : e.Calls → n.serves W e = none →
      Move W z n e { n with fate := fate }
  | outlived (i : Nat) (now : Int) (ms : D) (jwt sql : Text) :
      (n.handlers i).phase = .logged jwt sql → n.inJob i = true →
      Move W z n (.record i now ms) { n with fate := .undefined }
  | records (i : Nat) (now : Int) (ms : D) (sql : Text) (t0 : Nat) (res : ExecResult) :
      (n.handlers i).phase = .executed sql t0 res →
      Move W z n (.record i now ms)
        ({ n with tele := n.tele.recordRequest now (!res.ok) ms }.advance i (.recorded sql t0 res))
  | leaves (i : Nat) (now : Int) (ms : D) (jwt sql : Text) :
      (n.handlers i).phase = .logged jwt sql → n.inJob i = false →
      Move W z n (.record i now ms)
        ({ n with tele := n.tele.recordRequest now false z }.advance i (.closed none))
  | logs (i t0 t1 : Nat) (stored : Stored) (sql : Text) (res : ExecResult) :
      (n.handlers i).phase = .recorded sql t0 res →
      Move W z n (.log i t1 stored)
        ((n.note stored (logLine "tcp".toList (handlerId i) sql t0 t1
          (if res.ok then 200 else 400))).answer i
          (syncReply res) (.closed (some res)))
  | notes (i t0 t1 : Nat) (stored : Stored) (jwt sql : Text) :
      (n.handlers i).phase = .submitted jwt sql t0 →
      Move W z n (.log i t1 stored)
        ((n.note stored (logLine "tcp".toList (handlerId i) sql t0 t1 202)).advance i (.logged jwt sql))
  | submits (i t0 : Nat) (bytes : Bytes) (jwt sql : Text) :
      (n.handlers i).phase = .async jwt sql t0 →
      Move W z n (.submit i bytes)
        (({ n with jobs := n.jobs.submit (makeGuidV4 bytes), spawned := n.spawned + 1 }.setWorker
          n.spawned ⟨makeGuidV4 bytes, i, .waiting⟩).answer i (jobLine (makeGuidV4 bytes))
            (.submitted jwt sql t0))
  | stores (k : Nat) (res : ExecResult) : (n.workers k).phase = .ran res →
      Move W z n (.store k)
        ({ n with jobs := n.jobs.finish (n.workers k).id res }.setWorker k
          { n.workers k with phase := .stored res })

theorem answer_nil (i : Nat) (phase : Phase) : n.answer i [] phase = n.advance i phase := by
  simp [answer, advance]

theorem read_move [Zero D] [Add D] [Div D] [NatCast D] {W : World} {print : Snapshot D → Text}
    {now : Int} (h : n.read print i t0 now = some n') : Move W 0 n (.read i t0 now) n' := by
  unfold read at h
  split at h
  · rename_i hphase
    cases hline : Net.readLine (n.handlers i).input with
    | mk line rest =>
      rw [hline] at h
      cases rest with
      | none =>
        have hasks : (n.handlers i).asks = none := by
          unfold Handler.asks
          rw [hline]
        obtain rfl := Option.some.inj h
        rw [← answer_nil]
        exact .closes i t0 now [] hphase (by simp [hasks]) (by simp [hasks]) fun _ => rfl
      | some rest =>
        have hasks : (n.handlers i).asks = some (parseLine line) := by
          unfold Handler.asks
          rw [hline]
        dsimp only at h
        cases hask : parseLine line with
        | sql b jwt sql =>
          rw [hask] at h hasks
          cases b <;> obtain rfl := Option.some.inj h
          · exact .starts i t0 now false jwt sql hphase hasks
          · exact .starts i t0 now true jwt sql hphase hasks
        | _ =>
          rw [hask] at h hasks
          obtain rfl := Option.some.inj h
          exact .closes i t0 now _ hphase (by simp [hasks]) (by simp [hasks]) (by simp [hasks])
  · cases h

theorem occupy_move {W : World} {o : Origin} {n₁ : Node D}
    (hmove : Move W z n (.enter o) { n₁ with busy := some o }) (h : n.occupy o n₁ = n') :
    Move W z n (.enter o) n' := by
  subst h
  unfold occupy
  split
  · exact hmove
  · exact .stops _ .undefined trivial rfl

theorem enter_move {W : World} {o : Origin} (h : n.enter o = some n') :
    Move W z n (.enter o) n' := by
  unfold enter at h
  cases o with
  | handler i =>
    dsimp only at h
    split at h
    · rename_i jwt sql t0 hphase
      exact occupy_move (.enters i jwt sql t0 hphase) (Option.some.inj h)
    · cases h
  | worker k =>
    dsimp only at h
    split at h
    · rename_i hphase
      split at h
      · obtain rfl := Option.some.inj h
        exact .stops _ .undefined trivial rfl
      · exact occupy_move (.begins k hphase) (Option.some.inj h)
    · cases h

theorem executed_move {W : World} {ticks : List Nat → Tick} {depth : Nat}
    (h : n.executed W i ticks depth = some n') : Move W z n (.leave (.handler i) ticks depth) n' := by
  unfold executed at h
  split at h
  · rename_i jwt sql t0 hphase
    have hserves : n.serves W (.leave (.handler i) ticks depth) =
        (some ⟨.handler i, ⟨ticks, depth, sqlRequest jwt sql⟩⟩ : Option Serve).filter fun s =>
          (s.reply W n.engine).isSome := by
      simp only [serves, pending, hphase]
    cases hout : Exec.execute W ticks depth (sqlRequest jwt sql) n.engine with
    | done res ex =>
      rw [hout] at h
      obtain rfl := Option.some.inj h
      exact .executes i ticks depth jwt sql t0 res ex hphase hout
    | running ex =>
      rw [hout] at h
      cases h
    | _ =>
      rw [hout] at h
      obtain rfl := Option.some.inj h
      refine .stops _ _ trivial ?_
      rw [hserves]
      simp [Serve.reply, Call.outcome, hout]
  · cases h

theorem ran_move {W : World} {ticks : List Nat → Tick} {depth : Nat}
    (h : n.ran W k ticks depth = some n') : Move W z n (.leave (.worker k) ticks depth) n' := by
  dsimp only [ran] at h
  split at h
  · rename_i hphase
    split at h
    · rename_i hgone
      obtain rfl := Option.some.inj h
      refine .stops _ _ trivial ?_
      simp [serves, pending, hphase, hgone]
    · rename_i jwt sql hcaptures
      have hserves : n.serves W (.leave (.worker k) ticks depth) =
          (some ⟨.worker k, ⟨ticks, depth, sqlRequest jwt sql⟩⟩ : Option Serve).filter fun s =>
            (s.reply W n.engine).isSome := by
        simp only [serves, pending, hphase, hcaptures, Option.map_some]
      have hworks : ∀ res,
          (Serve.mk (.worker k) ⟨ticks, depth, sqlRequest jwt sql⟩).reply W n.engine = some res → _ :=
        fun res => Move.works (z := z) (W := W) k ticks depth jwt sql res hphase hcaptures
      cases hout : Exec.execute W ticks depth (sqlRequest jwt sql) n.engine with
      | done res ex =>
        rw [hout] at h
        obtain rfl := Option.some.inj h
        have hmove := hworks res (by simp [Serve.reply, Call.outcome, hout])
        rwa [hout] at hmove
      | raised ex =>
        rw [hout] at h
        obtain rfl := Option.some.inj h
        have hmove := hworks internalError (by simp [Serve.reply, Call.outcome, hout])
        rwa [hout] at hmove
      | dangling ex =>
        rw [hout] at h
        obtain rfl := Option.some.inj h
        refine .stops _ _ trivial ?_
        rw [hserves]
        simp [Serve.reply, Call.outcome, hout]
      | running ex =>
        rw [hout] at h
        cases h
  · cases h

theorem record_move [Zero D] {W : World} {now : Int} {ms : D} (h : n.record i now ms = some n') :
    Move W 0 n (.record i now ms) n' := by
  unfold record at h
  split at h
  · rename_i sql t0 res hphase
    obtain rfl := Option.some.inj h
    exact .records i now ms sql t0 res hphase
  · rename_i jwt sql hphase
    split at h
    · rename_i hjob
      obtain rfl := Option.some.inj h
      exact .outlived i now ms jwt sql hphase hjob
    · rename_i hjob
      obtain rfl := Option.some.inj h
      exact .leaves i now ms jwt sql hphase (by simpa using hjob)
  · cases h

theorem log_move {W : World} {stored : Stored} (h : n.log i t1 stored = some n') :
    Move W z n (.log i t1 stored) n' := by
  unfold log at h
  split at h
  · rename_i sql t0 res hphase
    obtain rfl := Option.some.inj h
    exact .logs i t0 t1 stored sql res hphase
  · rename_i jwt sql t0 hphase
    obtain rfl := Option.some.inj h
    exact .notes i t0 t1 stored jwt sql hphase
  · cases h

theorem submit_move {W : World} {bytes : Bytes} (h : n.submit i bytes = some n') :
    Move W z n (.submit i bytes) n' := by
  unfold submit at h
  split at h
  · rename_i jwt sql t0 hphase
    obtain rfl := Option.some.inj h
    exact .submits i t0 bytes jwt sql hphase
  · cases h

theorem store_move {W : World} (h : n.store k = some n') : Move W z n (.store k) n' := by
  dsimp only [store] at h
  split at h
  · rename_i res hphase
    obtain rfl := Option.some.inj h
    exact .stores k res hphase
  · cases h

theorem step_move [Zero D] [Add D] [Div D] [NatCast D] {W : World} {print : Snapshot D → Text}
    {e : Event D} (h : n.step W print e = some n') : Move W 0 n e n' := by
  unfold step at h
  split at h
  · cases h
  cases e with
  | accept input =>
    obtain rfl := Option.some.inj h
    exact .accept input
  | read i t0 now => exact read_move h
  | enter o => exact enter_move h
  | leave o ticks depth =>
    cases o with
    | handler i => exact executed_move h
    | worker k => exact ran_move h
  | record i now ms => exact record_move h
  | log i t1 stored => exact log_move h
  | submit i bytes => exact submit_move h
  | store k => exact store_move h

@[simp] theorem setHandler_self : (n.setHandler i h).handlers i = h := Function.update_self ..

theorem setHandler_of_ne (hj : j ≠ i) : (n.setHandler i h).handlers j = n.handlers j :=
  Function.update_of_ne hj ..

@[simp] theorem advance_self :
    (n.advance i phase).handlers i = { n.handlers i with phase := phase } := setHandler_self

@[simp] theorem answer_self {reply : Text} : (n.answer i reply phase).handlers i =
    { n.handlers i with output := (n.handlers i).output ++ reply, phase := phase } :=
  setHandler_self

@[simp] theorem setWorker_self : (n.setWorker k w).workers k = w := Function.update_self ..

theorem setWorker_of_ne (hj : j ≠ k) : (n.setWorker k w).workers j = n.workers j :=
  Function.update_of_ne hj ..

theorem replies_setHandler : (n.setHandler i h).replies =
    Function.update n.replies (.handler i) h.phase.reply := by
  funext o
  cases o with
  | handler j =>
    by_cases hj : j = i
    · subst hj
      rw [Function.update_self]
      simp [replies]
    · rw [Function.update_of_ne (by simpa using hj)]
      simp [replies, setHandler_of_ne hj]
  | worker k =>
    rw [Function.update_of_ne (by simp)]
    rfl

theorem replies_setWorker : (n.setWorker k w).replies =
    Function.update n.replies (.worker k) w.phase.reply := by
  funext o
  cases o with
  | handler j =>
    rw [Function.update_of_ne (by simp)]
    rfl
  | worker j =>
    by_cases hj : j = k
    · subst hj
      rw [Function.update_self]
      simp [replies]
    · rw [Function.update_of_ne (by simpa using hj)]
      simp [replies, setWorker_of_ne hj]

theorem toSerial_setHandler (h₁ : h.phase.reply = (n.handlers i).phase.reply) :
    (n.setHandler i h).toSerial = n.toSerial := by
  have hsame : (n.setHandler i h).replies = n.replies := by
    rw [replies_setHandler, h₁]
    exact Function.update_eq_self ..
  simp only [toSerial, hsame]
  rfl

theorem toSerial_setWorker (h₁ : w.phase.reply = (n.workers k).phase.reply) :
    (n.setWorker k w).toSerial = n.toSerial := by
  have hsame : (n.setWorker k w).replies = n.replies := by
    rw [replies_setWorker, h₁]
    exact Function.update_eq_self ..
  simp only [toSerial, hsame]
  rfl

structure Tidy (n : Node D) : Prop where
  handlers : ∀ i, n.accepted ≤ i → (n.handlers i).phase = .absent
  workers : ∀ k, n.spawned ≤ k → (n.workers k).phase = .absent

theorem Tidy.new (ex : Executor) : (Node.new ex : Node D).Tidy := ⟨fun _ _ => rfl, fun _ _ => rfl⟩

theorem Tidy.shared (ht : n.Tidy) (ex : Executor) (busy : Option Origin) (jobs : JobQueue)
    (tele : Telemetry D) (text : Text) :
    Tidy { n with engine := ex, busy := busy, jobs := jobs, tele := tele, accessLog := text } :=
  ⟨ht.handlers, ht.workers⟩

theorem Tidy.setHandler (ht : n.Tidy) (hi : (n.handlers i).phase ≠ .absent) (h : Handler) :
    (n.setHandler i h).Tidy where
  handlers j hj := by
    have hne : j ≠ i := by
      rintro rfl
      exact hi (ht.handlers j hj)
    rw [setHandler_of_ne hne]
    exact ht.handlers j hj
  workers k hk := ht.workers k hk

theorem Tidy.setWorker (ht : n.Tidy) (hk : (n.workers k).phase ≠ .absent) (w : Worker) :
    (n.setWorker k w).Tidy where
  handlers i hi := ht.handlers i hi
  workers j hj := by
    have hne : j ≠ k := by
      rintro rfl
      exact hk (ht.workers j hj)
    rw [setWorker_of_ne hne]
    exact ht.workers j hj

theorem Tidy.accept (ht : n.Tidy) (input : Text) : (n.accept input).Tidy where
  handlers j hj := by
    have hne : j ≠ n.accepted := Nat.ne_of_gt hj
    exact (congrArg Handler.phase (setHandler_of_ne hne)).trans
      (ht.handlers j (Nat.le_of_succ_le hj))
  workers k hk := ht.workers k hk

theorem Tidy.spawn (ht : n.Tidy) (jobs : JobQueue) (w : Worker) :
    ({ n with jobs := jobs, spawned := n.spawned + 1 }.setWorker n.spawned w).Tidy where
  handlers i hi := ht.handlers i hi
  workers j hj := by
    have hne : j ≠ n.spawned := Nat.ne_of_gt hj
    exact (congrArg Worker.phase (setWorker_of_ne hne)).trans
      (ht.workers j (Nat.le_of_succ_le hj))

theorem Move.tidy {W : World} {e : Event D} (hm : Move W z n e n') (ht : n.Tidy) : n'.Tidy := by
  cases hm with
  | accept input => exact ht.accept input
  | closes i _ _ _ hphase | starts i _ _ _ _ _ hphase | enters i _ _ _ hphase
  | executes i _ _ _ _ _ _ _ hphase | records i _ _ _ _ _ hphase | leaves i _ _ _ _ hphase
  | logs i _ _ _ _ _ hphase | notes i _ _ _ _ _ hphase =>
    refine (ht.shared _ _ _ _ _).setHandler ?_ _
    simp [hphase]
  | stops | outlived => exact ⟨ht.handlers, ht.workers⟩
  | submits i _ _ _ _ hphase =>
    refine (ht.spawn _ _).setHandler ?_ _
    simp [Node.setWorker, hphase]
  | begins k hphase | works k _ _ _ _ _ hphase | stores k _ hphase =>
    refine (ht.shared _ _ _ _ _).setWorker ?_ _
    simp [hphase]

theorem serial_step {W : World} {s s' : Serial} {e : Serve} {res : ExecResult}
    (hnone : s.replies e.origin = none) (hreply : e.reply W s.engine = some res)
    (heng : s'.engine = (e.call.outcome W s.engine).state)
    (hreplies : s'.replies = Function.update s.replies e.origin (some res)) :
    Machine.run (Serial.step W) [e] s = some s' := by
  cases s'
  subst heng hreplies
  simp [Machine.run, Serial.step, hnone, hreply]

/-- A step is that of the request that it serves, or none of the serial executor. -/
theorem Move.serial {W : World} {e : Event D} (hm : Move W z n e n') (ht : n.Tidy) :
    Machine.run (Serial.step W) (n.serves W e).toList n.toSerial = some n'.toSerial := by
  cases hm with
  | accept input =>
    refine congrArg some (Eq.symm ?_)
    exact toSerial_setHandler (n := { n with accepted := n.accepted + 1 })
      (by simp [ht.handlers n.accepted le_rfl, Phase.reply])
  | closes i _ _ _ hphase =>
    exact congrArg some (toSerial_setHandler (by simp [hphase, Phase.reply])).symm
  | starts i _ _ b _ _ hphase =>
    refine congrArg some (toSerial_setHandler ?_).symm
    cases b <;> simp [hphase, Phase.reply]
  | enters i jwt sql t0 hphase =>
    exact congrArg some (toSerial_setHandler (n := { n with busy := _ })
      (by simp [hphase, Phase.reply])).symm
  -- The two steps that serve a request are those in which `execute` ends.
  | executes i ticks depth jwt sql t0 res ex hphase hout =>
    have hreply : (Serve.mk (.handler i) ⟨ticks, depth, sqlRequest jwt sql⟩).reply W n.engine =
        some res := by simp [Serve.reply, Call.outcome, hout]
    have hserves : n.serves W (.leave (.handler i) ticks depth) =
        some ⟨.handler i, ⟨ticks, depth, sqlRequest jwt sql⟩⟩ := by
      simp [serves, pending, hphase, hreply]
    rw [hserves]
    refine serial_step ?_ hreply ?_ replies_setHandler
    · simp [toSerial, replies, hphase, Phase.reply]
    · simp [toSerial, Call.outcome, hout, Outcome.state, advance, Node.setHandler]
  | stops e fate _ hserves =>
    rw [hserves]
    rfl
  | records i _ _ _ _ _ hphase =>
    exact congrArg some (toSerial_setHandler (n := { n with tele := _ })
      (by simp [hphase, Phase.reply])).symm
  | outlived => rfl
  | leaves i _ _ _ _ hphase =>
    exact congrArg some (toSerial_setHandler (n := { n with tele := _ })
      (by simp [hphase, Phase.reply])).symm
  | logs i _ _ _ _ _ hphase =>
    exact congrArg some (toSerial_setHandler (n := n.note _ _)
      (by simp [note, hphase, Phase.reply])).symm
  | notes i _ _ _ _ _ hphase =>
    exact congrArg some (toSerial_setHandler (n := n.note _ _)
      (by simp [note, hphase, Phase.reply])).symm
  | submits i _ bytes _ _ hphase =>
    refine congrArg some (Eq.symm ((toSerial_setHandler ?_).trans (toSerial_setWorker
      (n := { n with jobs := _, spawned := n.spawned + 1 }) ?_)))
    · simp [Node.setWorker, hphase, Phase.reply]
    · simp [ht.workers n.spawned le_rfl, WorkerPhase.reply]
  | begins k hphase =>
    exact congrArg some (toSerial_setWorker (n := { n with busy := _ })
      (by simp [hphase, WorkerPhase.reply])).symm
  | works k ticks depth jwt sql res hphase hcaptures hreply =>
    have hserves : n.serves W (.leave (.worker k) ticks depth) =
        some ⟨.worker k, ⟨ticks, depth, sqlRequest jwt sql⟩⟩ := by
      simp [serves, pending, hphase, hcaptures, hreply]
    rw [hserves]
    refine serial_step ?_ hreply rfl replies_setWorker
    simp [toSerial, replies, hphase, WorkerPhase.reply]
  | stores k res hphase =>
    exact congrArg some (toSerial_setWorker (n := { n with jobs := _ })
      (by simp [hphase, WorkerPhase.reply])).symm

theorem step_simulates [Zero D] [Add D] [Div D] [NatCast D] (W : World)
    (print : Snapshot D → Text) : Machine.Simulates Tidy (Node.step W print) (Serial.step W)
      toSerial (fun e n => n.serves W e) := by
  intro e n n' ht hstep
  have hm := step_move hstep
  exact ⟨hm.tidy ht, hm.serial ht⟩

end Node
end Dbms.Server
