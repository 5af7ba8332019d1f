import Dbms.Core.Journal
import Dbms.Lib.Machine
import Dbms.Net.Protocol
import Dbms.Server.JobQueue
import Dbms.Server.Telemetry
import Dbms.Server.Serial

/-! A storage node: the handlers of its connections and the workers of its jobs, one step on what
they share at a time. The executor has no lock, so a call of it is a step that begins it and one that
ends it. -/

open Dbms.Core Dbms.Exec Dbms.Lib Dbms.Auth

namespace Dbms.Server

inductive Ask where
  | metrics
  | poll (id : Text)
  | bad
  | sql (async : Bool) (jwt sql : Text)
  deriving DecidableEq

def notTab (c : Char) : Bool := c ≠ '\t'

def parseLine (line : Text) : Ask :=
  if line.take 7 = "METRICS".toList then .metrics
  else if line.take 5 = "POLL\t".toList then .poll (line.drop 5)
  else
    match line.dropWhile notTab with
    | [] => .bad
    | _ :: rest =>
      match rest.dropWhile notTab with
      | [] => .bad
      | _ :: sql => .sql (line.takeWhile notTab = "1".toList) (rest.takeWhile notTab) sql

def okLine (s : Text) : Text := "OK\t".toList ++ s ++ ['\n']

def errLine (s : Text) : Text := "ERR\t".toList ++ s ++ ['\n']

def jobLine (id : Text) : Text := "JOB\t".toList ++ id ++ ['\n']

def boolText (b : Bool) : Text := if b then "true".toList else "false".toList

/-- The texts between quotes are written as they are. -/
def pollReply : Option JobRecord → Text
  | none => errLine "unknown job".toList
  | some jr => okLine ("\x7b\"status\":\"".toList ++ natText jr.status.number ++
      "\",\"ok\":".toList ++ boolText jr.result.ok ++ ",\"message\":\"".toList ++ jr.result.message ++
      "\",\"result\":".toList ++ jr.result.json ++ "\x7d".toList)

def syncReply (res : ExecResult) : Text :=
  if res.ok then okLine res.json else errLine res.message

def sqlRequest (jwt sql : Text) : Exec.Request :=
  { sql := sql, clientId := "tcp".toList, jwt := jwt, allowMutations := true, skipJournal := false }

def logLine (client handler body : Text) (t0 t1 code : Nat) : Text :=
  natText t0 ++ '\t' :: natText t1 ++ '\t' :: client ++ '\t' :: handler ++ '\t' :: natText code ++
    '\t' :: body ++ ['\n']

/-- Where `handle_client` stands. -/
inductive Phase where
  | absent
  | opened
  | sync (jwt sql : Text) (t0 : Nat)
  | executing (jwt sql : Text) (t0 : Nat)
  | executed (sql : Text) (t0 : Nat) (res : ExecResult)
  | recorded (sql : Text) (t0 : Nat) (res : ExecResult)
  | async (jwt sql : Text) (t0 : Nat)
  | submitted (jwt sql : Text) (t0 : Nat)
  | logged (jwt sql : Text)
  | closed (res : Option ExecResult)
  deriving DecidableEq

/-- A connection: what the client sends, where the handler stands, and what it has sent back. -/
structure Handler where
  input : Text
  phase : Phase
  output : Text
  deriving DecidableEq

def Handler.asks (h : Handler) : Option Ask :=
  match Net.readLine h.input with
  | (line, some _) => some (parseLine line)
  | (_, none) => none

/-- Where the thread of a job stands. -/
inductive WorkerPhase where
  | absent
  | waiting
  | running
  | ran (res : ExecResult)
  | stored (res : ExecResult)
  deriving DecidableEq

structure Worker where
  id : Text
  owner : Nat
  phase : WorkerPhase
  deriving DecidableEq

/-- The process ends when an exception leaves the thread of a handler. Anything may happen once two
calls of the executor overlap, or a job runs whose handler has returned: it reads variables that are
gone. -/
inductive Fate where
  | serving
  | terminated
  | undefined
  deriving DecidableEq

/-- `busy` is the thread that is in `execute`; what it does to the executor is there when it ends. -/
structure Node (D : Type) where
  engine : Executor
  busy : Option Origin
  jobs : JobQueue
  tele : Telemetry D
  accessLog : Text
  handlers : Nat → Handler
  accepted : Nat
  workers : Nat → Worker
  spawned : Nat
  fate : Fate

/-- One step of a thread on what the threads share, with what it finds outside. -/
inductive Event (D : Type) where
  | accept (input : Text)
  | read (i t0 : Nat) (now : Int)
  | enter (o : Origin)
  | leave (o : Origin) (ticks : List Nat → Tick) (depth : Nat)
  | record (i : Nat) (now : Int) (ms : D)
  | log (i t1 : Nat) (stored : Stored)
  | submit (i : Nat) (bytes : Bytes)
  | store (k : Nat)

/-- The local variables that the closure of a job refers to, while they are there. -/
def Phase.captures : Phase → Option (Text × Text)
  | .submitted jwt sql _ | .logged jwt sql => some (jwt, sql)
  | _ => none

namespace Node
variable {D : Type}

def new (engine : Executor) : Node D where
  engine := engine
  busy := none
  jobs := ∅
  tele := .new
  accessLog := []
  handlers := fun _ => ⟨[], .absent, []⟩
  accepted := 0
  workers := fun _ => ⟨[], 0, .absent⟩
  spawned := 0
  fate := .serving

def setHandler (n : Node D) (i : Nat) (h : Handler) : Node D :=
  { n with handlers := Function.update n.handlers i h }

def setWorker (n : Node D) (k : Nat) (w : Worker) : Node D :=
  { n with workers := Function.update n.workers k w }

def advance (n : Node D) (i : Nat) (phase : Phase) : Node D :=
  n.setHandler i { n.handlers i with phase := phase }

def answer (n : Node D) (i : Nat) (reply : Text) (phase : Phase) : Node D :=
  n.setHandler i { n.handlers i with output := (n.handlers i).output ++ reply, phase := phase }

/-- `handle_client` down to its first step on what is shared, that step included. -/
def read [Zero D] [Add D] [Div D] [NatCast D] (print : Snapshot D → Text) (n : Node D) (i t0 : Nat)
    (now : Int) : Option (Node D) :=
  match (n.handlers i).phase with
  | .opened =>
    match Net.readLine (n.handlers i).input with
    | (_, none) => some (n.advance i (.closed none))
    | (line, some _) =>
      match parseLine line with
      | .metrics => some (n.answer i (okLine (print (n.tele.snapshotJson now))) (.closed none))
      | .poll id => some (n.answer i (pollReply (n.jobs.poll id)) (.closed none))
      | .bad => some (n.answer i (errLine "bad request".toList) (.closed none))
      | .sql true jwt sql => some (n.advance i (.async jwt sql t0))
      | .sql false jwt sql => some (n.advance i (.sync jwt sql t0))
  | _ => none

/-- The thread `o` goes into `execute`, where no other one may be. -/
def occupy (n : Node D) (o : Origin) (n' : Node D) : Node D :=
  if n.busy = none then { n' with busy := some o } else { n with fate := .undefined }

def enter (n : Node D) (o : Origin) : Option (Node D) :=
  match o with
  | .handler i =>
    match (n.handlers i).phase with
    | .sync jwt sql t0 => some (n.occupy o (n.advance i (.executing jwt sql t0)))
    | _ => none
  | .worker k =>
    let w := n.workers k
    match w.phase with
    | .waiting =>
      match (n.handlers w.owner).phase.captures with
      | none => some { n with fate := .undefined }
      | some _ => some (n.occupy o (n.setWorker k { w with phase := .running }))
    | _ => none

def executed (W : World) (n : Node D) (i : Nat) (ticks : List Nat → Tick) (depth : Nat) :
    Option (Node D) :=
  match (n.handlers i).phase with
  | .executing jwt sql t0 =>
    match Exec.execute W ticks depth (sqlRequest jwt sql) n.engine with
    | .done res ex =>
      some ({ n with engine := ex, busy := none }.advance i (.executed sql t0 res))
    | .raised _ => some { n with fate := .terminated }
    | .dangling _ => some { n with fate := .undefined }
    | .running _ => none
  | _ => none

def ran (W : World) (n : Node D) (k : Nat) (ticks : List Nat → Tick) (depth : Nat) :
    Option (Node D) :=
  let w := n.workers k
  match w.phase with
  | .running =>
    match (n.handlers w.owner).phase.captures with
    | none => some { n with fate := .undefined }
    | some (jwt, sql) =>
      match Exec.execute W ticks depth (sqlRequest jwt sql) n.engine with
      | .done res ex =>
        some ({ n with engine := ex, busy := none }.setWorker k { w with phase := .ran res })
      | .raised ex =>
        some ({ n with engine := ex, busy := none }.setWorker k
          { w with phase := .ran internalError })
      | .dangling _ => some { n with fate := .undefined }
      | .running _ => none
  | _ => none

def leave (W : World) (n : Node D) (o : Origin) (ticks : List Nat → Tick) (depth : Nat) :
    Option (Node D) :=
  match o with
  | .handler i => n.executed W i ticks depth
  | .worker k => n.ran W k ticks depth

def inJob (n : Node D) (i : Nat) : Bool :=
  match n.busy with
  | some (.worker k) => (n.workers k).owner = i
  | _ => false

/-- A handler that returns takes the variables of its job along. -/
def record [Zero D] (n : Node D) (i : Nat) (now : Int) (ms : D) : Option (Node D) :=
  match (n.handlers i).phase with
  | .executed sql t0 res =>
    some ({ n with tele := n.tele.recordRequest now (!res.ok) ms }.advance i (.recorded sql t0 res))
  | .logged _ _ =>
    if n.inJob i then some { n with fate := .undefined }
    else some ({ n with tele := n.tele.recordRequest now false 0 }.advance i (.closed none))
  | _ => none

def note (n : Node D) (stored : Stored) (line : Text) : Node D :=
  { n with accessLog := n.accessLog ++ stored.part line }

def handlerId (i : Nat) : Text := 'h' :: natText (i + 1)

def log (n : Node D) (i t1 : Nat) (stored : Stored) : Option (Node D) :=
  match (n.handlers i).phase with
  | .recorded sql t0 res =>
    let line := logLine "tcp".toList (handlerId i) sql t0 t1 (if res.ok then 200 else 400)
    some ((n.note stored line).answer i (syncReply res) (.closed (some res)))
  | .submitted jwt sql t0 =>
    let line := logLine "tcp".toList (handlerId i) sql t0 t1 202
    some ((n.note stored line).advance i (.logged jwt sql))
  | _ => none

def submit (n : Node D) (i : Nat) (bytes : Bytes) : Option (Node D) :=
  match (n.handlers i).phase with
  | .async jwt sql t0 =>
    let id := makeGuidV4 bytes
    let n := { n with jobs := n.jobs.submit id, spawned := n.spawned + 1 }
    some ((n.setWorker (n.spawned - 1) ⟨id, i, .waiting⟩).answer i (jobLine id)
      (.submitted jwt sql t0))
  | _ => none

def store (n : Node D) (k : Nat) : Option (Node D) :=
  let w := n.workers k
  match w.phase with
  | .ran res =>
    some ({ n with jobs := n.jobs.finish w.id res }.setWorker k { w with phase := .stored res })
  | _ => none

def accept (n : Node D) (input : Text) : Node D :=
  { n with accepted := n.accepted + 1 }.setHandler n.accepted ⟨input, .opened, []⟩

def step [Zero D] [Add D] [Div D] [NatCast D] (W : World) (print : Snapshot D → Text) (e : Event D)
    (n : Node D) : Option (Node D) :=
  if n.fate ≠ .serving then none
  else
    match e with
    | .accept input => some (n.accept input)
    | .read i t0 now => n.read print i t0 now
    | .enter o => n.enter o
    | .leave o ticks depth => n.leave W o ticks depth
    | .record i now ms => n.record i now ms
    | .log i t1 stored => n.log i t1 stored
    | .submit i bytes => n.submit i bytes
    | .store k => n.store k

end Node
end Dbms.Server
