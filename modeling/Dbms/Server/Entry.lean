import Dbms.Core.Journal
import Dbms.Server.Storage

/-! The entry node: it takes a line from each client, hands it to one storage node after the other,
and hands back the line that it gets. -/

open Dbms.Core Dbms.Exec Dbms.Lib

namespace Dbms.Server

def atoi (s : Text) : Int := ((scanInt32 s).map Prod.fst).getD 0

/-- The node that a line of the list names: none if it is empty, a comment, or has no colon. -/
def storageOf (line : Text) : Option (Text × Int) :=
  if line = [] ∨ line.head? = some '#' then none
  else (line.idxOf? ':').map fun p => (line.take p, atoi (line.drop (p + 1)))

def loadStorages (file : Text) : List (Text × Int) := (file.splitOn '\n').filterMap storageOf

def address (node : Text × Int) : Text × Nat := (node.1, (node.2 % 2 ^ 16).toNat)

/-- Where `forward` stands. A connection to a storage node is given by the node and the number it has
among the connections there. -/
inductive RelayPhase (S : Type) where
  | absent
  | opened
  | picked (line : Text) (node : Text × Int)
  | sent (link : S × Nat)
  | refused
  | relayed (link : S × Nat)
  | cut (link : S × Nat)

def Phase.isClosed : Phase → Bool
  | .closed _ => true
  | _ => false

structure Relay (S : Type) where
  input : Text
  phase : RelayPhase S
  output : Text

structure Cluster (S D : Type) where
  storages : S → Node D
  nodes : List (Text × Int)
  rr : Nat
  relays : Nat → Relay S
  accepted : Nat

/-- One step in a storage node, in the thread of a client, or of the heartbeat. If a connection is
made, the list says what each call of `write` returns. -/
inductive Act (S D : Type) where
  | storage (s : S) (e : Event D)
  | accept (input : Text)
  | pick (i : Nat)
  | connect (i : Nat) (wrote : Option (List Int))
  | reply (i : Nat)
  | lose (i received : Nat)
  | beat (j : Nat) (wrote : Option (List Int))

namespace Cluster
variable {S D : Type} [DecidableEq S]

def new (ex : S → Executor) (nodes : List (Text × Int)) : Cluster S D where
  storages s := .new (ex s)
  nodes := nodes
  rr := 0
  relays := fun _ => ⟨[], .absent, []⟩
  accepted := 0

def setStorage (c : Cluster S D) (s : S) (n : Node D) : Cluster S D :=
  { c with storages := Function.update c.storages s n }

def setRelay (c : Cluster S D) (i : Nat) (r : Relay S) : Cluster S D :=
  { c with relays := Function.update c.relays i r }

def advance (c : Cluster S D) (i : Nat) (phase : RelayPhase S) : Cluster S D :=
  c.setRelay i { c.relays i with phase := phase }

def answer (c : Cluster S D) (i : Nat) (text : Text) (phase : RelayPhase S) : Cluster S D :=
  c.setRelay i { c.relays i with output := (c.relays i).output ++ text, phase := phase }

def accept (c : Cluster S D) (input : Text) : Cluster S D :=
  { c with accepted := c.accepted + 1 }.setRelay c.accepted ⟨input, .opened, []⟩

/-- `pick_storage`: the counter goes on, unless there is nothing to pick from. The number is cut to
an `int`. -/
def pickStorage (c : Cluster S D) : Int × Cluster S D :=
  if c.nodes = [] then (-1, c)
  else
    (((c.rr % c.nodes.length : Nat) : Int).bmod (2 ^ 32), { c with rr := (c.rr + 1) % 2 ^ 64 })

def pick (c : Cluster S D) (i : Nat) : Option (Cluster S D) :=
  match (c.relays i).phase with
  | .opened =>
    match Net.readLine (c.relays i).input with
    | (_, none) => some (c.advance i .refused)
    | (line, some _) =>
      let idx := c.pickStorage.1
      let c := c.pickStorage.2
      if idx < 0 then some (c.answer i (errLine "no storage".toList) .refused)
      else c.nodes[idx.toNat]?.map fun node => c.advance i (.picked line node)
  | _ => none

def dial [Zero D] [Add D] [Div D] [NatCast D] (W : S → World) (print : Snapshot D → Text)
    (c : Cluster S D) (s : S) (wrote : List Int) (data : Text) : Option (Cluster S D) :=
  ((c.storages s).step (W s) print (.accept (Net.writeAll wrote data).1)).map (c.setStorage s)

def connect [Zero D] [Add D] [Div D] [NatCast D] (W : S → World) (print : Snapshot D → Text)
    (route : Text × Nat → S) (c : Cluster S D) (i : Nat) (wrote : Option (List Int)) :
    Option (Cluster S D) :=
  match (c.relays i).phase, wrote with
  | .picked _ _, none => some (c.answer i (errLine "storage down".toList) .refused)
  | .picked line node, some wrote =>
    let s := route (address node)
    (c.dial W print s wrote (line ++ ['\n'])).map fun c' =>
      c'.advance i (.sent (s, (c.storages s).accepted))
  | _, _ => none

def sentOver (c : Cluster S D) (link : S × Nat) : Text :=
  ((c.storages link.1).handlers link.2).output

/-- The storage node has not come to where anything may happen. -/
def defined (c : Cluster S D) (link : S × Nat) : Bool := (c.storages link.1).fate ≠ .undefined

def readable (c : Cluster S D) (link : S × Nat) : Bool :=
  (Net.readLine (c.sentOver link)).2.isSome ||
    ((c.storages link.1).handlers link.2).phase.isClosed || (c.storages link.1).fate = .terminated

/-- The rest of `forward`: it does not ask whether the line was whole. -/
def reply (c : Cluster S D) (i : Nat) : Option (Cluster S D) :=
  match (c.relays i).phase with
  | .sent link =>
    if c.defined link && c.readable link then
      some (c.answer i ((Net.readLine (c.sentOver link)).1 ++ ['\n']) (.relayed link))
    else none
  | _ => none

def lose (c : Cluster S D) (i received : Nat) : Option (Cluster S D) :=
  match (c.relays i).phase with
  | .sent link =>
    if c.defined link then
      some (c.answer i ((Net.readLine ((c.sentOver link).take received)).1 ++ ['\n']) (.cut link))
    else none
  | _ => none

def beat [Zero D] [Add D] [Div D] [NatCast D] (W : S → World) (print : Snapshot D → Text)
    (route : Text × Nat → S) (c : Cluster S D) (j : Nat) (wrote : Option (List Int)) :
    Option (Cluster S D) :=
  match c.nodes[j]?, wrote with
  | none, _ => none
  | some _, none => some c
  | some node, some wrote => c.dial W print (route (address node)) wrote "METRICS\n".toList

/-- `route` says which storage node listens at an address. -/
def step [Zero D] [Add D] [Div D] [NatCast D] (W : S → World) (print : Snapshot D → Text)
    (route : Text × Nat → S) (a : Act S D) (c : Cluster S D) : Option (Cluster S D) :=
  match a with
  | .storage s e => ((c.storages s).step (W s) print e).map (c.setStorage s)
  | .accept input => some (c.accept input)
  | .pick i => c.pick i
  | .connect i wrote => c.connect W print route i wrote
  | .reply i => c.reply i
  | .lose i received => c.lose i received
  | .beat j wrote => c.beat W print route j wrote

end Cluster
end Dbms.Server
