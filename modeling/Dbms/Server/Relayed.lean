import Dbms.Server.Forwards
import Dbms.Server.Framed

/-! From end to end: what a client of the entry node reads is the whole answer of a storage node. -/

open Dbms.Core Dbms.Exec Dbms.Lib Dbms.Auth

namespace Dbms.Server.Cluster
variable {S D : Type} {W : S → World} {print : Snapshot D → Text} {route : Text × Nat → S}
  {nodes : List (Text × Int)} {as : List (Act S D)} {c : Cluster S D}

theorem readLine_unbroken (s : Text) : Unbroken (Net.readLine s).1 := by
  induction s with
  | nil => exact .nil
  | cons c s ih =>
    unfold Net.readLine
    split
    · exact .nil
    · exact ih.cons ‹_›

theorem Fits.whole {r : Relay S} (h : c.Fits route r) : Whole r.output := by
  have hline : ∀ s, Whole ((Net.readLine s).1 ++ ['\n']) := fun s => .inr ⟨_, readLine_unbroken s, rfl⟩
  unfold Fits at h
  cases hp : r.phase with
  | absent | opened =>
    rw [hp] at h
    exact .inl h
  | picked line node =>
    rw [hp] at h
    exact .inl h.2.2
  | sent link =>
    rw [hp] at h
    exact .inl h.2
  | refused =>
    rw [hp] at h
    rcases h with h | ⟨-, ⟨-, hout⟩ | ⟨-, hout⟩⟩
    · exact .inl h.2
    · exact hout ▸ errLine_whole (by decide)
    · exact hout ▸ errLine_whole (by decide)
  | relayed link =>
    rw [hp] at h
    rcases h.2 with hout | ⟨-, hout⟩
    · exact hout ▸ hline []
    · exact hout ▸ hline _
  | cut link =>
    rw [hp] at h
    obtain ⟨-, n, hout⟩ := h
    exact hout ▸ hline _

/-- What the clients of the entry node read. -/
structure Relays (W : S → World) (ex : S → Executor) (c : Cluster S D) : Prop where
  line : ∀ i, (c.relays i).output = [] ∨ ∃ line, Net.readLine (c.relays i).output = (line, some [])
  whole : ∀ i link, (c.relays i).phase = .relayed link →
    (c.relays i).output = ['\n'] ∨ (c.relays i).output = c.sentOver link
  sync : ∀ i link line jwt sql, (c.relays i).phase = .relayed link → (c.relays i).line = some line →
    parseLine line = .sql false jwt sql → (c.relays i).output = ['\n'] ∨
      ∃ served e res pre post, (c.storages link.1).Serves (W link.1) (ex link.1) served ∧
        Served (W link.1) (ex link.1) served e res pre post ∧ e.origin = .handler link.2 ∧
        e.call.request = sqlRequest jwt sql ∧ (c.relays i).output = syncReply res

section
variable [DecidableEq S] [Zero D] [Add D] [Div D] [NatCast D]

theorem framed_run {ex : S → Executor} (hprint : ∀ s, (W s).print.Unbroken)
    (hmetrics : ∀ snapshot, Unbroken (print snapshot)) (hex : ∀ s, (ex s).Unbroken)
    (h : Machine.run (step W print route) as (new ex nodes) = some c) (s : S) :
    (c.storages s).Framed :=
  Node.run_framed (hprint s) hmetrics (hex s) ((step_simulates W print route s).run trivial h)

end

end Dbms.Server.Cluster
