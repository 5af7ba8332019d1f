import Dbms.Server.Answers

/-! What the table of jobs says of them, and what clients that ask for a job are told. -/

open Dbms.Core Dbms.Exec Dbms.Lib Dbms.Auth

namespace Dbms.Server

def JobRecord.finished (res : ExecResult) : JobRecord := ⟨if res.ok then .done else .error, res⟩

def JobRecord.submitted : JobRecord := ⟨.pending, noResult⟩

namespace Node
variable {D : Type} {n n' n'' : Node D} {i k : Nat} {W : World} {id : Text} {jr : JobRecord} {z : D}

def IdsDiffer (n : Node D) : Prop :=
  ∀ k k', (n.workers k).phase ≠ .absent → (n.workers k').phase ≠ .absent →
    (n.workers k).id = (n.workers k').id → k = k'

/-- What the table has of an id. -/
inductive Tells (n : Node D) (id : Text) : Option JobRecord → Prop where
  | unknown : (∀ k, (n.workers k).phase ≠ .absent → (n.workers k).id ≠ id) → Tells n id none
  | submitted (k : Nat) : (n.workers k).phase ≠ .absent → (n.workers k).id = id →
      (n.IdsDiffer → ∀ res, (n.workers k).phase ≠ .stored res) → Tells n id (some .submitted)
  | finished (k : Nat) (res : ExecResult) : (n.workers k).phase = .stored res →
      (n.workers k).id = id → Tells n id (some (.finished res))

def JobsTold (n : Node D) : Prop := ∀ id, n.Tells id (n.jobs.poll id)

theorem Extends.idsDiffer (hx : n.Extends n') (hd : n'.IdsDiffer) : n.IdsDiffer := by
  intro k k' hk hk' heq
  obtain ⟨h, hid, -⟩ := hx.worker k hk
  obtain ⟨h', hid', -⟩ := hx.worker k' hk'
  exact hd k k' h h' (hid.trans (heq.trans hid'.symm))

theorem Tells.known {jr : Option JobRecord} (ht : n.Tells id jr) (hk : (n.workers k).phase ≠ .absent)
    (hid : (n.workers k).id = id) : ∃ j, jr = some j := by
  cases ht with
  | unknown hno => exact absurd hid (hno k hk)
  | submitted | finished => exact ⟨_, rfl⟩

theorem Tells.mono {jr : Option JobRecord} (ht : n.Tells id jr) (hx : n.Extends n')
    (hback : ∀ k, (n'.workers k).phase ≠ .absent → (n'.workers k).id = id →
      (n.workers k).phase ≠ .absent ∧
        ∀ res, (n'.workers k).phase = .stored res → (n.workers k).phase = .stored res) :
    n'.Tells id jr := by
  cases ht with
  | unknown hno =>
    refine .unknown fun k hk hid => ?_
    have hk' := (hback k hk hid).1
    exact hno k hk' ((hx.worker k hk').2.1.symm.trans hid)
  | submitted k hk hid hno =>
    obtain ⟨hk', hid', -⟩ := hx.worker k hk
    refine .submitted k hk' (hid'.trans hid) fun hd res hres => ?_
    exact hno (hx.idsDiffer hd) res ((hback k hk' (hid'.trans hid)).2 res hres)
  | finished k res hk hid =>
    have hsame := hx.stored k res hk
    exact .finished k res (hsame ▸ hk) (hsame ▸ hid)

theorem Move.jobsTold {e : Event D} (hm : Move W z n e n') (ht : n.Tidy) (hj : n.JobsTold) :
    n'.JobsTold := by
  have hx := hm.extends ht
  cases hm with
  | submits i _ bytes jwt sql hphase =>
    set w : Worker := ⟨makeGuidV4 bytes, i, .waiting⟩
    set m := (({ n with jobs := n.jobs.submit (makeGuidV4 bytes), spawned := n.spawned + 1 } :
      Node D).setWorker n.spawned w).answer i (jobLine (makeGuidV4 bytes)) _
    have hnew : m.workers n.spawned = w := setWorker_self
    intro id
    by_cases hid : id = w.id
    · subst hid
      rw [show m.jobs.poll w.id = some .submitted from Finmap.lookup_insert _]
      refine .submitted n.spawned ?_ ?_ ?_ <;> simp [hnew, w]
    · rw [show m.jobs.poll id = n.jobs.poll id from Finmap.lookup_insert_of_ne _ hid]
      refine (hj id).mono hx fun k hk hkid => ?_
      have hne : k ≠ n.spawned := by
        rintro rfl
        exact hid (hkid.symm.trans (congrArg Worker.id hnew))
      have hold : m.workers k = n.workers k := setWorker_of_ne hne
      rw [hold] at hk ⊢
      exact ⟨hk, fun _ h => h⟩
  | begins k hphase | works k _ _ _ _ _ hphase =>
    refine fun id => (hj id).mono hx fun j hj _ => ?_
    by_cases hjk : j = k
    · subst hjk
      simp [hphase]
    · rw [setWorker_of_ne hjk] at hj ⊢
      exact ⟨hj, fun _ h => h⟩
  | stores k res hphase =>
    intro id
    set m := ({ n with jobs := n.jobs.finish (n.workers k).id res } : Node D).setWorker k
      { n.workers k with phase := .stored res }
    have hself : m.workers k = { n.workers k with phase := .stored res } := setWorker_self
    by_cases hid : id = (n.workers k).id
    · subst hid
      obtain ⟨jr, hjr⟩ := (hj (n.workers k).id).known (by simp [hphase]) rfl
      rw [show m.jobs.poll (n.workers k).id = some (.finished res) from
        JobQueue.finish_lookup hjr res]
      exact .finished k res (by rw [hself]) (by rw [hself])
    · rw [show m.jobs.poll id = n.jobs.poll id from JobQueue.finish_lookup_of_ne hid res]
      refine (hj id).mono hx fun j hj hjid => ?_
      have hne : j ≠ k := by
        rintro rfl
        rw [hself] at hjid
        exact hid hjid.symm
      have hold : m.workers j = n.workers j := setWorker_of_ne hne
      rw [hold] at hj ⊢
      exact ⟨hj, fun _ h => h⟩
  | _ => exact fun id => (hj id).mono hx fun _ hk _ => ⟨hk, fun _ h => h⟩

theorem JobsTold.new (ex : Executor) : (Node.new ex : Node D).JobsTold :=
  fun _ => .unknown fun _ hk => absurd rfl hk

/-- A poll is answered with what the table has then. -/
theorem Move.polled {e : Event D} (hm : Move W z n e n') (hs : n.Sane)
    (hask : (n'.handlers i).asks = some (.poll id)) {r : Option ExecResult}
    (hclosed : (n'.handlers i).phase = .closed r) : n'.handlers i = n.handlers i ∨
      n'.jobs = n.jobs ∧ (n'.handlers i).output = pollReply (n.jobs.poll id) := by
  have hother : ∀ {m : Node D} {j : Nat} {h : Handler}, m.handlers i = n.handlers i → i ≠ j →
      (m.setHandler j h).handlers i = n.handlers i :=
    fun hsame hij => (setHandler_of_ne hij).trans hsame
  have hasks : (n.handlers i).phase ≠ .absent → (n.handlers i).asks = some (.poll id) :=
    fun hphase => (Handler.asks_congr ((hm.extends hs.tidy).input i hphase).2).symm.trans hask
  have hfits := hs.fits i
  unfold Handler.Fits at hfits
  -- Only the answer to a poll closes the connection of a client that polls.
  cases hm with
  | accept input =>
    by_cases hi : i = n.accepted
    · subst hi
      rw [show (n.accept input).handlers n.accepted = ⟨input, .opened, []⟩ from setHandler_self]
        at hclosed
      cases hclosed
    · exact .inl (hother rfl hi)
  | closes j _ _ reply hphase _ hreply _ =>
    by_cases hi : i = j
    · subst hi
      rw [hphase] at hfits
      refine .inr ⟨rfl, ?_⟩
      rw [answer_self, ← hreply id (hasks (by simp [hphase]))]
      show (n.handlers i).output ++ reply = reply
      rw [hfits]
      rfl
    · exact .inl (hother rfl hi)
  | logs j _ _ _ sql res hphase =>
    by_cases hi : i = j
    · subst hi
      rw [hphase] at hfits
      obtain ⟨⟨jwt, hsql⟩, -⟩ := hfits
      cases hsql.symm.trans (hasks (by simp [hphase]))
    · exact .inl (hother rfl hi)
  | leaves j _ _ jwt sql hphase _ =>
    by_cases hi : i = j
    · subst hi
      rw [hphase] at hfits
      cases hfits.symm.trans (hasks (by simp [hphase]))
    · exact .inl (hother rfl hi)
  | starts j t0 _ b jwt sql _ =>
    by_cases hi : i = j
    · subst hi
      cases b <;> simp at hclosed
    · exact .inl (hother rfl hi)
  | enters j | executes j | records j | notes j | submits j =>
    by_cases hi : i = j
    · subst hi
      simp at hclosed
    · exact .inl (hother rfl hi)
  | begins | works | stops | outlived | stores => exact .inl rfl

/-- What a client that asks for a job may be told between `n` and `n'`. -/
inductive Told (n n' : Node D) (id : Text) : Text → Prop where
  | unknown : (∀ k, (n.workers k).phase ≠ .absent → (n.workers k).id ≠ id) →
      Told n n' id (pollReply none)
  | submitted (k : Nat) : (n'.workers k).phase ≠ .absent → (n'.workers k).id = id →
      (n'.IdsDiffer → ∀ res, (n.workers k).phase ≠ .stored res) →
      Told n n' id (pollReply (some .submitted))
  | finished (k : Nat) (res : ExecResult) : (n'.workers k).phase = .stored res →
      (n'.workers k).id = id → n'.replies (.worker k) = some res →
      Told n n' id (pollReply (some (.finished res)))

theorem Tells.told {jr : Option JobRecord} (ht : n'.Tells id jr) (hx : n.Extends n') :
    n.Told n' id (pollReply jr) := by
  cases ht with
  | unknown hno =>
    refine .unknown fun k hk hid => ?_
    obtain ⟨hk', hid', -⟩ := hx.worker k hk
    exact hno k hk' (hid'.trans hid)
  | submitted k hk hid hno =>
    refine .submitted k hk hid fun hd res hres => hno hd res ?_
    rwa [hx.stored k res hres]
  | finished k res hk hid =>
    refine .finished k res hk hid ?_
    simp [replies, hk, WorkerPhase.reply]

theorem Told.later {out : Text} (ht : n.Told n' id out) (hx : n'.Extends n'') :
    n.Told n'' id out := by
  cases ht with
  | unknown hno => exact .unknown hno
  | submitted k hk hid hno =>
    obtain ⟨hk', hid', -⟩ := hx.worker k hk
    exact .submitted k hk' (hid'.trans hid) fun hd => hno (hx.idsDiffer hd)
  | finished k res hk hid hreply =>
    have hsame := hx.stored k res hk
    refine .finished k res (hsame ▸ hk) (hsame ▸ hid) ?_
    simp [replies, hsame, hk, WorkerPhase.reply]

section
variable [Zero D] [Add D] [Div D] [NatCast D] {print : Snapshot D → Text} {ex : Executor}
  {es es' : List (Event D)}

theorem run_jobsTold (hs : n.Sane) (hj : n.JobsTold)
    (h : Machine.run (Node.step W print) es n = some n') : n'.JobsTold :=
  (Machine.run_invariant (fun m => m.Sane ∧ m.JobsTold) (fun _ _ _ hI hstep =>
    have hm := step_move hstep
    ⟨hm.sane hI.1, hm.jobsTold hI.1.tidy hI.2⟩) ⟨hs, hj⟩ h).2

/-- A client that asks for a job between the states `n` and `n'` is told that there is none only if
it had not been submitted, that it waits only if it had not ended, and else what the executor has
answered. -/
theorem run_polls (h : Machine.run (Node.step W print) es (.new ex) = some n)
    (h' : Machine.run (Node.step W print) es' n = some n')
    (hask : (n'.handlers i).asks = some (.poll id)) (hopen : ∀ r, (n.handlers i).phase ≠ .closed r)
    {r : Option ExecResult} (hclosed : (n'.handlers i).phase = .closed r) :
    n.Told n' id (n'.handlers i).output := by
  obtain ⟨hs, -, -⟩ := run_sane [] (Sane.new ex) (fun e he => by cases he) h
  have hj := run_jobsTold (Sane.new ex) (JobsTold.new ex) h
  have hall := Machine.run_invariant (fun m => m.Sane ∧ m.JobsTold ∧ n.Extends m ∧
      ((m.handlers i).asks = some (.poll id) → ∀ r, (m.handlers i).phase = .closed r →
        n.Told m id (m.handlers i).output)) ?_
    ⟨hs, hj, Extends.shared n _ _ _ _ _ _, fun _ r hr => absurd hr (hopen r)⟩ h'
  · exact hall.2.2.2 hask r hclosed
  rintro e m m' ⟨hs, hj, hx, htold⟩ hstep
  have hm := step_move hstep
  have hx' := hm.extends hs.tidy
  refine ⟨hm.sane hs, hm.jobsTold hs.tidy hj, hx.trans hx', fun hask r hclosed => ?_⟩
  rcases hm.polled hs hask hclosed with hsame | ⟨hjobs, hout⟩
  · rw [hsame] at hask hclosed ⊢
    exact (htold hask r hclosed).later hx'
  · rw [hout, ← hjobs]
    exact (hm.jobsTold hs.tidy hj id).told (hx.trans hx')

end

def pollClient : List (Event Int) :=
  [.accept ("POLL\t".toList ++ makeGuidV4 [] ++ ['\n']), .read 2 5 0]

theorem polls_run : ((Machine.run (Node.step sampleWorld fun _ => [])
    (oneClient ++ otherClient ++ pollClient) (.new sampleStart)).map fun n =>
      ((n.handlers 2).asks, (n.handlers 2).phase)) =
        some (some (.poll (makeGuidV4 [])), .closed none) := by decide +kernel

theorem polls_open : ((Machine.run (Node.step sampleWorld fun _ => [])
    (oneClient ++ otherClient) (.new sampleStart)).map fun n => (n.handlers 2).phase) =
      some .absent := by decide +kernel

theorem run_polls_client : ∃ n n' : Node Int, n.Told n' (makeGuidV4 []) (n'.handlers 2).output := by
  obtain ⟨n', hrun, hend⟩ := Option.map_eq_some_iff.mp polls_run
  obtain ⟨n, h, h'⟩ := Machine.run_append.mp hrun
  have habsent := polls_open
  rw [h] at habsent
  obtain ⟨hask, hclosed⟩ := Prod.mk.inj hend
  refine ⟨n, n', run_polls h h' hask (fun r hr => ?_) hclosed⟩
  rw [Option.map_some, hr] at habsent
  cases habsent

end Node
end Dbms.Server
