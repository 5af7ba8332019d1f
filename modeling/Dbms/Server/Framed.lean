import Dbms.Exec.OneLine
import Dbms.Server.Answers

/-! Whatever a storage node sends over a connection is one line: a client that reads up to the first
line break has read the whole answer. -/

open Dbms.Core Dbms.Exec Dbms.Lib Dbms.Auth

namespace Dbms.Server

def Whole (s : Text) : Prop := s = [] ∨ ∃ line, Unbroken line ∧ s = line ++ ['\n']

theorem Whole.first {s : Text} (h : Whole s) (hne : s ≠ []) : (Net.readLine s).1 ++ ['\n'] = s := by
  obtain ⟨line, hline, rfl⟩ := h.resolve_left hne
  rw [Net.readLine_line hline []]

theorem okLine_whole {s : Text} (h : Unbroken s) : Whole (okLine s) :=
  .inr ⟨"OK\t".toList ++ s, .append (by decide) h, rfl⟩

theorem errLine_whole {s : Text} (h : Unbroken s) : Whole (errLine s) :=
  .inr ⟨"ERR\t".toList ++ s, .append (by decide) h, rfl⟩

theorem hexByte_unbroken (b : UInt8) : Unbroken (hexByte b) := by
  have hdigit : ∀ n, hexDigit n ≠ '\n' := by
    intro n
    unfold hexDigit
    rw [List.getD_eq_getElem?_getD]
    cases hn : "0123456789abcdef".toList[n]? with
    | none => decide
    | some c =>
      intro hc
      have hmem : c ∈ "0123456789abcdef".toList := List.mem_of_getElem? hn
      rw [show c = '\n' from hc] at hmem
      exact absurd hmem (by decide)
  exact (Unbroken.nil.cons (hdigit _)).cons (hdigit _)

theorem makeGuidV4_unbroken (bytes : Bytes) : Unbroken (makeGuidV4 bytes) := by
  unfold makeGuidV4
  have hdash : ∀ b, Unbroken ('-' :: hexByte b) := fun b => (hexByte_unbroken b).cons (by decide)
  dsimp only
  repeat' first
    | with_reducible apply Unbroken.append
    | with_reducible exact hexByte_unbroken _
    | with_reducible exact hdash _

theorem jobLine_whole (bytes : Bytes) : Whole (jobLine (makeGuidV4 bytes)) :=
  .inr ⟨"JOB\t".toList ++ makeGuidV4 bytes, .append (by decide) (makeGuidV4_unbroken bytes), rfl⟩

theorem syncReply_whole {res : ExecResult} (h : res.Unbroken) : Whole (syncReply res) := by
  unfold syncReply
  split
  · exact okLine_whole h.2
  · exact errLine_whole h.1

theorem pollReply_whole {r : Option JobRecord} (h : ∀ jr, r = some jr → jr.result.Unbroken) :
    Whole (pollReply r) := by
  cases r with
  | none => exact errLine_whole (by decide)
  | some jr =>
    obtain ⟨hmessage, hjson⟩ := h jr rfl
    have hok : Unbroken (boolText jr.result.ok) := by
      unfold boolText
      split <;> decide
    refine okLine_whole ?_
    exact ((((((Unbroken.append (by decide) (.natText _)).append (by decide)).append hok).append
      (by decide)).append hmessage).append (by decide)).append hjson |>.append (by decide)

theorem parseLine_unbroken {line jwt sql : Text} {b : Bool} (h : Unbroken line)
    (hask : parseLine line = .sql b jwt sql) : Unbroken sql := by
  unfold parseLine at hask
  split at hask
  · cases hask
  split at hask
  · cases hask
  split at hask
  · cases hask
  rename_i rest hrest
  split at hask
  · cases hask
  rename_i hsql
  cases hask
  have hbehind : Unbroken rest := (h.subset (List.dropWhile_suffix _).subset).subset
    (hrest ▸ List.subset_cons_self _ _)
  exact (hbehind.subset (List.dropWhile_suffix _).subset).subset (hsql ▸ List.subset_cons_self _ _)

theorem Handler.asks_unbroken {h : Handler} {jwt sql : Text} {b : Bool}
    (hasks : h.asks = some (.sql b jwt sql)) : Unbroken sql := by
  unfold Handler.asks at hasks
  cases hline : Net.readLine h.input with
  | mk line rest =>
    rw [hline] at hasks
    cases rest with
    | none => cases hasks
    | some rest => exact parseLine_unbroken (Net.readLine_eq hline).1 (Option.some.inj hasks)

namespace Node
variable {D : Type} {n n' : Node D} {W : World} {z : D} {e : Event D} {i j k t0 : Nat} {ex : Executor}

/-- No answer that is stored, on its way or sent has a line break inside. -/
structure Framed (n : Node D) : Prop where
  engine : n.engine.Unbroken
  jobs : ∀ id jr, n.jobs.lookup id = some jr → jr.result.Unbroken
  replies : ∀ o res, n.replies o = some res → res.Unbroken
  outputs : ∀ i, Whole (n.handlers i).output

theorem Framed.new (hex : ex.Unbroken) : (Node.new ex : Node D).Framed where
  engine := hex
  jobs _ _ h := by cases h
  replies o _ h := by cases o <;> cases h
  outputs _ := .inl rfl

theorem Framed.setHandler (hf : n.Framed) {h : Handler}
    (hreply : ∀ res, h.phase.reply = some res → res.Unbroken) (hout : Whole h.output) :
    (n.setHandler i h).Framed where
  engine := hf.engine
  jobs := hf.jobs
  replies o res ho := by
    rw [replies_setHandler] at ho
    by_cases hoi : o = .handler i
    · rw [hoi, Function.update_self] at ho
      exact hreply res ho
    · rw [Function.update_of_ne hoi] at ho
      exact hf.replies o res ho
  outputs j := by
    by_cases hj : j = i
    · rwa [hj, setHandler_self]
    · rw [setHandler_of_ne hj]
      exact hf.outputs j

theorem Framed.setWorker (hf : n.Framed) {w : Worker}
    (hreply : ∀ res, w.phase.reply = some res → res.Unbroken) : (n.setWorker k w).Framed where
  engine := hf.engine
  jobs := hf.jobs
  replies o res ho := by
    rw [replies_setWorker] at ho
    by_cases hok : o = .worker k
    · rw [hok, Function.update_self] at ho
      exact hreply res ho
    · rw [Function.update_of_ne hok] at ho
      exact hf.replies o res ho
  outputs := hf.outputs

theorem Framed.shared (hf : n.Framed) {jobs : JobQueue} (hex : ex.Unbroken)
    (busy : Option Origin) (hjobs : ∀ id jr, jobs.lookup id = some jr → jr.result.Unbroken)
    (tele : Telemetry D) (text : Text) (accepted spawned : Nat) (fate : Fate) :
    Framed { n with
      engine := ex, busy := busy, jobs := jobs, tele := tele, accessLog := text, accepted := accepted
      spawned := spawned, fate := fate } :=
  ⟨hex, hjobs, hf.replies, hf.outputs⟩

theorem insert_unbroken {jobs : JobQueue} {id : Text} {jr : JobRecord}
    (hjobs : ∀ id jr, jobs.lookup id = some jr → jr.result.Unbroken) (h : jr.result.Unbroken) :
    ∀ id' jr', Finmap.lookup id' (jobs.insert id jr) = some jr' → jr'.result.Unbroken := by
  intro id' jr' hlookup
  by_cases hid : id' = id
  · subst hid
    obtain rfl := Option.some.inj ((Finmap.lookup_insert _).symm.trans hlookup)
    exact h
  · exact hjobs id' jr' ((Finmap.lookup_insert_of_ne _ hid).symm.trans hlookup)

theorem finish_unbroken {jobs : JobQueue} {id : Text} {res : ExecResult}
    (hjobs : ∀ id jr, jobs.lookup id = some jr → jr.result.Unbroken) (h : res.Unbroken) :
    ∀ id' jr', (jobs.finish id res).lookup id' = some jr' → jr'.result.Unbroken := by
  unfold JobQueue.finish
  split
  · exact hjobs
  · exact insert_unbroken hjobs h

theorem reply_unbroken {s : Serve} {res : ExecResult} (hprint : W.print.Unbroken)
    (hsql : Unbroken s.call.request.sql) (hex : ex.Unbroken) (h : s.reply W ex = some res) :
    res.Unbroken ∧ (s.call.outcome W ex).state.Unbroken := by
  have hrun : (s.call.outcome W ex).Unbroken := execute_unbroken hprint _ hsql hex
  unfold Serve.reply at h
  split at h
  · rename_i hdone
    cases h
    rw [hdone] at hrun ⊢
    exact hrun
  · rename_i hraised
    rw [hraised] at hrun ⊢
    split at h <;> cases h
    exact ⟨failed_unbroken (by decide), hrun⟩
  · cases h

/-- A handler that reads its line answers it with one, if the metrics are printed as one. -/
theorem read_framed [Zero D] [Add D] [Div D] [NatCast D] {print : Snapshot D → Text} {now : Int}
    (hmetrics : ∀ snapshot, Unbroken (print snapshot)) (hs : n.Sane) (hf : n.Framed)
    (h : n.read print i t0 now = some n') : n'.Framed := by
  unfold read at h
  split at h
  · rename_i hphase
    have hout : (n.handlers i).output = [] := by
      have hfits := hs.fits i
      unfold Handler.Fits at hfits
      rwa [hphase] at hfits
    have hanswer : ∀ reply, Whole reply → (n.answer i reply (.closed none)).Framed := by
      intro reply hreply
      refine hf.setHandler nofun ?_
      rw [hout]
      exact hreply
    split at h
    · obtain rfl := Option.some.inj h
      exact hf.setHandler nofun (hf.outputs i)
    · split at h <;> obtain rfl := Option.some.inj h
      · exact hanswer _ (okLine_whole (hmetrics _))
      · exact hanswer _ (pollReply_whole fun jr hjr => hf.jobs _ jr hjr)
      · exact hanswer _ (errLine_whole (by decide))
      · exact hf.setHandler nofun (hf.outputs i)
      · exact hf.setHandler nofun (hf.outputs i)
  · cases h

theorem Move.framed (hm : Move W z n e n') (hread : ∀ i t0 now, e ≠ .read i t0 now)
    (hprint : W.print.Unbroken) (hs : n.Sane) (hf : n.Framed) : n'.Framed := by
  have silent : ∀ res : ExecResult, none = some res → res.Unbroken := fun _ h => by cases h
  cases hm with
  | accept input => exact (hf.shared hf.engine _ hf.jobs _ _ _ _ _).setHandler silent (.inl rfl)
  | closes i t0 now | starts i t0 now => exact absurd rfl (hread i t0 now)
  | enters i => exact (hf.shared hf.engine _ hf.jobs _ _ _ _ _).setHandler silent (hf.outputs i)
  | executes i ticks depth jwt sql t0 res ex hphase hrun =>
    have hfits := hs.fits i
    unfold Handler.Fits at hfits
    rw [hphase] at hfits
    have hdone : (Exec.execute W ticks depth (sqlRequest jwt sql) n.engine).Unbroken :=
      execute_unbroken hprint depth (Handler.asks_unbroken hfits.1) hf.engine
    rw [hrun] at hdone
    refine (hf.shared hdone.2 _ hf.jobs _ _ _ _ _).setHandler (fun res' hres => ?_) (hf.outputs i)
    cases hres
    exact hdone.1
  | stops | outlived => exact hf.shared hf.engine _ hf.jobs _ _ _ _ _
  | records i now ms sql t0 res hphase =>
    exact (hf.shared hf.engine _ hf.jobs _ _ _ _ _).setHandler
      (fun res' hres => hf.replies (.handler i) res'
        (by simpa [Node.replies, hphase, Phase.reply] using hres))
      (hf.outputs i)
  | leaves i => exact (hf.shared hf.engine _ hf.jobs _ _ _ _ _).setHandler silent (hf.outputs i)
  | logs i t0 t1 stored sql res hphase =>
    have hfits := hs.fits i
    unfold Handler.Fits at hfits
    rw [hphase] at hfits
    have hres : res.Unbroken := hf.replies (.handler i) res (by simp [Node.replies, hphase, Phase.reply])
    refine (hf.shared hf.engine _ hf.jobs _ _ _ _ _).setHandler (fun res' hres' => ?_) ?_
    · cases hres'
      exact hres
    · show Whole ((n.handlers i).output ++ syncReply res)
      rw [hfits.2]
      exact syncReply_whole hres
  | notes i => exact (hf.shared hf.engine _ hf.jobs _ _ _ _ _).setHandler silent (hf.outputs i)
  | submits i t0 bytes jwt sql hphase =>
    have hfits := hs.fits i
    unfold Handler.Fits at hfits
    rw [hphase] at hfits
    have hjobs : ∀ id jr, (n.jobs.submit (makeGuidV4 bytes)).lookup id = some jr →
        jr.result.Unbroken := insert_unbroken hf.jobs ⟨.nil, .nil⟩
    refine ((hf.shared hf.engine _ hjobs _ _ _ _ _).setWorker
      (w := ⟨makeGuidV4 bytes, i, .waiting⟩) silent).setHandler silent ?_
    show Whole ((n.handlers i).output ++ jobLine (makeGuidV4 bytes))
    rw [hfits.2]
    exact jobLine_whole bytes
  | begins k => exact (hf.shared hf.engine _ hf.jobs _ _ _ _ _).setWorker silent
  | works k ticks depth jwt sql res hphase hcaptures hreply =>
    have hsql := Handler.asks_unbroken ((hs.fits _).captures hcaptures)
    obtain ⟨hres, hex⟩ := reply_unbroken (s := ⟨.worker k, ⟨ticks, depth, sqlRequest jwt sql⟩⟩) hprint
      hsql hf.engine hreply
    refine (hf.shared hex _ hf.jobs _ _ _ _ _).setWorker fun res' hres' => ?_
    cases hres'
    exact hres
  | stores k res hphase =>
    have hres : res.Unbroken :=
      hf.replies (.worker k) res (by simp [Node.replies, hphase, WorkerPhase.reply])
    refine (hf.shared hf.engine _ (finish_unbroken hf.jobs hres) _ _ _ _ _).setWorker fun res' hres' => ?_
    cases hres'
    exact hres

section
variable [Zero D] [Add D] [Div D] [NatCast D] {print : Snapshot D → Text} {es : List (Event D)}

theorem run_framed (hprint : W.print.Unbroken) (hmetrics : ∀ snapshot, Unbroken (print snapshot))
    (hex : ex.Unbroken) (h : Machine.run (Node.step W print) es (.new ex) = some n) : n.Framed := by
  refine (Machine.run_invariant (fun m : Node D => m.Sane ∧ m.Framed) ?_ ⟨.new ex, .new hex⟩ h).2
  rintro e m m' ⟨hs, hf⟩ hstep
  have hm := step_move hstep
  refine ⟨hm.sane hs, ?_⟩
  cases e with
  | read i t0 now =>
    unfold Node.step at hstep
    split at hstep
    · cases hstep
    · exact read_framed hmetrics hs hf hstep
  | _ => exact hm.framed nofun hprint hs hf

theorem new_unbroken (salt : Bytes) (dataDir : Text) (files : Text → Text) :
    (Executor.new W salt dataDir .new files).Unbroken :=
  ⟨.new, fun d db hd => by cases hd⟩

end

def brokenClients : List (Event Int) :=
  [.accept "0\t\tCREATE DATABASE d\n;\n".toList, .read 0 1 0, .enter (.handler 0),
    .leave (.handler 0) (sampleTick 5) 1, .record 0 0 0, .log 0 2 .all,
    .accept "0\t\tAUTH LOGIN \"\n\" \"\"\n".toList, .read 1 3 0, .enter (.handler 1),
    .leave (.handler 1) (sampleTick 6) 1, .record 1 0 0, .log 1 4 (.first 9)]

theorem brokenClients_run : ((Machine.run (Node.step sampleWorld fun _ => []) brokenClients
    (.new sampleStart)).map fun n => ((n.handlers 0).output, (n.handlers 1).output.take 4)) =
      some ("OK\t\x7b\x7d\n".toList, "ERR\t".toList) := by decide +kernel

end Node
end Dbms.Server
