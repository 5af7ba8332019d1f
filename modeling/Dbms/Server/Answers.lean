import Dbms.Server.Refines

/-! What the connections of a storage node are answered, in every state that its threads reach. -/

open Dbms.Core Dbms.Exec Dbms.Lib Dbms.Auth

namespace Dbms.Server

namespace Handler
variable {h : Handler} {id : Text}

/-- What a handler has sent, and what it still knows, by where it stands. -/
def Fits (h : Handler) : Prop :=
  match h.phase with
  | .absent => h.input = [] ∧ h.output = []
  | .opened => h.output = []
  | .sync jwt sql _ | .executing jwt sql _ => h.asks = some (.sql false jwt sql) ∧ h.output = []
  | .executed sql _ _ | .recorded sql _ _ =>
    (∃ jwt, h.asks = some (.sql false jwt sql)) ∧ h.output = []
  | .async jwt sql _ => h.asks = some (.sql true jwt sql) ∧ h.output = []
  | .submitted jwt sql _ | .logged jwt sql => h.asks = some (.sql true jwt sql)
  | .closed (some res) => (∃ jwt sql, h.asks = some (.sql false jwt sql)) ∧ h.output = syncReply res
  | .closed none => ∀ jwt sql, h.asks ≠ some (.sql false jwt sql)

def Owns (h : Handler) (id : Text) : Prop :=
  (∃ jwt sql, h.asks = some (.sql true jwt sql)) ∧ h.output = jobLine id ∧
    ((h.phase.captures).isSome ∨ h.phase = .closed none)

theorem asks_congr {h h' : Handler} (hin : h'.input = h.input) : h'.asks = h.asks := by
  simp only [asks, hin]

theorem Fits.captures (hf : h.Fits) {jwt sql : Text} (hc : h.phase.captures = some (jwt, sql)) :
    h.asks = some (.sql true jwt sql) := by
  unfold Fits at hf
  cases hp : h.phase <;> rw [hp] at hc hf <;> cases hc <;> exact hf

theorem Fits.sync (hf : h.Fits) {jwt sql : Text} (ha : h.asks = some (.sql false jwt sql)) :
    h.output = [] ∨ ∃ res, h.phase = .closed (some res) ∧ h.output = syncReply res := by
  unfold Fits at hf
  cases hp : h.phase with
  | absent | sync | executing | executed | recorded | async =>
    rw [hp] at hf
    exact .inl hf.2
  | opened =>
    rw [hp] at hf
    exact .inl hf
  | submitted | logged =>
    rw [hp] at hf
    rw [hf] at ha
    cases ha
  | closed r =>
    rw [hp] at hf
    cases r with
    | none => exact absurd ha (hf jwt sql)
    | some res => exact .inr ⟨res, rfl, hf.2⟩

end Handler

namespace Node
variable {D : Type} {n n' : Node D} {i j k : Nat} {h : Handler} {w : Worker} {W : World} {z : D}

/-- What holds of the threads in every state that they reach. -/
structure Sane (n : Node D) : Prop where
  tidy : n.Tidy
  fits : ∀ i, (n.handlers i).Fits
  owned : ∀ k, (n.workers k).phase ≠ .absent →
    (n.handlers (n.workers k).owner).Owns (n.workers k).id
  single : ∀ k k', (n.workers k).phase ≠ .absent → (n.workers k').phase ≠ .absent →
    (n.workers k).owner = (n.workers k').owner → k = k'
  served : ∀ i jwt sql, (n.handlers i).asks = some (.sql true jwt sql) →
    (n.handlers i).output = [] ∨ ∃ k, (n.workers k).phase ≠ .absent ∧ (n.workers k).owner = i

def asked (n : Node D) : Origin → Option Exec.Request
  | .handler i =>
    match (n.handlers i).asks with
    | some (.sql false jwt sql) => some (sqlRequest jwt sql)
    | _ => none
  | .worker k =>
    if (n.workers k).phase = .absent then none
    else
      match (n.handlers (n.workers k).owner).asks with
      | some (.sql true jwt sql) => some (sqlRequest jwt sql)
      | _ => none

theorem Sane.new (ex : Executor) : (Node.new ex : Node D).Sane where
  tidy := .new ex
  fits _ := ⟨rfl, rfl⟩
  owned _ hk := absurd rfl hk
  single _ _ hk := absurd rfl hk
  served _ _ _ _ := .inl rfl

theorem Sane.shared (hs : n.Sane) (ex : Executor) (busy : Option Origin) (jobs : JobQueue)
    (tele : Telemetry D) (text : Text) :
    Sane { n with engine := ex, busy := busy, jobs := jobs, tele := tele, accessLog := text } :=
  ⟨hs.tidy.shared ex busy jobs tele text, hs.fits, hs.owned, hs.single, hs.served⟩

theorem Sane.setHandler (hs : n.Sane) (hphase : (n.handlers i).phase ≠ .absent)
    (hin : h.input = (n.handlers i).input) (hfits : h.Fits)
    (howns : ∀ id, (n.handlers i).Owns id → h.Owns id)
    (hout : (∃ jwt sql, h.asks = some (.sql true jwt sql)) → h.output = (n.handlers i).output) :
    (n.setHandler i h).Sane where
  tidy := hs.tidy.setHandler hphase h
  fits j := by
    by_cases hj : j = i
    · subst hj
      rwa [setHandler_self]
    · rw [setHandler_of_ne hj]
      exact hs.fits j
  owned k hk := by
    have hown := hs.owned k hk
    by_cases hj : (n.workers k).owner = i
    · rw [hj] at hown
      show ((n.setHandler i h).handlers (n.workers k).owner).Owns (n.workers k).id
      rw [hj, setHandler_self]
      exact howns _ hown
    · show ((n.setHandler i h).handlers (n.workers k).owner).Owns (n.workers k).id
      rwa [setHandler_of_ne hj]
  single := hs.single
  served j jwt sql hasks := by
    by_cases hj : j = i
    · subst hj
      rw [setHandler_self] at hasks ⊢
      rw [hout ⟨jwt, sql, hasks⟩]
      exact hs.served j jwt sql (by rwa [← Handler.asks_congr hin])
    · rw [setHandler_of_ne hj] at hasks ⊢
      exact hs.served j jwt sql hasks

theorem Sane.setWorker (hs : n.Sane) (hphase : (n.workers k).phase ≠ .absent)
    (hid : w.id = (n.workers k).id) (howner : w.owner = (n.workers k).owner)
    (hw : w.phase ≠ .absent) : (n.setWorker k w).Sane := by
  have hsame : ∀ j, ((n.setWorker k w).workers j).id = (n.workers j).id ∧
      ((n.setWorker k w).workers j).owner = (n.workers j).owner ∧
      (((n.setWorker k w).workers j).phase = .absent ↔ (n.workers j).phase = .absent) := by
    intro j
    by_cases hj : j = k
    · subst hj
      rw [setWorker_self]
      exact ⟨hid, howner, iff_of_false hw hphase⟩
    · rw [setWorker_of_ne hj]
      exact ⟨rfl, rfl, Iff.rfl⟩
  refine ⟨hs.tidy.setWorker hphase w, hs.fits, fun j hj => ?_, fun j j' hj hj' heq => ?_,
    fun i jwt sql hasks => ?_⟩
  · rw [(hsame j).1, (hsame j).2.1]
    exact hs.owned j (mt (hsame j).2.2.mpr hj)
  · rw [(hsame j).2.1, (hsame j').2.1] at heq
    exact hs.single j j' (mt (hsame j).2.2.mpr hj) (mt (hsame j').2.2.mpr hj') heq
  · refine (hs.served i jwt sql hasks).imp_right ?_
    rintro ⟨j, hj, hown⟩
    exact ⟨j, mt (hsame j).2.2.mp hj, (hsame j).2.1.trans hown⟩

theorem Sane.accept (hs : n.Sane) (input : Text) : (n.accept input).Sane := by
  have habsent := hs.tidy.handlers n.accepted le_rfl
  have hne : ∀ k, (n.workers k).phase ≠ .absent → (n.workers k).owner ≠ n.accepted := by
    intro k hk heq
    obtain ⟨-, -, hc | hc⟩ := hs.owned k hk <;> rw [heq, habsent] at hc <;> cases hc
  have hother : ∀ {j}, j ≠ n.accepted → (n.accept input).handlers j = n.handlers j :=
    fun hj => setHandler_of_ne hj
  have hself : (n.accept input).handlers n.accepted = ⟨input, .opened, []⟩ := setHandler_self
  refine ⟨hs.tidy.accept input, fun j => ?_, fun k hk => ?_, hs.single, fun j jwt sql hasks => ?_⟩
  · by_cases hj : j = n.accepted
    · subst hj
      rw [hself]
      rfl
    · rw [hother hj]
      exact hs.fits j
  · show ((n.accept input).handlers (n.workers k).owner).Owns (n.workers k).id
    rw [hother (hne k hk)]
    exact hs.owned k hk
  · by_cases hj : j = n.accepted
    · subst hj
      rw [hself]
      exact .inl rfl
    · rw [hother hj] at hasks ⊢
      exact hs.served j jwt sql hasks

theorem Sane.submit (hs : n.Sane) {jwt sql id : Text} {t0 : Nat}
    (hphase : (n.handlers i).phase = .async jwt sql t0) (jobs : JobQueue) :
    (({ n with jobs := jobs, spawned := n.spawned + 1 }.setWorker n.spawned
      ⟨id, i, .waiting⟩).answer i (jobLine id) (.submitted jwt sql t0)).Sane := by
  have hfits := hs.fits i
  unfold Handler.Fits at hfits
  rw [hphase] at hfits
  obtain ⟨hasks, hout⟩ := hfits
  have habsent := hs.tidy.workers n.spawned le_rfl
  have hfree : ∀ k, (n.workers k).phase ≠ .absent → (n.workers k).owner ≠ i := by
    intro k hk heq
    obtain ⟨-, -, hc | hc⟩ := hs.owned k hk <;> rw [heq, hphase] at hc <;> cases hc
  -- The new worker has a number that no thread had, and its handler owned no job before.
  set m := (({ n with jobs := jobs, spawned := n.spawned + 1 } : Node D).setWorker n.spawned
    ⟨id, i, .waiting⟩).answer i (jobLine id) (.submitted jwt sql t0)
  have hnew : m.workers n.spawned = ⟨id, i, .waiting⟩ := setWorker_self
  have hold : ∀ {k}, k ≠ n.spawned → m.workers k = n.workers k := fun hk => setWorker_of_ne hk
  have hself : m.handlers i =
      ⟨(n.handlers i).input, .submitted jwt sql t0, (n.handlers i).output ++ jobLine id⟩ :=
    setHandler_self
  have hother : ∀ {j}, j ≠ i → m.handlers j = n.handlers j := fun hj => setHandler_of_ne hj
  refine ⟨(hs.tidy.spawn jobs ⟨id, i, .waiting⟩).setHandler ?_ _, fun j => ?_, fun k hk => ?_,
    fun k k' hk hk' heq => ?_, fun j jwt' sql' hasks' => ?_⟩
  · show (n.handlers i).phase ≠ .absent
    simp [hphase]
  · by_cases hj : j = i
    · subst hj
      rw [hself]
      exact hasks
    · rw [hother hj]
      exact hs.fits j
  · by_cases hnk : k = n.spawned
    · subst hnk
      rw [hnew, hself, hout]
      exact ⟨⟨jwt, sql, hasks⟩, rfl, .inl rfl⟩
    · rw [hold hnk] at hk ⊢
      rw [hother (hfree k hk)]
      exact hs.owned k hk
  · by_cases hnk : k = n.spawned <;> by_cases hnk' : k' = n.spawned
    · rw [hnk, hnk']
    · subst hnk
      rw [hnew, hold hnk'] at heq
      rw [hold hnk'] at hk'
      exact absurd heq.symm (hfree k' hk')
    · subst hnk'
      rw [hnew, hold hnk] at heq
      rw [hold hnk] at hk
      exact absurd heq (hfree k hk)
    · rw [hold hnk] at heq hk
      rw [hold hnk'] at heq hk'
      exact hs.single k k' hk hk' heq
  · by_cases hj : j = i
    · subst hj
      refine .inr ⟨n.spawned, ?_, congrArg Worker.owner hnew⟩
      rw [hnew]
      simp
    · rw [hother hj] at hasks' ⊢
      refine (hs.served j jwt' sql' hasks').imp_right ?_
      rintro ⟨k, hk, hown⟩
      have hnk : k ≠ n.spawned := by
        rintro rfl
        exact hk habsent
      exact ⟨k, by rwa [hold hnk], (congrArg Worker.owner (hold hnk)).trans hown⟩

theorem Move.sane {e : Event D} (hm : Move W z n e n') (hs : n.Sane) : n'.Sane := by
  cases hm with
  | accept input => exact hs.accept input
  | closes i _ _ reply hphase hasks _ _ =>
    refine hs.setHandler (by simp [hphase]) rfl (fun jwt sql => hasks false jwt sql) ?_ ?_
    · simp [Handler.Owns, hphase, Phase.captures]
    · rintro ⟨jwt, sql, ha⟩
      exact absurd ha (hasks true jwt sql)
  | starts i t0 _ b jwt sql hphase hasks =>
    have hout : (n.handlers i).output = [] := by
      have hfits := hs.fits i
      unfold Handler.Fits at hfits
      rwa [hphase] at hfits
    refine hs.setHandler (by simp [hphase]) rfl ?_ ?_ fun _ => rfl
    · cases b <;> exact ⟨hasks, hout⟩
    · simp [Handler.Owns, hphase, Phase.captures]
  | enters i jwt sql t0 hphase =>
    have hfits := hs.fits i
    unfold Handler.Fits at hfits
    rw [hphase] at hfits
    refine (hs.shared _ _ _ _ _).setHandler (by simp [hphase]) rfl hfits ?_ fun _ => rfl
    simp [Handler.Owns, hphase, Phase.captures]
  | executes i _ _ jwt sql t0 res ex hphase _ =>
    have hfits := hs.fits i
    unfold Handler.Fits at hfits
    rw [hphase] at hfits
    refine (hs.shared _ _ _ _ _).setHandler (by simp [hphase]) rfl ⟨⟨jwt, hfits.1⟩, hfits.2⟩ ?_
      fun _ => rfl
    simp [Handler.Owns, hphase, Phase.captures]
  | stops | outlived =>
    exact ⟨⟨hs.tidy.handlers, hs.tidy.workers⟩, hs.fits, hs.owned, hs.single, hs.served⟩
  | records i _ _ sql t0 res hphase =>
    have hfits := hs.fits i
    unfold Handler.Fits at hfits
    rw [hphase] at hfits
    refine (hs.shared _ _ _ _ _).setHandler (by simp [hphase]) rfl hfits ?_ fun _ => rfl
    simp [Handler.Owns, hphase, Phase.captures]
  -- The handler of a job returns: from here on the variables of its job are gone.
  | leaves i _ _ jwt sql hphase =>
    have hasks := (hs.fits i).captures (by rw [hphase]; rfl : _ = some (jwt, sql))
    refine (hs.shared _ _ _ _ _).setHandler (by simp [hphase]) rfl (fun jwt' sql' ha => ?_) ?_
      fun _ => rfl
    · cases hasks.symm.trans ha
    · exact fun id hown => ⟨hown.1, hown.2.1, .inr rfl⟩
  | logs i t0 _ _ sql res hphase =>
    have hfits := hs.fits i
    unfold Handler.Fits at hfits
    rw [hphase] at hfits
    obtain ⟨⟨jwt, hasks⟩, hout⟩ := hfits
    refine (hs.shared _ _ _ _ _).setHandler (by simp [hphase]) rfl ⟨⟨jwt, sql, hasks⟩, ?_⟩ ?_ ?_
    · show (n.handlers i).output ++ syncReply res = syncReply res
      rw [hout]
      rfl
    · simp [Handler.Owns, hphase, Phase.captures]
    · rintro ⟨jwt', sql', ha⟩
      cases hasks.symm.trans ha
  | notes i t0 _ _ jwt sql hphase =>
    have hasks := (hs.fits i).captures (by rw [hphase]; rfl : _ = some (jwt, sql))
    refine (hs.shared _ _ _ _ _).setHandler (by simp [hphase]) rfl hasks ?_ fun _ => rfl
    exact fun id hown => ⟨hown.1, hown.2.1, .inl rfl⟩
  | submits i _ bytes jwt sql hphase => exact hs.submit hphase _
  | begins k hphase | works k _ _ _ _ res hphase | stores k res hphase =>
    exact (hs.shared _ _ _ _ _).setWorker (by simp [hphase]) rfl rfl (by simp)

structure Extends (n n' : Node D) : Prop where
  input : ∀ i, (n.handlers i).phase ≠ .absent →
    (n'.handlers i).phase ≠ .absent ∧ (n'.handlers i).input = (n.handlers i).input
  closed : ∀ i r, (n.handlers i).phase = .closed r → n'.handlers i = n.handlers i
  worker : ∀ k, (n.workers k).phase ≠ .absent → (n'.workers k).phase ≠ .absent ∧
    (n'.workers k).id = (n.workers k).id ∧ (n'.workers k).owner = (n.workers k).owner
  stored : ∀ k res, (n.workers k).phase = .stored res → n'.workers k = n.workers k

theorem Extends.shared (n : Node D) (ex : Executor) (busy : Option Origin) (jobs : JobQueue)
    (tele : Telemetry D) (text : Text) (fate : Fate) : n.Extends { n with
      engine := ex, busy := busy, jobs := jobs, tele := tele, accessLog := text, fate := fate } :=
  ⟨fun _ hi => ⟨hi, rfl⟩, fun _ _ _ => rfl, fun _ hk => ⟨hk, rfl, rfl⟩, fun _ _ _ => rfl⟩

theorem Extends.trans {n'' : Node D} (h₁ : n.Extends n') (h₂ : n'.Extends n'') : n.Extends n'' where
  input i hi := by
    obtain ⟨hi', hin⟩ := h₁.input i hi
    exact (h₂.input i hi').imp_right fun h => h.trans hin
  closed i r hr := by
    have hsame := h₁.closed i r hr
    exact (h₂.closed i r (hsame ▸ hr)).trans hsame
  worker k hk := by
    obtain ⟨hk', hid, hown⟩ := h₁.worker k hk
    exact (h₂.worker k hk').imp_right fun h => ⟨h.1.trans hid, h.2.trans hown⟩
  stored k res hk := by
    have hsame := h₁.stored k res hk
    exact (h₂.stored k res (hsame ▸ hk)).trans hsame

theorem Extends.setHandler (hphase : (n.handlers i).phase ≠ .absent)
    (hopen : ∀ r, (n.handlers i).phase ≠ .closed r) (hin : h.input = (n.handlers i).input)
    (hh : h.phase ≠ .absent) : n.Extends (n.setHandler i h) where
  input j hj := by
    by_cases hji : j = i
    · subst hji
      rw [setHandler_self]
      exact ⟨hh, hin⟩
    · rw [setHandler_of_ne hji]
      exact ⟨hj, rfl⟩
  closed j r hr := setHandler_of_ne (by rintro rfl; exact hopen r hr)
  worker _ hk := ⟨hk, rfl, rfl⟩
  stored _ _ _ := rfl

theorem Extends.setWorker (hphase : (n.workers k).phase ≠ .absent)
    (hopen : ∀ res, (n.workers k).phase ≠ .stored res) (hid : w.id = (n.workers k).id)
    (howner : w.owner = (n.workers k).owner) (hw : w.phase ≠ .absent) :
    n.Extends (n.setWorker k w) where
  input _ hi := ⟨hi, rfl⟩
  closed _ _ _ := rfl
  worker j hj := by
    by_cases hjk : j = k
    · subst hjk
      rw [setWorker_self]
      exact ⟨hw, hid, howner⟩
    · rw [setWorker_of_ne hjk]
      exact ⟨hj, rfl, rfl⟩
  stored j res hj := setWorker_of_ne (by rintro rfl; exact hopen res hj)

theorem Move.extends {e : Event D} (hm : Move W z n e n') (ht : n.Tidy) : n.Extends n' := by
  cases hm with
  | accept input =>
    have hne : ∀ {i}, (n.handlers i).phase ≠ .absent → i ≠ n.accepted := by
      rintro i hi rfl
      exact hi (ht.handlers _ le_rfl)
    have hsame : ∀ {i}, i ≠ n.accepted → (n.accept input).handlers i = n.handlers i :=
      fun hi => setHandler_of_ne hi
    refine ⟨fun i hi => ?_, fun i r hr => hsame (hne (by simp [hr])), fun _ hk => ⟨hk, rfl, rfl⟩,
      fun _ _ _ => rfl⟩
    rw [hsame (hne hi)]
    exact ⟨hi, rfl⟩
  | starts i t0 _ b _ _ hphase =>
    exact Extends.setHandler (by simp [hphase]) (by simp [hphase]) rfl (by cases b <;> simp)
  | stops | outlived => exact Extends.shared n _ _ _ _ _ _
  | submits i _ bytes _ _ hphase =>
    have hne : ∀ {k}, (n.workers k).phase ≠ .absent → k ≠ n.spawned := by
      rintro k hk rfl
      exact hk (ht.workers _ le_rfl)
    have hspawn : n.Extends ({ n with
        jobs := n.jobs.submit (makeGuidV4 bytes), spawned := n.spawned + 1 }.setWorker
          n.spawned ⟨makeGuidV4 bytes, i, .waiting⟩) := by
      refine ⟨fun _ hi => ⟨hi, rfl⟩, fun _ _ _ => rfl, fun k hk => ?_, fun k res hk => ?_⟩
      · rw [setWorker_of_ne (hne hk)]
        exact ⟨hk, rfl, rfl⟩
      · rw [setWorker_of_ne (hne (by simp [hk]))]
    refine hspawn.trans (Extends.setHandler ?_ ?_ rfl (by simp))
    · show (n.handlers i).phase ≠ .absent
      simp [hphase]
    · show ∀ r, (n.handlers i).phase ≠ .closed r
      simp [hphase]
  | begins k hphase | works k _ _ _ _ _ hphase | stores k _ hphase =>
    exact (Extends.shared _ _ _ _ _ _ _).trans
      (Extends.setWorker (by simp [hphase]) (by simp [hphase]) rfl rfl (by simp))
  | closes i _ _ _ hphase | enters i _ _ _ hphase | executes i _ _ _ _ _ _ _ hphase
  | records i _ _ _ _ _ hphase | leaves i _ _ _ _ hphase | logs i _ _ _ _ _ hphase
  | notes i _ _ _ _ _ hphase =>
    exact (Extends.shared _ _ _ _ _ _ _).trans
      (Extends.setHandler (by simp [hphase]) (by simp [hphase]) rfl (by simp))

theorem Extends.asks (hx : n.Extends n') (hs : n.Sane) {a : Ask}
    (ha : (n.handlers i).asks = some a) : (n'.handlers i).asks = some a := by
  have hphase : (n.handlers i).phase ≠ .absent := by
    intro habsent
    have hfits := hs.fits i
    unfold Handler.Fits at hfits
    rw [habsent] at hfits
    unfold Handler.asks at ha
    rw [hfits.1] at ha
    cases ha
  rw [Handler.asks_congr (hx.input i hphase).2, ha]

theorem Extends.asked {o : Origin} {r : Exec.Request} (hx : n.Extends n') (hs : n.Sane)
    (ho : n.asked o = some r) : n'.asked o = some r := by
  cases o with
  | handler i =>
    unfold Node.asked at ho ⊢
    dsimp only at ho ⊢
    cases ha : (n.handlers i).asks with
    | none =>
      rw [ha] at ho
      cases ho
    | some a => rwa [hx.asks hs ha, ← ha]
  | worker k =>
    unfold Node.asked at ho ⊢
    dsimp only at ho ⊢
    split at ho
    · cases ho
    rename_i hphase
    obtain ⟨hphase', -, howner⟩ := hx.worker k hphase
    rw [if_neg hphase', howner]
    cases ha : (n.handlers (n.workers k).owner).asks with
    | none =>
      rw [ha] at ho
      cases ho
    | some a => rwa [hx.asks hs ha, ← ha]

theorem Sane.pending (hs : n.Sane) {ticks : List Nat → Tick} {depth : Nat} {o : Origin} {s : Serve}
    (h : n.pending ticks depth o = some s) : n.asked s.origin = some s.call.request := by
  cases o with
  | handler i =>
    have hfits := hs.fits i
    unfold Handler.Fits at hfits
    unfold Node.pending at h
    cases hp : (n.handlers i).phase with
    | executing jwt sql t0 =>
      rw [hp] at hfits
      simp only [hp] at h
      cases h
      simp only [Node.asked, hfits.1]
    | _ =>
      simp only [hp] at h
      cases h
  | worker k =>
    unfold Node.pending at h
    cases hp : (n.workers k).phase with
    | running =>
      simp only [hp] at h
      obtain ⟨c, hc, rfl⟩ := Option.map_eq_some_iff.mp h
      simp [Node.asked, hp, (hs.fits _).captures hc]
    | _ =>
      simp only [hp] at h
      cases h

theorem Sane.serves (hs : n.Sane) {e : Event D} {s : Serve} (h : n.serves W e = some s) :
    n.asked s.origin = some s.call.request := by
  unfold Node.serves at h
  cases e with
  | leave o ticks depth => exact hs.pending (Option.filter_eq_some_iff.mp h).1
  | _ => cases h

/-- Everything that the clients of the node have seen is what a single executor answers that serves
the requests of `served` one after the other. -/
structure Serves (W : World) (ex : Executor) (n : Node D) (served : List Serve) : Prop where
  engine : n.engine = runAll W (served.map Serve.call) ex
  once : (served.map Serve.origin).Nodup
  asked : ∀ e ∈ served, n.asked e.origin = some e.call.request
  replies : ∀ o res, n.replies o = some res ↔
    ∃ e pre post, e.origin = o ∧ Served W ex served e res pre post
  sync : ∀ i jwt sql, (n.handlers i).asks = some (.sql false jwt sql) → (n.handlers i).output = [] ∨
    ∃ res, n.replies (.handler i) = some res ∧ (n.handlers i).output = syncReply res
  job : ∀ i jwt sql, (n.handlers i).asks = some (.sql true jwt sql) → (n.handlers i).output = [] ∨
    ∃ k, (n.workers k).phase ≠ .absent ∧ (n.workers k).owner = i ∧
      (n.handlers i).output = jobLine (n.workers k).id ∧
      ∀ k', (n.workers k').phase ≠ .absent → (n.workers k').owner = i → k' = k

theorem Sane.done (hs : n.Sane) {ex : Executor} {served : List Serve}
    (hrun : Machine.run (Serial.step W) served (Node.new ex : Node D).toSerial = some n.toSerial)
    (hasked : ∀ e ∈ served, n.asked e.origin = some e.call.request) : n.Serves W ex served where
  engine := Serial.run_engine hrun
  once := (Serial.run_once hrun).1
  asked := hasked
  replies o res := by
    refine (Serial.run_replies hrun).trans (or_iff_right ?_)
    cases o <;> simp [toSerial, Node.replies, Node.new, Phase.reply, WorkerPhase.reply]
  sync i jwt sql hasks := by
    refine ((hs.fits i).sync hasks).imp_right ?_
    rintro ⟨res, hphase, hout⟩
    refine ⟨res, ?_, hout⟩
    simp [Node.replies, hphase, Phase.reply]
  job i jwt sql hasks := by
    refine (hs.served i jwt sql hasks).imp_right ?_
    rintro ⟨k, hk, rfl⟩
    exact ⟨k, hk, rfl, (hs.owned k hk).2.1, fun k' hk' heq => hs.single k' k hk' hk heq⟩

section
variable [Zero D] [Add D] [Div D] [NatCast D] {print : Snapshot D → Text} {ex : Executor}
  {es es' : List (Event D)}

theorem run_sane (served : List Serve) (hs : n.Sane)
    (hasked : ∀ e ∈ served, n.asked e.origin = some e.call.request)
    (h : Machine.run (Node.step W print) es n = some n') : n'.Sane ∧ n.Extends n' ∧
      ∀ e ∈ served ++ Machine.labels (Node.step W print) (fun e n => n.serves W e) es n,
        n'.asked e.origin = some e.call.request := by
  refine Machine.run_keeps _ (fun m (served : List Serve) => m.Sane ∧ n.Extends m ∧
    ∀ e ∈ served, m.asked e.origin = some e.call.request) served ?_
    ⟨hs, Extends.shared n _ _ _ _ _ _, hasked⟩ h
  rintro e m m' served ⟨hs, hx, hasked⟩ hstep
  have hm := step_move hstep
  have hx' := hm.extends hs.tidy
  refine ⟨hm.sane hs, hx.trans hx', fun s hmem => hx'.asked hs ?_⟩
  rcases List.mem_append.mp hmem with hmem | hmem
  · exact hasked s hmem
  · exact hs.serves (Option.mem_toList.mp hmem)

theorem serves_run (h : Machine.run (Node.step W print) es (.new ex) = some n) :
    n.Serves W ex
      (Machine.labels (Node.step W print) (fun e n => n.serves W e) es (.new ex)) := by
  obtain ⟨hs, -, hasked⟩ := run_sane [] (Sane.new ex) (fun e he => by cases he) h
  exact hs.done ((step_simulates W print).run (Tidy.new ex) h) hasked

/-- The threads of a node serve every request once, one after the other, and a request that comes
after another one was answered is behind it. -/
theorem run_serves (h : Machine.run (Node.step W print) es (.new ex) = some n)
    (h' : Machine.run (Node.step W print) es' n = some n') : ∃ served served',
      n.Serves W ex served ∧ n'.Serves W ex (served ++ served') ∧ n.Extends n' ∧
        ∀ e ∈ served', n.replies e.origin = none := by
  obtain ⟨hs, -, hasked⟩ := run_sane [] (Sane.new ex) (fun e he => by cases he) h
  obtain ⟨hs', hx, hasked'⟩ := run_sane _ hs hasked h'
  have hrun := (step_simulates W print).run (Tidy.new ex) h
  have hrun' := (step_simulates W print).run hs.tidy h'
  refine ⟨_, _, hs.done hrun hasked, hs'.done (Machine.run_append.mpr ⟨_, hrun, hrun'⟩) hasked', hx,
    (Serial.run_once hrun').2⟩

end

def oneClient : List (Event Int) :=
  [.accept "0\t\tCREATE DATABASE d;\n".toList, .read 0 1 0, .enter (.handler 0),
    .leave (.handler 0) (sampleTick 5) 1, .record 0 0 0, .log 0 2 .all]

/-- A client that leaves while its statement is a job. -/
def otherClient : List (Event Int) :=
  [.accept "1\t\tCREATE DATABASE d;\n".toList, .read 1 3 0, .submit 1 [], .enter (.worker 0),
    .log 1 4 .all, .leave (.worker 0) (sampleTick 6) 1, .record 1 0 0, .store 0]

theorem clients_run : (Machine.run (Node.step sampleWorld fun _ => [])
    (oneClient ++ otherClient) (.new sampleStart)).isSome = true := by decide +kernel

theorem run_serves_clients : ∃ n n' : Node Int, ∃ served served',
    n.Serves sampleWorld sampleStart served ∧
      n'.Serves sampleWorld sampleStart (served ++ served') ∧ n.Extends n' ∧
        ∀ e ∈ served', n.replies e.origin = none := by
  obtain ⟨n', hrun⟩ := Option.isSome_iff_exists.mp clients_run
  obtain ⟨n, h, h'⟩ := Machine.run_append.mp hrun
  exact ⟨n, n', run_serves h h'⟩

end Node
end Dbms.Server
