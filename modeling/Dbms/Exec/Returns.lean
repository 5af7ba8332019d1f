import Dbms.Core.Numeral
import Dbms.Exec.Effect
import Dbms.Sql.TextSource

/-! Which requests return a result, and are not ended by an exception, a deleted database or an
endless nesting of REVERTs. -/

open Dbms.Core Dbms.Lib Dbms.Sql Dbms.Auth

namespace Dbms.Exec

def Outcome.returned : Outcome → Bool
  | .done _ _ => true
  | _ => false

def ExpReadable (W : World) (token : Text) : Prop :=
  ∀ data pl sub digits, splitToken token = some (data, pl, b64urlEncode (W.hmac W.jwtSecret data)) →
    payloadSub (b64urlDecode pl) = some sub → expDigits (b64urlDecode pl) = some digits →
    digits ≠ [] ∧ decimal digits < 2 ^ 64

/-- Of the records that the loop of REVERT gets to, the literals are in range and the statements
return, and none but the last drops the database. -/
def ReplayReturns (exec : Nat → Statement → Executor → Outcome)
    (returns : Nat → Statement → Executor → Prop) (db : Held) (ts : Nat) :
    Nat → List JournalRecord → Executor → Prop
  | _, [], _ => True
  | i, r :: rs, ex =>
    ex.catalog.Alive db.key db.id ∧
      if r.db ≠ db.name || ts < r.tsUs then ReplayReturns exec returns db ts (i + 1) rs ex
      else Parser.InRange (r.sql ++ [' ']) ∧
        ∀ st rest, Parser.parse (r.sql ++ [' ']) = .ok (st, rest) → returns i st ex ∧
          ∀ res ex', exec i st ex = .done res ex' → res.ok = true →
            ReplayReturns exec returns db ts (i + 1) rs ex'

def StatementReturns (W : World) (ticks : List Nat → Tick) :
    Nat → List Nat → Statement → Bool → Executor → Prop
  | 0, path, st, allow, ex => ∀ hint ts p, st = .revert hint ts →
      prepareRevert (ticks path) allow hint ts ex ≠ .ok p
  | n + 1, path, st, allow, ex => ∀ hint ts db ts' recs ex', st = .revert hint ts →
      prepareRevert (ticks path) allow hint ts ex = .ok (db, ts', recs, ex') →
      ReplayReturns (fun i st ex => execStatement W ticks n (path ++ [i]) st true ex)
        (fun i st ex => StatementReturns W ticks n (path ++ [i]) st true ex) db ts' 0 recs ex'

/-- The token is readable; and unless it is refused, the literals of the text are in range and its
statement returns, if the gate lets it through. -/
def RequestReturns (W : World) (ticks : List Nat → Tick) (n : Nat) (r : Request) (ex : Executor) :
    Prop :=
  (r.jwt ≠ [] → ExpReadable W r.jwt) ∧
    ∀ ex₁, authenticate W ticks r.jwt ex = .ok ex₁ →
      Parser.InRange (statementText r.sql ++ [' ']) ∧
        ∀ st rest, Parser.parse (statementText r.sql ++ [' ']) = .ok (st, rest) →
          forbidden ex₁ st = none → StatementReturns W ticks n [] st r.allowMutations ex₁

/-- The due records up to the first that does not parse or creates the database: their literals are
in range, none of them is a REVERT, and only the very last record drops the database. -/
def Replayable (key name : Text) (ts : Nat) : List JournalRecord → Prop
  | [] => True
  | r :: rs =>
    if r.db ≠ name || ts < r.tsUs then Replayable key name ts rs
    else Parser.InRange (r.sql ++ [' ']) ∧
      ∀ st rest, Parser.parse (r.sql ++ [' ']) = .ok (st, rest) → st = .createDatabase key ∨
        isRevert st = false ∧ (st = .dropDatabase key → rs = []) ∧ Replayable key name ts rs

def RevertSafe (tick : Tick) (st : Statement) (ex : Executor) : Prop :=
  ∀ hint ts db ts', st = .revert hint ts → ex.catalog.current = some db → hint.table ∈ db.tables →
    parseTsString ts = .ok ts' → Replayable ex.catalog.current_ db.name ts'
      (tick.sortRecs.sort (Journal.read (ex.files (ex.journalPathFor db.name))))

/-- The same as `RequestReturns` for all but REVERT; of a REVERT it asks what its journal has to be
before it is replayed. -/
def RequestSafe (W : World) (ticks : List Nat → Tick) (r : Request) (ex : Executor) : Prop :=
  (r.jwt ≠ [] → ExpReadable W r.jwt) ∧
    ∀ ex₁, authenticate W ticks r.jwt ex = .ok ex₁ →
      Parser.InRange (statementText r.sql ++ [' ']) ∧
        ∀ st rest, Parser.parse (statementText r.sql ++ [' ']) = .ok (st, rest) →
          forbidden ex₁ st = none → r.allowMutations = true → RevertSafe (ticks []) st ex₁

section
variable {W : World} {ticks : List Nat → Tick} {n : Nat} {path : List Nat} {allow : Bool}
  {r : Request} {ex ex' : Executor} {st : Statement}

theorem expDigits_isDigit {payload digits : Text} (h : expDigits payload = some digits) :
    ∀ c ∈ digits, c.isDigit = true := by
  obtain ⟨es, -, rfl⟩ := Option.map_eq_some_iff.mp h
  intro c hc
  exact List.mem_takeWhile_imp hc

theorem payloadExp_raised {payload : Text} : payloadExp payload = .error .raised ↔
    ∃ digits, expDigits payload = some digits ∧ ¬(digits ≠ [] ∧ decimal digits < 2 ^ 64) := by
  unfold payloadExp
  cases hdigits : expDigits payload with
  | none => simp
  | some digits =>
    have hstoull := stoull_digits (expDigits_isDigit hdigits)
    dsimp only
    cases hv : stoull digits with
    | none => exact iff_of_true rfl ⟨digits, rfl, hstoull.mp hv⟩
    | some v =>
      refine iff_of_false (by simp) ?_
      rintro ⟨d, hd, hbad⟩
      cases hd
      cases hv.symm.trans (hstoull.mpr hbad)

theorem jwtVerify_raised (nowSec : Int) {token : Text} :
    jwtVerify W.hmac nowSec W.jwtSecret token = .error .raised ↔ ¬ExpReadable W token := by
  -- `stoull` throws on an `exp` without digits, and on one beyond 64 bits.
  have hexp : ¬ExpReadable W token ↔ ∃ data pl sub,
      splitToken token = some (data, pl, b64urlEncode (W.hmac W.jwtSecret data)) ∧
        payloadSub (b64urlDecode pl) = some sub ∧
        payloadExp (b64urlDecode pl) = .error .raised := by
    simp only [ExpReadable, payloadExp_raised, not_forall]
    constructor
    · rintro ⟨data, pl, sub, digits, hsplit, hsub, hdigits, hbad⟩
      exact ⟨data, pl, sub, hsplit, hsub, digits, hdigits, hbad⟩
    · rintro ⟨data, pl, sub, hsplit, hsub, digits, hdigits, hbad⟩
      exact ⟨data, pl, sub, digits, hsplit, hsub, hdigits, hbad⟩
  rw [hexp]
  unfold jwtVerify
  cases hsplit : splitToken token with
  | none => simp
  | some parts =>
    obtain ⟨data, pl, sg⟩ := parts
    dsimp only
    by_cases hsig : b64urlEncode (W.hmac W.jwtSecret data) = sg
    · subst hsig
      rw [if_neg (not_not.mpr rfl)]
      cases hsub : payloadSub (b64urlDecode pl) with
      | none =>
        refine iff_of_false (by simp) ?_
        rintro ⟨_, _, _, heq, hsome, -⟩
        cases heq
        cases hsub.symm.trans hsome
      | some sub =>
        cases hval : payloadExp (b64urlDecode pl) with
        | error e =>
          dsimp only
          constructor
          · intro h
            cases h
            exact ⟨data, pl, sub, rfl, hsub, hval⟩
          · rintro ⟨_, _, _, heq, -, hraised⟩
            cases heq
            cases hval.symm.trans hraised
            rfl
        | ok v =>
          refine iff_of_false ?_ ?_
          · dsimp only
            split <;> simp
          · rintro ⟨_, _, _, heq, -, hraised⟩
            cases heq
            cases hval.symm.trans hraised
    · rw [if_pos hsig]
      refine iff_of_false (by simp) ?_
      rintro ⟨_, _, _, heq, -⟩
      cases heq
      exact hsig rfl

theorem replay_returned {exec : Nat → Statement → Executor → Outcome}
    {returns : Nat → Statement → Executor → Prop} {db : Held} {ts i : Nat}
    {recs : List JournalRecord}
    (hexec : ∀ i st ex, (exec i st ex).returned = true ↔ returns i st ex) :
    (replay exec db ts i recs ex).returned = true ↔
      ReplayReturns exec returns db ts i recs ex := by
  induction recs generalizing i ex with
  | nil => exact iff_of_true rfl trivial
  | cons r rs ih =>
    unfold replay ReplayReturns
    -- The pointer comes first: the code reads the database before it looks at the record.
    by_cases halive : ex.catalog.Alive db.key db.id
    · rw [if_neg (not_not.mpr halive), and_iff_right halive]
      split
      · exact ih
      cases hparse : Parser.parse (r.sql ++ [' ']) with
      | error e =>
        cases e with
        | parse m =>
          have hrange : Parser.InRange (r.sql ++ [' ']) := Parser.inRange_of_ne (by simp [hparse])
          exact iff_of_true rfl ⟨hrange, fun st rest h => by cases h⟩
        | outOfRange =>
          exact iff_of_false (by simp [Outcome.returned])
            fun h => Parser.parse_eq_outOfRange.mp hparse h.1
        | stuck => exact absurd hparse (Parser.parse_ne_stuck _)
      | ok res =>
        obtain ⟨st, rest⟩ := res
        rw [and_iff_right (Parser.inRange_of_ne (by simp [hparse]))]
        have hst := hexec i st ex
        dsimp only
        cases hrun : exec i st ex with
        | done res ex' =>
          rw [hrun] at hst
          have hret := hst.mp rfl
          by_cases hok : res.ok = true
          · simp only [hok, if_true]
            rw [ih]
            constructor
            · intro h st' rest' heq
              cases heq
              refine ⟨hret, fun res' ex₂ hdone _ => ?_⟩
              cases hrun.symm.trans hdone
              exact h
            · intro h
              exact (h st rest rfl).2 res ex' hrun hok
          · simp only [hok]
            refine iff_of_true rfl fun st' rest' heq => ?_
            cases heq
            refine ⟨hret, fun res' ex₂ hdone hok' => ?_⟩
            cases hrun.symm.trans hdone
            exact absurd hok' hok
        | raised ex' =>
          rw [hrun] at hst
          exact iff_of_false (by simp [Outcome.returned])
            fun h => absurd (hst.mpr (h st rest rfl).1) (by simp [Outcome.returned])
        | dangling ex' =>
          rw [hrun] at hst
          exact iff_of_false (by simp [Outcome.returned])
            fun h => absurd (hst.mpr (h st rest rfl).1) (by simp [Outcome.returned])
        | running ex' =>
          rw [hrun] at hst
          exact iff_of_false (by simp [Outcome.returned])
            fun h => absurd (hst.mpr (h st rest rfl).1) (by simp [Outcome.returned])
    · rw [if_pos halive]
      exact iff_of_false (by simp [Outcome.returned]) fun h => halive h.1

theorem execStatement_returned : (execStatement W ticks n path st allow ex).returned = true ↔
    StatementReturns W ticks n path st allow ex := by
  induction n generalizing path st allow ex with
  | zero =>
    cases hr : isRevert st with
    | false =>
      rw [execStatement_simple hr]
      refine iff_of_true rfl ?_
      rintro hint ts p rfl
      cases hr
    | true =>
      cases st with
      | revert hint ts =>
        unfold execStatement StatementReturns
        cases hp : prepareRevert (ticks path) allow hint ts ex with
        | error err =>
          refine iff_of_true rfl ?_
          rintro _ _ p heq hok
          cases heq
          cases hp.symm.trans hok
        | ok p =>
          refine iff_of_false (by simp [Outcome.returned]) fun h => ?_
          exact h hint ts p rfl hp
      | _ => cases hr
  | succ n ih =>
    cases hr : isRevert st with
    | false =>
      rw [execStatement_simple hr]
      refine iff_of_true rfl ?_
      rintro hint ts _ _ _ _ rfl
      cases hr
    | true =>
      cases st with
      | revert hint ts =>
        unfold execStatement StatementReturns
        cases hp : prepareRevert (ticks path) allow hint ts ex with
        | error err =>
          refine iff_of_true rfl ?_
          rintro _ _ _ _ _ _ heq hok
          cases heq
          cases hp.symm.trans hok
        | ok p =>
          obtain ⟨db, ts', recs, ex'⟩ := p
          refine (replay_returned fun i st ex => ih).trans ?_
          constructor
          · rintro h _ _ _ _ _ _ heq hok
            cases heq
            cases hp.symm.trans hok
            exact h
          · intro h
            exact h hint ts db ts' recs ex' rfl hp
      | _ => cases hr

theorem authenticate_raised : authenticate W ticks r.jwt ex = .error .raised ↔
    r.jwt ≠ [] ∧ ¬ExpReadable W r.jwt := by
  unfold authenticate
  by_cases hjwt : r.jwt = []
  · simp [hjwt]
  · rw [if_neg hjwt, ← jwtVerify_raised (ticks []).verifySec]
    cases jwtVerify W.hmac (ticks []).verifySec W.jwtSecret r.jwt with
    | error e => simp [Except.map, hjwt]
    | ok jp => simp [Except.map]

theorem conclude_returned (hfile : (ticks []).journal ≠ none) (r : Request) (before : Catalog)
    (st : Statement) (o : Outcome) :
    (conclude ticks r before st o).returned = o.returned := by
  cases o with
  | done res ex =>
    obtain ⟨files, h⟩ | ⟨⟨-, -, hnone⟩, -⟩ := conclude_done ticks r before st res _
    · rw [h]
      rfl
    · exact absurd hnone hfile
  | _ => rfl

theorem execute_returned (hfile : (ticks []).journal ≠ none) :
    (execute W ticks n r ex).returned = true ↔ RequestReturns W ticks n r ex := by
  unfold execute RequestReturns
  have htoken : authenticate W ticks r.jwt ex ≠ .error .raised ↔
      (r.jwt ≠ [] → ExpReadable W r.jwt) := by
    rw [ne_eq, authenticate_raised, not_and_not_right]
  cases hauth : authenticate W ticks r.jwt ex with
  | error e =>
    cases e with
    | err m => exact iff_of_true rfl ⟨htoken.mp (by simp [hauth]), fun ex₁ h => by cases h⟩
    | raised => exact iff_of_false (by simp [Outcome.returned]) fun h => htoken.mpr h.1 hauth
  | ok ex₁ =>
    rw [and_iff_right (htoken.mp (by simp [hauth]))]
    dsimp only
    cases hparse : Parser.parse (statementText r.sql ++ [' ']) with
    | error e =>
      cases e with
      | parse m =>
        refine iff_of_true rfl fun ex₂ _ => ⟨Parser.inRange_of_ne (by simp [hparse]), ?_⟩
        exact fun st rest h => by cases h
      | outOfRange =>
        exact iff_of_false (by simp [Outcome.returned])
          fun h => Parser.parse_eq_outOfRange.mp hparse (h ex₁ rfl).1
      | stuck => exact absurd hparse (Parser.parse_ne_stuck _)
    | ok res =>
      obtain ⟨st, rest⟩ := res
      have hrange : Parser.InRange (statementText r.sql ++ [' ']) :=
        Parser.inRange_of_ne (by simp [hparse])
      dsimp only
      cases hgate : forbidden ex₁ st with
      | some m =>
        refine iff_of_true rfl fun ex₂ h => ⟨hrange, fun st' rest' heq hnone => ?_⟩
        cases h
        cases heq
        cases hgate.symm.trans hnone
      | none =>
        dsimp only
        rw [conclude_returned hfile, execStatement_returned]
        constructor
        · intro h ex₂ heq
          cases heq
          refine ⟨hrange, fun st' rest' heq _ => ?_⟩
          cases heq
          exact h
        · intro h
          exact (h ex₁ rfl).2 st rest rfl hgate

/-! A replay whose journal is as it should be returns. -/

theorem getDatabase_setDatabase {cat : Catalog} {key k : Text} {db db' : Database}
    (hdb : cat.dbs.lookup k = some db) (hid : db'.id = db.id) :
    ((cat.setDatabase k db').getDatabase key).map Database.id =
      (cat.getDatabase key).map Database.id := by
  unfold Catalog.setDatabase Catalog.getDatabase
  by_cases hkey : key = k
  · rw [hkey, Finmap.lookup_insert, hdb]
    exact congrArg some hid
  · rw [Finmap.lookup_insert_of_ne _ hkey]

theorem Effect.alive {key : Text} {id : Nat} (h : Effect st ex ex')
    (hst : st ≠ .dropDatabase key) (halive : ex.catalog.Alive key id) :
    ex'.catalog.Alive key id := by
  have hset : ∀ {k db db'}, ex.catalog.dbs.lookup k = some db →
      ex'.catalog = ex.catalog.setDatabase k db' → db'.id = db.id → ex'.catalog.Alive key id := by
    intro k db db' hdb hcat hid
    rw [hcat]
    exact (getDatabase_setDatabase hdb hid).trans halive
  unfold Catalog.Alive Catalog.getDatabase at halive ⊢
  cases h with
  | same hcat => rwa [hcat]
  | created name hname hnew hcat =>
    have hkey : key ≠ name := by
      rintro rfl
      rw [Finmap.lookup_eq_none.mpr hnew] at halive
      cases halive
    rw [hcat]
    dsimp only
    rwa [Finmap.lookup_insert_of_ne _ hkey]
  | dropped name hname hcat =>
    have hkey : key ≠ name := by
      rintro rfl
      exact hst hname
    rw [hcat]
    dsimp only
    rwa [Finmap.lookup_erase_ne hkey]
  | used name hname hmem hcat => rwa [hcat]
  | added n cols k db hname hres hnew hpool hcat => exact hset (resolveDatabase_lookup hres) hcat rfl
  | turned n k db t t' hname hres hschema hturned hcat =>
    exact hset (resolveDatabase_lookup (resolveTable_ok hres).1) hcat rfl
  | removed n k db hname hres hcat => exact hset (resolveDatabase_lookup hres) hcat rfl
  | cleared hint ts db o hname hcur hcat =>
    exact hset (current_eq_some.mp hcur).2 hcat (dropTables_same o db).2

theorem execCreateDatabase_taken {name : Text} (h : name ∈ ex.catalog.dbs) :
    (execCreateDatabase true ex name).1.ok = false := by
  unfold execCreateDatabase Catalog.createDatabase
  rw [if_pos h]
  rfl

theorem Replayable.returns {exec : Nat → Statement → Executor → Outcome}
    {returns : Nat → Statement → Executor → Prop} {db : Held} {ts i : Nat}
    {recs : List JournalRecord}
    (hsimple : ∀ i st ex, isRevert st = false → returns i st ex ∧
      ∃ tick, exec i st ex = .done (execSimple W tick true ex st).1 (execSimple W tick true ex st).2)
    (h : Replayable db.key db.name ts recs) (halive : ex.catalog.Alive db.key db.id) :
    ReplayReturns exec returns db ts i recs ex := by
  induction recs generalizing i ex with
  | nil => trivial
  | cons r rs ih =>
    unfold Replayable at h
    unfold ReplayReturns
    refine ⟨halive, ?_⟩
    split
    · rename_i hskip
      rw [if_pos hskip] at h
      exact ih h halive
    rename_i hdue
    rw [if_neg hdue] at h
    refine ⟨h.1, fun st rest hparse => ?_⟩
    obtain rfl | ⟨hst, hdrop, hrest⟩ := h.2 st rest hparse
    · -- the database is there, so that this one fails and is the last
      obtain ⟨hret, tick, hexec⟩ := hsimple i (.createDatabase db.key) ex rfl
      refine ⟨hret, fun res ex' hdone hok => ?_⟩
      obtain ⟨hres, -⟩ := Outcome.done.inj (hexec.symm.trans hdone)
      obtain ⟨d, hd, -⟩ := Option.map_eq_some_iff.mp halive
      have hno := execCreateDatabase_taken (Finmap.mem_of_lookup_eq_some hd)
      rw [← hres] at hok
      exact absurd (hok.symm.trans hno) (by simp)
    · obtain ⟨hret, tick, hexec⟩ := hsimple i st ex hst
      refine ⟨hret, fun res ex' hdone hok => ?_⟩
      obtain ⟨-, rfl⟩ := Outcome.done.inj (hexec.symm.trans hdone)
      by_cases hkey : st = .dropDatabase db.key
      · rw [hdrop hkey]
        trivial
      · have heffect := (after_effect (W := W) ⟨st, true, tick, ex⟩).1
        rw [after_simple hst] at heffect
        exact ih hrest (heffect.alive hkey halive)

theorem RequestSafe.returns (h : RequestSafe W ticks r ex) : RequestReturns W ticks 1 r ex := by
  refine ⟨h.1, fun ex₁ hauth => ⟨(h.2 ex₁ hauth).1, fun st rest hparse hgate => ?_⟩⟩
  rintro hint ts held ts' recs ex' rfl hp
  have halive := prepareRevert_alive hp
  obtain ⟨db, hallow, hcur, hts, hhint, rfl, rfl, rfl⟩ := prepareRevert_ok hp
  have hsafe := (h.2 ex₁ hauth).2 _ rest hparse hgate hallow hint ts db ts' rfl hcur hhint hts
  refine Replayable.returns (W := W) (fun i st ex hst => ⟨?_, _, execStatement_simple hst⟩) hsafe
    halive
  rintro hint ts p rfl
  cases hst

theorem RequestReturns.safe (h : RequestReturns W ticks n r ex)
    (hst : ∀ st rest, Parser.parse (statementText r.sql ++ [' ']) = .ok (st, rest) →
      isRevert st = false) : RequestSafe W ticks r ex := by
  refine ⟨h.1, fun ex₁ hauth => ⟨(h.2 ex₁ hauth).1, fun st rest hparse _ _ => ?_⟩⟩
  rintro hint ts db ts' rfl
  cases hst _ rest hparse

end

def revertStart : Executor :=
  { sampleStart with
    catalog := (Catalog.mk ∅ ['d'] 1).setDatabase ['d']
      ((Database.new ['d'] 0).setTable ['t'] (.new ['t'] []))
    files := fun _ => "5|d|CREATE DATABASE d\n6|d|DROP DATABASE d\n7|d|USE d\n".toList }

def revertAll : Request := { sql := "REVERT t 2030.01.01-00:00:00".toList }

theorem revertAll_parsed : Parser.parse (statementText revertAll.sql ++ [' ']) =
      .ok (.revert ⟨[], ['t']⟩ "2030.01.01-00:00:00".toList, [' ']) ∧
    parseTsString "2030.01.01-00:00:00".toList = .ok 1893456000000000 := by decide +kernel

theorem revertStart_records : (sampleTick 0 []).sortRecs.sort
      (Journal.read (revertStart.files (revertStart.journalPathFor ['d']))) =
        [⟨5, ['d'], "CREATE DATABASE d".toList⟩, ⟨6, ['d'], "DROP DATABASE d".toList⟩,
          ⟨7, ['d'], "USE d".toList⟩] ∧
    Parser.parse ("CREATE DATABASE d".toList ++ [' ']) = .ok (.createDatabase ['d'], [' ']) := by
  decide +kernel

theorem revertStart_current : ∃ db, revertStart.catalog.current = some db ∧ db.name = ['d'] :=
  ⟨_, current_eq_some.mpr ⟨by decide, Finmap.lookup_insert _⟩, rfl⟩

theorem revertStart_replayable :
    Replayable ['d'] ['d'] 1893456000000000 ((sampleTick 0 []).sortRecs.sort
      (Journal.read (revertStart.files (revertStart.journalPathFor ['d'])))) := by
  obtain ⟨hrecords, hfirst⟩ := revertStart_records
  rw [hrecords]
  unfold Replayable
  rw [if_neg (by decide)]
  refine ⟨Parser.inRange_of_ne (by rw [hfirst]; nofun), fun st rest hparse => .inl ?_⟩
  cases hfirst.symm.trans hparse
  rfl

theorem parse_overlong : Parser.parse
    (statementText "INSERT INTO t (id) VALUES (99999999999999999999)".toList ++ [' ']) =
      .error .outOfRange := by decide +kernel

end Dbms.Exec
