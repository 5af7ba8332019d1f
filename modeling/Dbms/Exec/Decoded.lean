import Dbms.Core.Numeral
import Dbms.Exec.Selected
import Dbms.Lib.Json

/-! What the text of a plain SELECT decodes to. -/

open Dbms.Lib

namespace Dbms.Core

theorem natText_lead (n : Nat) : (natText n).head? = some '0' → natText n = ['0'] := by
  induction n using Nat.strong_induction_on with
  | _ n ih =>
    intro h
    by_cases hn : n < 10
    · rw [natText, Nat.toDigits_of_lt_base hn] at h ⊢
      simpa using h
    · have hsplit : natText n = natText (n / 10) ++ [(n % 10).digitChar] :=
        Nat.toDigits_of_base_le (by decide) (by omega)
      rw [hsplit, List.head?_append_of_ne_nil _ (natText_ne_nil _)] at h
      have hzero := congrArg decimal (ih (n / 10) (by omega) h)
      rw [decimal_natText] at hzero
      have hval : decimal ['0'] = 0 := rfl
      omega

end Dbms.Core

open Dbms.Core Dbms.Sql Dbms.Auth

namespace Dbms.Exec

def Printable (s : Text) : Prop := ∀ c ∈ s, ¬c < ' '

instance : DecidablePred Printable := fun s =>
  decidable_of_iff ((s.all fun c => !decide (c < ' ')) = true) (by simp [Printable])

def cellJson (pool : StringPool) : Value → Json
  | .null => .null
  | .int v => .num v 0
  | .string id => .str (pool.resolve id)

def CellPrints (pool : StringPool) : Value → Prop
  | .string id => Printable (pool.resolve id)
  | _ => True

instance (pool : StringPool) : DecidablePred (CellPrints pool)
  | .string id => inferInstanceAs (Decidable (Printable (pool.resolve id)))
  | .null | .int _ => inferInstanceAs (Decidable True)

abbrev Field := Text × Value

def fieldText (pool : StringPool) (f : Field) : Text := jsonField f.1 (cellToJson f.2 pool)

def fieldJson (pool : StringPool) (f : Field) : Text × Json := (f.1, cellJson pool f.2)

def FieldPrints (pool : StringPool) (f : Field) : Prop := Printable f.1 ∧ CellPrints pool f.2

instance (pool : StringPool) : DecidablePred (FieldPrints pool) :=
  fun _ => inferInstanceAs (Decidable (_ ∧ _))

section Texts
variable {n : Nat} {s r : Text} {pool : StringPool} {c : Char}

theorem chars_jsonEscape (hn : (jsonEscape s).length < n) :
    Json.chars n (jsonEscape s ++ quote :: r) = if Printable s then some (s, r) else none := by
  induction s generalizing n with
  | nil =>
    obtain ⟨n, rfl⟩ : ∃ m, n = m + 1 := ⟨n - 1, by omega⟩
    exact Json.chars_close n r
  | cons c s ih =>
    obtain ⟨n, rfl⟩ : ∃ m, n = m + 1 := ⟨n - 1, by omega⟩
    have hcons : Printable (c :: s) ↔ ¬c < ' ' ∧ Printable s := List.forall_mem_cons
    have hmap : ¬c < ' ' → ((if Printable s then some (s, r) else none).map fun x => (c :: x.1, x.2)) =
        if Printable (c :: s) then some (c :: s, r) else none := by
      intro hc
      by_cases hs : Printable s
      · rw [if_pos hs, if_pos (hcons.mpr ⟨hc, hs⟩)]
        rfl
      · rw [if_neg hs, if_neg fun h => hs (hcons.mp h).2]
        rfl
    by_cases hspecial : c = quote ∨ c = '\\'
    · have htext : jsonEscape (c :: s) = '\\' :: c :: jsonEscape s := by
        simp [jsonEscape, hspecial]
      have hc : ¬c < ' ' := by
        rcases hspecial with rfl | rfl <;> decide
      rw [htext] at hn ⊢
      have hstep := @Json.chars_escaped n c (jsonEscape s ++ quote :: r) hspecial
      rw [List.cons_append, List.cons_append, hstep, ih (by simp at hn; omega), hmap hc]
    · have htext : jsonEscape (c :: s) = c :: jsonEscape s := by
        simp [jsonEscape, hspecial]
      rw [htext] at hn ⊢
      rw [List.cons_append]
      by_cases hc : c < ' '
      · rw [Json.chars_control hc, if_neg fun h => (hcons.mp h).1 hc]
      · rw [Json.chars_plain (fun h => hspecial (.inl h)) (fun h => hspecial (.inr h)) hc,
          ih (by simp at hn; omega), hmap hc]

def Closes (c : Char) : Prop := c = ',' ∨ c = ']' ∨ c = '\x7d'

theorem Closes.numberEnd (h : Closes c) (r : Text) : Json.NumberEnd (c :: r) := by
  intro d hd
  obtain rfl := Option.some.inj hd
  rcases h with rfl | rfl | rfl <;> decide

theorem string_value (n : Nat) (s r : Text) : Json.value (n + 1) (jsonString s ++ r) =
    if Printable s then some (.str s, r) else none := by
  have htext : jsonString s ++ r = Json.quotation :: (jsonEscape s ++ quote :: r) := by
    simp [jsonString, quote, Json.quotation]
  have hchars := @chars_jsonEscape (jsonEscape s ++ quote :: r).length s r (by simp)
  rw [htext, Json.value_string, hchars]
  split <;> rfl

theorem intText_value (v : Int) (hr : Json.NumberEnd r) :
    Json.value (n + 1) (intText v ++ r) = some (.num v 0, r) := by
  have hvalue := fun negative => @Json.value_integer n r (natText v.natAbs) negative (natText_ne_nil _)
    (natText_isDigit _) (natText_lead _) hr
  have hdigits : Nat.ofDigitChars 10 (natText v.natAbs) 0 = v.natAbs := decimal_natText _
  rw [hdigits] at hvalue
  by_cases hv : v < 0
  · have hminus := hvalue true
    rw [if_pos rfl, if_pos rfl] at hminus
    rw [intText, if_pos hv, List.cons_append, hminus]
    have habs : -(v.natAbs : Int) = v := by omega
    rw [habs]
  · have hplus := hvalue false
    rw [if_neg Bool.false_ne_true, if_neg Bool.false_ne_true] at hplus
    rw [intText, if_neg hv, hplus]
    have habs : (v.natAbs : Int) = v := by omega
    rw [habs]

theorem cell_value (hc : Closes c) (n : Nat) (v : Value) (r : Text) :
    Json.value (n + 1) (cellToJson v pool ++ c :: r) =
      if CellPrints pool v then some (cellJson pool v, c :: r) else none := by
  cases v with
  | null => exact Json.value_null n (c :: r)
  | int v => exact intText_value v (hc.numberEnd r)
  | string id => exact string_value n (pool.resolve id) (c :: r)

theorem field_member (hc : Closes c) (n : Nat) (f : Field) (r : Text) :
    Json.member (fun s => Json.value (n + 1) s) (fieldText pool f ++ c :: r) =
      if FieldPrints pool f then some (fieldJson pool f, c :: r) else none := by
  have htext : fieldText pool f ++ c :: r = Json.quotation ::
      (jsonEscape f.1 ++ quote :: ':' :: (cellToJson f.2 pool ++ c :: r)) := by
    simp [fieldText, jsonField, jsonString, quote, Json.quotation]
  have hchars := @chars_jsonEscape
    (jsonEscape f.1 ++ quote :: ':' :: (cellToJson f.2 pool ++ c :: r)).length f.1
    (':' :: (cellToJson f.2 pool ++ c :: r)) (by simp)
  rw [htext, Json.member, Json.skip_cons (by decide)]
  simp only [if_true, hchars]
  by_cases hname : Printable f.1
  · rw [if_pos hname]
    simp only [Json.skip_cons (by decide : Json.isWs ':' = false), if_true, cell_value hc]
    by_cases hcell : CellPrints pool f.2
    · rw [if_pos hcell, if_pos ⟨hname, hcell⟩]
      rfl
    · rw [if_neg hcell, if_neg fun h => hcell h.2]
      rfl
  · rw [if_neg hname, if_neg fun h => hname h.1]

theorem object_value (n : Nat) (fs : List Field) (r : Text) :
    Json.value (n + 2) (jsonObject (fs.map (fieldText pool)) ++ r) =
      if ∀ f ∈ fs, FieldPrints pool f then some (.obj (fs.map (fieldJson pool)), r) else none := by
  have htext : jsonObject (fs.map (fieldText pool)) ++ r =
      '\x7b' :: ((",".toList).intercalate (fs.map (fieldText pool)) ++ '\x7d' :: r) := by
    simp [jsonObject]
  have hfields := @Json.sequence_intercalate _ _ '\x7d' (Json.member fun s => Json.value (n + 1) s)
    (fieldText pool) (fun f => if FieldPrints pool f then some (fieldJson pool f) else none) fs r
    (by decide) (by decide)
    (fun f _ c r hc => by
      rw [field_member (hc.imp_right .inr)]
      split <;> rfl)
    (fun f _ => ⟨quote, _, rfl, by decide, by decide⟩)
  rw [htext, Json.value_object, hfields, mapM_ite]
  split <;> rfl

theorem array_value (n : Nat) (rows : List (List Field)) (r : Text) :
    Json.value (n + 3) (jsonArray (rows.map fun fs => jsonObject (fs.map (fieldText pool))) ++ r) =
      if ∀ fs ∈ rows, ∀ f ∈ fs, FieldPrints pool f then
        some (.arr (rows.map fun fs => .obj (fs.map (fieldJson pool))), r)
      else none := by
  have htext : jsonArray (rows.map fun fs => jsonObject (fs.map (fieldText pool))) ++ r =
      '[' :: ((",".toList).intercalate (rows.map fun fs => jsonObject (fs.map (fieldText pool))) ++
        ']' :: r) := by
    simp [jsonArray]
  have hrows := @Json.sequence_intercalate _ _ ']' (fun s => Json.value (n + 2) s)
    (fun fs => jsonObject (fs.map (fieldText pool)))
    (fun fs => if ∀ f ∈ fs, FieldPrints pool f then some (.obj (fs.map (fieldJson pool))) else none)
    rows r (by decide) (by decide)
    (fun fs _ c r hc => by
      rw [object_value]
      split <;> rfl)
    (fun fs _ => ⟨'\x7b', _, rfl, by decide, by decide⟩)
  rw [htext, Json.value_array, hrows, mapM_ite]
  split <;> rfl

theorem decode_rows (pool : StringPool) (rows : List (List Field)) :
    Json.decode (jsonArray (rows.map fun fs => jsonObject (fs.map (fieldText pool)))) =
      if ∀ fs ∈ rows, ∀ f ∈ fs, FieldPrints pool f then
        some (.arr (rows.map fun fs => .obj (fs.map (fieldJson pool))))
      else none := by
  obtain ⟨n, hn⟩ : ∃ n, (jsonArray (rows.map fun fs =>
      jsonObject (fs.map (fieldText pool)))).length + 1 = n + 3 :=
    ⟨_, by simp [jsonArray]; rfl⟩
  have hvalue := @array_value pool n rows []
  rw [List.append_nil] at hvalue
  rw [Json.decode, hn, hvalue]
  by_cases h : ∀ fs ∈ rows, ∀ f ∈ fs, FieldPrints pool f
  · rw [if_pos h, if_pos h]
    rfl
  · rw [if_neg h, if_neg h]

end Texts

/-! The rows of a plain SELECT. -/

/-- The columns that an item of the select list stands for, by the names they are printed under. -/
def itemCells (t : Table) (row : Row) (it : SelectItem) : List Field :=
  if it.col = "*".toList then t.cols.mapIdx fun i c => (c.name, cellAt row i)
  else ((t.columnIndex it.col).map fun i =>
    (if it.aliasName = [] then it.col else it.aliasName, cellAt row i)).toList

def fieldsAt (t : Table) (items : List SelectItem) (rid : RowId) : List Field :=
  (t.getRow rid).elim [] fun row => items.flatMap (itemCells t row)

section Select
variable {W : World} {tick : Tick} {ex : Executor} {table : Name} {key : Text} {db : Database}
  {t : Table} {row : Row} {pool : StringPool} {items : List SelectItem} {rid : RowId} {c : Cond}
  {n : Nat}

theorem itemFields_ok {it : SelectItem} {texts : List Text}
    (h : itemFields t row pool it = .ok texts) :
    texts = (itemCells t row it).map (fieldText pool) := by
  unfold itemFields at h
  unfold itemCells
  split at h
  · rename_i hstar
    cases h
    rw [if_pos hstar, List.mapIdx_eq_zipIdx_map, List.mapIdx_eq_zipIdx_map, List.map_map]
    rfl
  · rename_i hstar
    cases hcol : t.columnIndex it.col with
    | none =>
      rw [hcol] at h
      cases h
    | some i =>
      rw [hcol] at h
      cases h
      rw [if_neg hstar]
      rfl

theorem rowObject_ok {obj : Text} (h : rowObject t items row pool = .ok obj) :
    obj = jsonObject ((items.flatMap (itemCells t row)).map (fieldText pool)) := by
  unfold rowObject at h
  cases hm : items.mapM (itemFields t row pool) with
  | error e =>
    rw [hm] at h
    cases h
  | ok texts =>
    rw [hm] at h
    cases h
    have hitems : ∀ it ∈ items, itemFields t row pool it =
        .ok ((itemCells t row it).map (fieldText pool)) := by
      intro it hit
      obtain ⟨b, hb⟩ := mapM_ok_mem hm it hit
      rw [hb, itemFields_ok hb]
    rw [mapM_ok hitems] at hm
    obtain rfl := Except.ok.inj hm
    rw [List.flatMap, List.map_flatten, List.map_map]
    rfl

theorem objectAt_ok {obj : Text} (hrow : t.getRow rid = some row)
    (h : objectAt t items pool rid = .ok obj) :
    obj = jsonObject ((fieldsAt t items rid).map (fieldText pool)) := by
  unfold objectAt at h
  unfold fieldsAt
  rw [hrow] at h ⊢
  exact rowObject_ok h

theorem select_text (hres : resolveTable ex.catalog table = .ok (key, db, t))
    (h : Table.Reach n ex.pool t) (hagg : isAggregate items = false)
    (hok : (execSelect W tick ex items table c.clause).1.ok = true) :
    (execSelect W tick ex items table c.clause).1.json = jsonArray
      (((selectedRows W.regex tick.rowOrder t ex.pool c (.select items table c.clause)).map
        (fieldsAt t items)).map fun fs => jsonObject (fs.map (fieldText ex.pool))) := by
  have hrows : RowsInterned t ex.pool := fun rid row hrow => h.interned hrow
  have hext := candidateRows_extends tick.rowOrder t c ex.pool
  obtain ⟨hdone, hfail⟩ := @execSelect_plain W tick ex table key db t c.clause items hres hagg
  have hobjs := @selectRows_eq W.regex t ex.pool (candidateRows tick.rowOrder t c.clause ex.pool).2 c
    (candidateRows tick.rowOrder t c.clause ex.pool).1 items [] hrows hext
  have hexamined : examined tick.rowOrder t ex.pool (.select items table c.clause) =
      candidateRows tick.rowOrder t c.clause ex.pool := by
    show (if isAggregate items then _ else _) = _
    rw [hagg]
    exact if_neg Bool.false_ne_true
  have hselected : (matching W.regex c.clause t (candidateRows tick.rowOrder t c.clause ex.pool).1
      (candidateRows tick.rowOrder t c.clause ex.pool).2 []).1 =
        selectedRows W.regex tick.rowOrder t ex.pool c (.select items table c.clause) := by
    rw [(matching_clean (hrows.extends hext) (stage_refl _ c)).1, selectedRows, hexamined]
  rw [hselected] at hobjs
  cases hrun : (selectRows W.regex c.clause t items
      (candidateRows tick.rowOrder t c.clause ex.pool).1
      (candidateRows tick.rowOrder t c.clause ex.pool).2 []).1 with
  | error e =>
    rw [hfail e hrun] at hok
    cases hok
  | ok objs =>
    rw [hrun] at hobjs
    have hall : ∀ rid ∈ selectedRows W.regex tick.rowOrder t ex.pool c
        (.select items table c.clause), objectAt t items ex.pool rid =
          .ok (jsonObject ((fieldsAt t items rid).map (fieldText ex.pool))) := by
      intro rid hrid
      obtain ⟨row, hrow⟩ := row_of_selection hrid
      obtain ⟨obj, hobj⟩ := mapM_ok_mem hobjs.symm rid hrid
      rw [hobj, objectAt_ok hrow hobj]
    rw [mapM_ok hall] at hobjs
    obtain rfl := Except.ok.inj hobjs
    rw [hdone _ hrun, List.map_map]
    rfl

/-- The answer of a plain SELECT is JSON for the rows it selects exactly when no name and no string
that it prints has a control character. -/
theorem select_decodes_iff (hres : resolveTable ex.catalog table = .ok (key, db, t))
    (h : Table.Reach n ex.pool t) (hagg : isAggregate items = false)
    (hok : (execSelect W tick ex items table c.clause).1.ok = true) :
    Json.decode (execSelect W tick ex items table c.clause).1.json =
        some (.arr ((selectedRows W.regex tick.rowOrder t ex.pool c
          (.select items table c.clause)).map fun rid =>
            .obj ((fieldsAt t items rid).map (fieldJson ex.pool)))) ↔
      ∀ rid ∈ selectedRows W.regex tick.rowOrder t ex.pool c (.select items table c.clause),
        ∀ f ∈ fieldsAt t items rid, FieldPrints ex.pool f := by
  rw [select_text hres h hagg hok, decode_rows, List.map_map]
  by_cases hprint : ∀ rid ∈ selectedRows W.regex tick.rowOrder t ex.pool c
      (.select items table c.clause), ∀ f ∈ fieldsAt t items rid, FieldPrints ex.pool f
  · rw [if_pos (List.forall_mem_map.mpr hprint)]
    exact iff_of_true rfl hprint
  · rw [if_neg fun hall => hprint (List.forall_mem_map.mp hall)]
    exact iff_of_false nofun hprint

end Select

theorem select_decodes_iff_notes :
    Json.decode (execSelect sampleWorld (sampleTick 0 []) (serving notePool notes)
        [{ col := "*".toList }] ⟨[], "t".toList⟩ (Cond.clause none)).1.json =
      some (.arr ((selectedRows literally (.sorted Nat) notes notePool none
        (.select [{ col := "*".toList }] ⟨[], "t".toList⟩ (Cond.clause none))).map fun rid =>
          .obj ((fieldsAt notes [{ col := "*".toList }] rid).map (fieldJson notePool)))) ↔
    ∀ rid ∈ selectedRows literally (.sorted Nat) notes notePool none
        (.select [{ col := "*".toList }] ⟨[], "t".toList⟩ (Cond.clause none)),
      ∀ f ∈ fieldsAt notes [{ col := "*".toList }] rid, FieldPrints notePool f :=
  @select_decodes_iff sampleWorld (sampleTick 0 []) (serving notePool notes) _ _ _ _ _ _ _
    (serving_table notePool notes) notes_reach rfl (by decide +kernel)

def brokenNote : Executor :=
  sampleRun ["CREATE DATABASE d", "USE d", "CREATE TABLE t (s STRING)",
    "INSERT INTO t (s) VALUE (\"a\nb\")"]

def Outcome.answer : Outcome → Option Text
  | .done res _ => if res.ok then some res.json else none
  | _ => none

theorem select_not_json : ¬∀ (ex : Executor) (c : Call) (json : Text), Reachable sampleWorld ex →
    (c.outcome sampleWorld ex).answer = some json → (Json.decode json).isSome = true := by
  intro h
  have hanswer : ((sampleCall 0 "SELECT s FROM t").outcome sampleWorld brokenNote).answer =
      some "[\x7b\"s\":\"a\nb\"\x7d]".toList := by
    decide +kernel
  have hjson := h brokenNote _ _ (sampleRun_reachable _) hanswer
  revert hjson
  decide +kernel

end Dbms.Exec
