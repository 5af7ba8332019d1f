import Dbms.Sql.Alike

/-! The defaults of the columns that a CREATE TABLE names: strings are still to be interned. -/

namespace Dbms.Lib.Phrase
variable {σ α : Type}

theorem ListOf.all {sep : Phrase σ Unit} {item : Phrase σ α} {P : α → Prop} (h : Gives item P)
    {s s' : σ} {as : List α} (hl : ListOf sep item s as s') : ∀ a ∈ as, P a := by
  induction hl with
  | one ha => exact List.forall_mem_singleton.mpr (h _ _ _ ha)
  | more ha _ _ ih => exact List.forall_mem_cons.mpr ⟨h _ _ _ ha, ih⟩

theorem Fold.gives {step : α → Phrase σ α} {P : α → Prop} (h : ∀ a, P a → Gives (step a) P) {a : α}
    (ha : P a) : Gives (Fold step a) P := by
  intro s b s' hf
  induction hf with
  | stop => exact ha
  | more hb _ ih => exact ih (h _ ha _ _ _ hb)

end Dbms.Lib.Phrase

open Dbms.Core Dbms.Lib Dbms.Sql.Grammar

namespace Dbms.Sql

def PlainDefault (c : ColumnDef) : Prop := ∀ id, c.defaultValue ≠ some (.string id)

theorem gives_columnDef {σ : Type} (S : TokenSource σ) : Gives (columnDef S) PlainDefault := by
  refine .bind fun name => .bind fun type => Phrase.Fold.gives (fun c hc => ?_) fun id => by simp
  refine .either ?_ (.either ?_ ?_)
  · exact .bind fun _ => .bind fun _ => gives_pure hc
  · exact .bind fun _ => gives_pure hc
  · refine .bind fun _ => .bind fun l => gives_pure fun id => ?_
    cases l with
    | null | int => simp [Parser.withDefault]
    | string s => exact hc id

theorem createTable_plain {src rest : Text} {table : Name} {cols : List ColumnDef}
    (h : Parser.parse src = .ok (.createTable table cols, rest)) : ∀ c ∈ cols, PlainDefault c := by
  obtain ⟨⟨word, _, s₁, -, hform⟩, -⟩ := Parser.parse_eq_ok.mp h
  obtain rfl : "CREATE" = word := gives_form word _ _ _ hform
  have hcreate : create (textSource Parser.stollRange) s₁ (.createTable table cols) rest := by
    simpa [form] using hform
  rcases hcreate with ⟨_, _, _, _, _, _, heq, _⟩ |
    ⟨_, _, _, n, _, _, _, _, _, columns, _, hcols, _, _, _, heq, _⟩ |
    ⟨_, _, _, _, _, _, _, _, _, heq, _⟩ | ⟨_, _, _, _, _, _, heq, _⟩ <;> cases heq
  exact hcols.all (gives_columnDef _)

end Dbms.Sql
