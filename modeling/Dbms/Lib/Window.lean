import Mathlib.Data.List.Induction
import Mathlib.Data.List.Pairwise

/-! Queues of timed entries from which the old ones are taken at the front. -/

namespace Dbms.Lib.Window
variable {α : Type*} {time : α → Int} {window window' now now' : Int} {ds : List α}

def expire (time : α → Int) (window now : Int) (ds : List α) : List α :=
  ds.dropWhile fun d => window < now - time d

def recent (time : α → Int) (window now : Int) (ds : List α) : List α :=
  ds.filter fun d => now - time d ≤ window

def Ordered (time : α → Int) (ds : List α) : Prop := ds.Pairwise fun a b => time a ≤ time b

theorem recent_append (ds ds' : List α) :
    recent time window now (ds ++ ds') = recent time window now ds ++ recent time window now ds' :=
  List.filter_append ..

theorem recent_filter (p : α → Bool) : recent time window now (ds.filter p) =
    (recent time window now ds).filter p := by
  simp only [recent, List.filter_filter, Bool.and_comm]

theorem recent_map {β : Type*} (f : β → α) (bs : List β) :
    recent time window now (bs.map f) = (recent (time ∘ f) window now bs).map f := List.filter_map ..

theorem Ordered.recent (h : Ordered time ds) : Ordered time (recent time window now ds) :=
  h.filter _

/-- What has left a window does not come back to a later or shorter one. -/
theorem recent_recent (hnow : now ≤ now') (hw : window' ≤ window) :
    recent time window' now' (recent time window now ds) = recent time window' now' ds := by
  unfold Window.recent
  rw [List.filter_filter]
  apply List.filter_congr
  intro d _
  simp only [Bool.and_eq_left_iff_imp, decide_eq_true_eq]
  omega

theorem expire_eq_recent (h : Ordered time ds) :
    expire time window now ds = recent time window now ds := by
  induction ds with
  | nil => rfl
  | cons d ds ih =>
    obtain ⟨hd, hds⟩ := List.pairwise_cons.mp h
    unfold expire Window.recent
    by_cases hold : window < now - time d
    · rw [List.dropWhile_cons_of_pos (by rw [decide_eq_true_iff]; omega),
        List.filter_cons_of_neg (by rw [decide_eq_true_iff]; omega)]
      exact ih hds
    · have hall : ∀ e ∈ d :: ds, decide (now - time e ≤ window) = true := by
        intro e he
        rcases List.mem_cons.mp he with rfl | he
        · exact decide_eq_true (by omega)
        · have hde := hd e he
          exact decide_eq_true (by omega)
      rw [List.dropWhile_cons_of_neg (by rw [decide_eq_true_iff]; omega), List.filter_eq_self.mpr hall]

/-- Counted from the back, entries in a window come before those that have left it. -/
theorem takeWhile_reverse_eq_recent (h : Ordered time ds) :
    (ds.reverse.takeWhile fun d => now - time d ≤ window) =
      (recent time window now ds).reverse := by
  induction ds using List.reverseRecOn with
  | nil => rfl
  | append_singleton ds d ih =>
    obtain ⟨hds, -, hd⟩ := List.pairwise_append.mp h
    rw [List.reverse_concat, recent_append]
    by_cases hnew : now - time d ≤ window
    · have hone : recent time window now [d] = [d] :=
        List.filter_cons_of_pos (by rw [decide_eq_true_iff]; omega)
      rw [List.takeWhile_cons_of_pos (by rw [decide_eq_true_iff]; omega), ih hds, hone,
        List.reverse_concat]
    · have hnone : recent time window now (ds ++ [d]) = [] := by
        apply List.filter_eq_nil_iff.mpr
        intro e he
        have hed : time e ≤ time d := by
          rcases List.mem_append.mp he with he | he
          · exact hd e he d (List.mem_singleton_self d)
          · exact Int.le_of_eq (congrArg time (List.mem_singleton.mp he))
        rw [decide_eq_true_iff]
        omega
      rw [List.takeWhile_cons_of_neg (by rw [decide_eq_true_iff]; omega), ← recent_append, hnone,
        List.reverse_nil]

theorem expire_join {β : Type*} (time' : β → Int) (f : α → β) (hf : time' ∘ f = time)
    {new : List α} (h : Ordered time (ds ++ new)) (hnow : ds ≠ [] → now ≤ now') :
    expire time' window now' ((recent time window now ds).map f ++ new.map f) =
      (recent time window now' (ds ++ new)).map f := by
  have hqueue : Ordered time (recent time window now ds ++ new) :=
    h.sublist (List.filter_sublist.append (List.Sublist.refl new))
  have hmap : Ordered time' ((recent time window now ds ++ new).map f) := by
    apply List.pairwise_map.mpr
    show Ordered (time' ∘ f) _
    rw [hf]
    exact hqueue
  have hagain : recent time window now' (recent time window now ds) = recent time window now' ds := by
    cases ds with
    | nil => rfl
    | cons d ds => exact recent_recent (hnow (List.cons_ne_nil d ds)) (Int.le_refl _)
  rw [← List.map_append, expire_eq_recent hmap, recent_map, hf, recent_append, hagain, recent_append]

theorem recent_length_eq_iff (hnow : ds ≠ [] → now ≤ now') :
    (recent time window now ds).length = (recent time window now' ds).length ↔
      ∀ d ∈ ds, now - time d ≤ window → now' - time d ≤ window := by
  cases ds with
  | nil => simp [recent]
  | cons d ds =>
    have hle := hnow (List.cons_ne_nil d ds)
    rw [← recent_recent hle (Int.le_refl window), eq_comm]
    unfold recent
    rw [List.length_filter_eq_length_iff]
    simp

theorem recent_eq_of_length (hnow : ds ≠ [] → now ≤ now')
    (h : (recent time window now ds).length = (recent time window now' ds).length) :
    recent time window now ds = recent time window now' ds := by
  cases ds with
  | nil => rfl
  | cons d ds =>
    have hle := hnow (List.cons_ne_nil d ds)
    rw [← recent_recent hle (Int.le_refl window)] at h ⊢
    exact (List.filter_sublist.eq_of_length h.symm).symm

end Dbms.Lib.Window
