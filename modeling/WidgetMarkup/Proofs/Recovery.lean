import WidgetMarkup.Proofs.Pieces

namespace WidgetMarkup.Field

open Text

variable (schema : Schema) (o : Options)

def keptFrom (bareSeen : Bool) (keys : List String) (ts : List (List Char)) : List (List Char) :=
  ((ts.zip (outcomes schema o bareSeen keys (ts.map Piece.read))).filter
    fun r => r.2.field?.isSome).map Prod.fst

def kept (value : String) : List (List Char) := keptFrom schema o false [] (pieces value.toList)

variable {schema o} {seen seen' : Bool} {keys : List String} {t : List Char} {ts : List (List Char)}

theorem Outcome.field?_eq_some_iff {r : Outcome} {f : Field} :
    r.field? = some f ↔ r = .stored f := by
  cases r <;> simp [Outcome.field?]

theorem keptFrom_cons_of_stored {f : Field}
    (h : judge schema o seen keys (Piece.read t) = .stored f) :
    keptFrom schema o seen keys (t :: ts) =
      t :: keptFrom schema o (seen || (Piece.read t).isUnnamed) (keys ++ [f.key]) ts := by
  simp [keptFrom, outcomes, h, Outcome.field?]

theorem keptFrom_cons_of_not_stored
    (h : (judge schema o seen keys (Piece.read t)).field? = none) :
    keptFrom schema o seen keys (t :: ts) =
      keptFrom schema o (seen || (Piece.read t).isUnnamed) keys ts := by
  simp [keptFrom, outcomes, h]

theorem judge_of_stored {p : Piece} {f : Field} (h : judge schema o seen keys p = .stored f)
    (hseen : seen' = true → seen = true) : judge schema o seen' keys p = .stored f := by
  cases p with
  | unclosed q s => exact h
  | named n s => exact h
  | bare s =>
      cases seen' with
      | true => rwa [hseen rfl] at h
      | false =>
          cases seen with
          | false => exact h
          | true =>
              rw [judge] at h
              split at h
              · cases h
              · split at h <;> cases h

theorem closed_of_stored {f : Field} (h : judge schema o seen keys (Piece.read t) = .stored f) :
    Quoting.outside.after t = .outside := by
  rw [← Quoting.openQuote?_eq_none_iff]
  cases hq : (Quoting.outside.after t).openQuote? with
  | none => rfl
  | some q =>
      rw [Piece.read, hq] at h
      cases h

theorem mem_of_mem_keptFrom (h : t ∈ keptFrom schema o seen keys ts) :
    t ∈ ts ∧ Quoting.outside.after t = .outside := by
  induction ts generalizing seen keys with
  | nil => cases h
  | cons u us ih =>
      cases hf : (judge schema o seen keys (Piece.read u)).field? with
      | none =>
          rw [keptFrom_cons_of_not_stored hf] at h
          obtain ⟨hmem, hclosed⟩ := ih h
          exact ⟨List.mem_cons_of_mem u hmem, hclosed⟩
      | some f =>
          have hstored := Outcome.field?_eq_some_iff.1 hf
          rw [keptFrom_cons_of_stored hstored] at h
          rcases List.mem_cons.1 h with rfl | h
          · exact ⟨List.mem_cons_self, closed_of_stored hstored⟩
          · obtain ⟨hmem, hclosed⟩ := ih h
            exact ⟨List.mem_cons_of_mem u hmem, hclosed⟩

/-- Judged without the pieces that were not stored, the others are stored as the same fields. -/
theorem outcomes_keptFrom (hseen : seen' = true → seen = true) :
    outcomes schema o seen' keys ((keptFrom schema o seen keys ts).map Piece.read) =
      ((outcomes schema o seen keys (ts.map Piece.read)).filterMap Outcome.field?).map .stored := by
  -- the keys agree at every step; the second run may have seen fewer values without a name
  induction ts generalizing seen seen' keys with
  | nil => rfl
  | cons t ts ih =>
      rw [List.map_cons, outcomes]
      cases hf : (judge schema o seen keys (Piece.read t)).field? with
      | none =>
          rw [keptFrom_cons_of_not_stored hf, List.filterMap_cons_none hf, Option.map_none,
            Option.toList_none, List.append_nil]
          apply ih
          intro h
          rw [hseen h, Bool.true_or]
      | some f =>
          have hstored := Outcome.field?_eq_some_iff.1 hf
          rw [keptFrom_cons_of_stored hstored, List.filterMap_cons_some hf, List.map_cons,
            List.map_cons, outcomes, judge_of_stored hstored hseen]
          refine congrArg _ (ih ?_)
          intro h
          rw [Bool.or_eq_true] at h ⊢
          exact h.imp_left hseen

/-- What is rejected has no influence on what is kept: the kept pieces alone are split into the
same fields, without a problem. -/
theorem split_kept (schema : Schema) (o : Options) (value : String) :
    split schema o (String.ofList ([';'].intercalate (kept schema o value))) =
      ⟨(split schema o value).fields, []⟩ := by
  apply split_intercalate
  · exact fun t ht => unsplit_of_mem_pieces (mem_of_mem_keptFrom ht).1
  · exact fun t ht => (mem_of_mem_keptFrom ht).2
  · exact outcomes_keptFrom id

end WidgetMarkup.Field
