import WidgetMarkup.Proofs.StoredFields

namespace WidgetMarkup.Field

open Text

/-- The name that a piece goes by, and the text to be stored under it. Only the first text without
a name of its own goes by the default name. -/
def Piece.assignment? (o : Options) (before : List Piece) : Piece → Option (String × List Char)
  | unclosed _ _ => none
  | named n x => if isFieldName (trim n) then some (trimmed n, x) else none
  | bare x =>
    if allBlank x || before.any isUnnamed then none else o.defaultName.map fun name => (name, x)

section
variable (schema : Schema) (o : Options)

/-- The field that a piece is stored as, unless an earlier one has its key. -/
def candidate? (before : List Piece) (p : Piece) : Option Field :=
  (p.assignment? o before).bind fun (name, x) => (schema.lookup? name).map fun spec =>
    ⟨o.storedKey (spec.rename.getD name), spec.kind, trimmed x⟩

def candidates (before : List Piece) : List Piece → List Field
  | [] => []
  | p :: ps => (candidate? schema o before p).toList ++ candidates (before ++ [p]) ps

def verdict (before : List Piece) (p : Piece) : Outcome :=
  judge schema o (before.any Piece.isUnnamed) ((candidates schema o [] before).map key) p

def verdicts (before : List Piece) : List Piece → List Outcome
  | [] => []
  | p :: ps => verdict schema o before p :: verdicts (before ++ [p]) ps

structure Progress where
  fields : List Field := []
  bareSeen : Bool := false
  diagnostics : List Diagnostic := []

def Progress.take (value : String) (s : Progress) (p : Piece) : Progress :=
  let outcome := judge schema o s.bareSeen (s.fields.map key) p
  { fields := s.fields ++ outcome.field?.toList
    bareSeen := s.bareSeen || p.isUnnamed
    diagnostics := s.diagnostics ++
      (outcome.problem?.map fun p => .error o.span (p.report value o.subject)).toList }

def progress (ds : List Diagnostic) (value : String) : Progress :=
  (Piece.readAll value.toList).foldl (Progress.take schema o value) { diagnostics := ds }

end

variable {schema : Schema} {o : Options} {seen : Bool} {keys : List String} {p : Piece}
  {before ps : List Piece} {f : Field}

theorem field?_store (name : String) (x : List Char) : (store schema o keys name x).field? =
    ((schema.lookup? name).map fun spec =>
      Field.mk (o.storedKey (spec.rename.getD name)) spec.kind (trimmed x)).filter
        fun f => f.key ∉ keys := by
  rw [store]
  cases schema.lookup? name with
  | none => rfl
  | some spec =>
      by_cases hkey : o.storedKey (spec.rename.getD name) ∈ keys <;>
        simp [hkey, Outcome.field?, Option.filter]

theorem field?_judge (schema : Schema) (o : Options) (keys : List String) (before : List Piece)
    (p : Piece) : (judge schema o (before.any Piece.isUnnamed) keys p).field? =
      (candidate? schema o before p).filter fun f => f.key ∉ keys := by
  cases p with
  | unclosed q s => rfl
  | named n x =>
      rw [judge, candidate?, Piece.assignment?]
      split
      case isTrue hblank =>
        rw [trim_eq_nil hblank]
        rfl
      case isFalse =>
        cases hname : isFieldName (trim n) with
        | false => rfl
        | true => simpa using field?_store (trimmed n) x
  | bare x =>
      rw [judge, candidate?, Piece.assignment?]
      cases allBlank x with
      | true => rfl
      | false =>
          cases o.defaultName with
          | none => cases before.any Piece.isUnnamed <;> rfl
          | some name =>
              cases before.any Piece.isUnnamed with
              | true => rfl
              | false => simpa using field?_store name x

theorem countP_isWritten (schema : Schema) (o : Options) (seen : Bool) (keys : List String)
    (ps : List Piece) : ps.countP Piece.isWritten =
      ((outcomes schema o seen keys ps).filterMap Outcome.field?).length +
        ((outcomes schema o seen keys ps).filterMap Outcome.problem?).length := by
  induction ps generalizing seen keys with
  | nil => rfl
  | cons p ps ih =>
      rw [outcomes, List.countP_cons, ih]
      generalize outcomes schema o _ _ ps = os
      have hwritten : judge schema o seen keys p = .blank ↔ p.isWritten = false := judge_eq_blank_iff
      cases hj : judge schema o seen keys p with
      | blank =>
          rw [hwritten.1 hj]
          rfl
      | stored f =>
          have hp : p.isWritten = true := by simpa [hj] using hwritten
          have hfield : (Outcome.stored f).field? = some f := rfl
          have hproblem : (Outcome.stored f).problem? = none := rfl
          rw [hp, List.filterMap_cons_some hfield, List.filterMap_cons_none hproblem,
            List.length_cons, if_pos rfl, Nat.add_right_comm]
      | rejected problem =>
          have hp : p.isWritten = true := by simpa [hj] using hwritten
          have hfield : (Outcome.rejected problem).field? = none := rfl
          have hproblem : (Outcome.rejected problem).problem? = some problem := rfl
          rw [hp, List.filterMap_cons_none hfield, List.filterMap_cons_some hproblem,
            List.length_cons, if_pos rfl, Nat.add_assoc]

theorem any_isUnnamed_append (before : List Piece) (p : Piece) :
    (before ++ [p]).any Piece.isUnnamed = (before.any Piece.isUnnamed || p.isUnnamed) := by
  rw [List.any_append, List.any_cons, List.any_nil, Bool.or_false]

theorem fields_eq (before : List Piece) :
    (outcomes schema o (before.any Piece.isUnnamed) keys ps).filterMap Outcome.field? =
      ((candidates schema o before ps).filter fun f => f.key ∉ keys).eraseDupsBy
        fun f g => f.key == g.key := by
  induction ps generalizing before keys with
  | nil => rfl
  | cons p ps ih =>
      rw [outcomes, List.filterMap_cons, field?_judge, ← any_isUnnamed_append, ih, candidates]
      cases candidate? schema o before p with
      | none => simp
      | some f =>
          by_cases hkey : f.key ∈ keys
          · simp [Option.filter, hkey]
          · have hfilter : (fun g : Field => decide (g.key ∉ keys ++ [f.key])) =
                fun g => decide ((g.key == f.key) = false) && decide (g.key ∉ keys) := by
              funext g
              simp [and_comm]
            simp only [Option.filter, hkey, not_false_eq_true, decide_true, if_true, Option.map_some,
              Option.toList_some, hfilter, List.singleton_append, List.filter_cons,
              List.eraseDupsBy_cons, List.filter_filter]

theorem candidates_append (before ps qs : List Piece) : candidates schema o before (ps ++ qs) =
    candidates schema o before ps ++ candidates schema o (before ++ ps) qs := by
  induction ps generalizing before with
  | nil => simp [candidates]
  | cons p ps ih => simp [candidates, ih]

theorem mem_keys_step (hkeys : ∀ k, k ∈ keys ↔ k ∈ (candidates schema o [] before).map key) (p : Piece)
    (k : String) :
    k ∈ keys ++ ((judge schema o (before.any Piece.isUnnamed) keys p).field?.map key).toList ↔
      k ∈ (candidates schema o [] (before ++ [p])).map key := by
  have hlast : candidates schema o [] (before ++ [p]) =
      candidates schema o [] before ++ (candidate? schema o before p).toList := by
    rw [candidates_append, List.nil_append, candidates, candidates, List.append_nil]
  rw [field?_judge, hlast, List.map_append, List.mem_append, List.mem_append, hkeys]
  cases candidate? schema o before p with
  | none => rfl
  | some f =>
      by_cases hf : f.key ∈ keys
      · have hold := (hkeys f.key).1 hf
        have hfilter : (some f).filter (fun g => decide (g.key ∉ keys)) = none :=
          Option.filter_some_neg (by simpa using hf)
        rw [hfilter]
        constructor
        · rintro (hk | hk)
          · exact .inl hk
          · cases hk
        · rintro (hk | hk)
          · exact .inl hk
          · obtain rfl : k = f.key := by simpa using hk
            exact .inl hold
      · simp [Option.filter, hf]

theorem judge_congr {keys' : List String} (h : ∀ k, k ∈ keys ↔ k ∈ keys') (p : Piece) :
    judge schema o seen keys p = judge schema o seen keys' p := by
  have hcontains (k : String) : keys.contains k = keys'.contains k := by
    simp [h]
  have hstore (name : String) (x : List Char) :
      store schema o keys name x = store schema o keys' name x := by
    simp only [store, hcontains]
  cases p with
  | unclosed | named | bare => simp only [judge, hstore]

theorem outcomes_eq_verdicts
    (hkeys : ∀ k, k ∈ keys ↔ k ∈ (candidates schema o [] before).map key) :
    outcomes schema o (before.any Piece.isUnnamed) keys ps = verdicts schema o before ps := by
  induction ps generalizing before keys with
  | nil => rfl
  | cons p ps ih =>
      rw [outcomes, verdicts, verdict, ← judge_congr hkeys, ← any_isUnnamed_append]
      exact congrArg _ (ih (mem_keys_step hkeys p))

theorem fields_eq_eraseDupsBy : (outcomes schema o false [] ps).filterMap Outcome.field? =
    (candidates schema o [] ps).eraseDupsBy fun f g => f.key == g.key := by
  simpa using @fields_eq schema o [] ps []

theorem find?_of_mem_eraseDupsBy {fs : List Field}
    (h : f ∈ fs.eraseDupsBy fun f g => f.key == g.key) :
    fs.find? (fun g => g.key == f.key) = some f := by
  -- on the length, since what is left after `g` is not the tail but a part of it
  induction hlen : fs.length using Nat.strongRecOn generalizing fs with
  | ind n ih =>
    cases fs with
    | nil => cases h
    | cons g gs =>
      rw [List.eraseDupsBy_cons] at h
      rcases List.mem_cons.1 h with rfl | h
      · exact List.find?_cons_of_pos (beq_self_eq_true _)
      · have hlt : (gs.filter fun b => (b.key == g.key) == false).length < n := by
          rw [← hlen]
          exact Nat.lt_succ_of_le (List.length_filter_le _ _)
        have hfind := ih _ hlt h rfl
        have hne : f.key ≠ g.key := by
          simpa using (List.mem_filter.1 (List.mem_of_find?_eq_some hfind)).2
        have hsame : (fun b : Field => decide
            (decide ((b.key == g.key) = false) = true ∧ (b.key == f.key) = true)) =
              fun b => b.key == f.key := by
          funext b
          by_cases hb : b.key = f.key <;> simp [hb, hne]
        rw [List.find?_filter, hsame] at hfind
        rwa [List.find?_cons_of_neg (by simpa using hne.symm)]

theorem find?_candidates (h : f ∈ (outcomes schema o false [] ps).filterMap Outcome.field?) :
    (candidates schema o [] ps).find? (fun g => g.key == f.key) = some f := by
  rw [fields_eq_eraseDupsBy] at h
  exact find?_of_mem_eraseDupsBy h

variable (schema o seen keys) in
inductive Arises : Problem → Prop
  | unterminatedQuote (quote : Char) (field : String) : Arises (.unterminatedQuote quote field)
  | emptyName (field : String) : Arises (.emptyName field)
  | invalidName (name : String) : Arises (.invalidName name)
  | unknown {name : String} : schema.lookup? name = none → Arises (.unknown name)
  | duplicate {name : String} : name ∈ keys → Arises (.duplicate name)
  | missingName (value : String) : o.defaultName = none → Arises (.missingName value)
  | extraUnnamed {default : String} (value : String) :
      o.defaultName = some default → seen = true → Arises (.extraUnnamed value default)

theorem arises_of_store {problem : Problem} {name : String} {x : List Char}
    (h : store schema o keys name x = .rejected problem) : Arises schema o seen keys problem := by
  rw [store] at h
  cases hs : schema.lookup? name with
  | none =>
      rw [hs] at h
      cases h
      exact .unknown hs
  | some spec =>
      simp only [hs] at h
      split at h
      case isTrue hkey =>
        cases h
        exact .duplicate (by simpa using hkey)
      case isFalse => cases h

theorem arises_of_judge {problem : Problem} (h : judge schema o seen keys p = .rejected problem) :
    Arises schema o seen keys problem := by
  cases p with
  | unclosed q s =>
      cases h
      exact .unterminatedQuote q _
  | named n x =>
      rw [judge] at h
      split at h
      · cases h
        exact .emptyName _
      · split at h
        · cases h
          exact .invalidName _
        · exact arises_of_store h
  | bare x =>
      rw [judge] at h
      split at h
      · cases h
      · split at h
        case h_1 hdefault =>
          cases h
          exact .missingName _ hdefault
        case h_2 name hdefault =>
          split at h
          case isTrue hseen =>
            cases h
            exact .extraUnnamed _ hdefault hseen
          case isFalse => exact arises_of_store h

theorem map_key_take (value : String) (s : Progress) (p : Piece) :
    (s.take schema o value p).fields.map key = s.fields.map key ++
      ((judge schema o s.bareSeen (s.fields.map key) p).field?.map key).toList := by
  rw [Progress.take, List.map_append, Option.toList_map]

theorem foldl_take (value : String) (s : Progress) :
    (ps.foldl (Progress.take schema o value) s).fields = s.fields ++
        (outcomes schema o s.bareSeen (s.fields.map key) ps).filterMap Outcome.field? ∧
      (ps.foldl (Progress.take schema o value) s).diagnostics = s.diagnostics ++
        ((outcomes schema o s.bareSeen (s.fields.map key) ps).filterMap Outcome.problem?).map
          fun problem => .error o.span (problem.report value o.subject) := by
  induction ps generalizing s with
  | nil => simp [outcomes]
  | cons p ps ih =>
      obtain ⟨hfields, hdiagnostics⟩ := ih (s.take schema o value p)
      rw [map_key_take] at hfields hdiagnostics
      rw [List.foldl_cons, hfields, hdiagnostics, outcomes, List.filterMap_cons, List.filterMap_cons,
        Progress.take]
      dsimp only
      constructor
      · cases (judge schema o s.bareSeen (s.fields.map key) p).field? <;> simp
      · cases (judge schema o s.bareSeen (s.fields.map key) p).problem? <;> simp

theorem report_contains (value subject : String) (problem : Problem) :
    ∃ a b, problem.report value subject = a ++ value ++ b := by
  unfold Problem.report
  refine ⟨"Invalid value of \"", "\" for " ++ (subject ++ (". Error: " ++ problem.message)), ?_⟩
  simp only [String.append_assoc]

variable (schema o) in
/-- What splitting a value comes to. Each piece with anything in it is either stored or reported,
and of the pieces that could be stored under one key the first is. -/
structure SettledSplit (value : String) (r : Parsed) : Prop where
  fields_progress : ∀ ds, (progress schema o ds value).fields = r.fields
  diagnostics_progress : ∀ ds,
    (progress schema o ds value).diagnostics = ds ++ r.diagnostics o value
  count : (Piece.readAll value.toList).countP Piece.isWritten =
    r.fields.length + (r.diagnostics o value).length
  fields : r.fields =
    (verdicts schema o [] (Piece.readAll value.toList)).filterMap Outcome.field?
  problems : r.problems =
    (verdicts schema o [] (Piece.readAll value.toList)).filterMap Outcome.problem?
  diagnostic : ∀ d ∈ r.diagnostics o value, d.level = .error ∧ d.span = o.span ∧
    ∃ a b, d.message = a ++ value ++ b
  distinct : r.fields = (candidates schema o [] (Piece.readAll value.toList)).eraseDupsBy
    fun f g => f.key == g.key
  first : ∀ f ∈ r.fields,
    (candidates schema o [] (Piece.readAll value.toList)).find? (fun g => g.key == f.key) = some f

theorem verdicts_readAll (schema : Schema) (o : Options) (value : String) :
    outcomes schema o false [] (Piece.readAll value.toList) =
      verdicts schema o [] (Piece.readAll value.toList) :=
  @outcomes_eq_verdicts schema o [] [] _ (by simp [candidates])

theorem split_settled (schema : Schema) (o : Options) (value : String) :
    SettledSplit schema o value (split schema o value) where
  fields_progress ds := by
    rw [progress, (foldl_take value _).1]
    rfl
  diagnostics_progress ds := by
    rw [progress, (foldl_take value _).2]
    rfl
  count := by
    rw [Parsed.diagnostics, List.length_map]
    exact countP_isWritten schema o false [] _
  fields := by rw [← verdicts_readAll]; rfl
  problems := by rw [← verdicts_readAll]; rfl
  diagnostic := by
    intro d hd
    obtain ⟨problem, -, rfl⟩ := List.mem_map.1 hd
    exact ⟨rfl, rfl, report_contains value o.subject problem⟩
  distinct := fields_eq_eraseDupsBy
  first f hf := find?_candidates hf

end WidgetMarkup.Field
