import WidgetMarkup.Proofs.Pieces
import WidgetMarkup.Proofs.Trimming

namespace WidgetMarkup.Field

open Text

/-- A field and the way it is written: with its name in front or, if that is the default name,
without it, and with margins around the parts. -/
structure Written extends Field where
  bare : Bool := false
  beforeName : List Char := []
  afterName : List Char := []
  beforeText : List Char := []
  afterText : List Char := []

namespace Written

def nameChars (w : Written) : List Char := w.beforeName ++ w.key.toList ++ w.afterName

def textChars (w : Written) : List Char := w.beforeText ++ w.text.toList ++ w.afterText

def chars (w : Written) : List Char :=
  if w.bare then w.beforeName ++ w.text.toList ++ w.afterText
  else w.nameChars ++ '=' :: w.textChars

/-- The conditions under which a field can be read back. Any text will do that closes its quotes
and has no semicolon outside them. -/
structure Fits (schema : Schema) (o : Options) (w : Written) : Prop where
  beforeName : allBlank w.beforeName = true
  afterName : allBlank w.afterName = true
  beforeText : allBlank w.beforeText = true
  afterText : allBlank w.afterText = true
  trimmed : Trimmed w.text.toList
  closed : Quoting.outside.after w.text.toList = .outside
  unsplit : Unsplit .outside w.text.toList
  spec : schema.lookup? w.key = some ⟨w.kind, none⟩
  name : w.bare = false → isFieldName w.key.toList = true
  gap : w.bare = false → w.beforeText = [] →
    w.text.toList.head? ≠ some '=' ∧ w.text.toList.head? ≠ some '>'
  default : w.bare = true → o.defaultName = some w.key ∧ w.text ≠ "" ∧ Unseparated w.text.toList

end Written

variable {schema : Schema} {o : Options} {w : Written}

theorem all_isInert_of_isFieldName {s : List Char} (h : isFieldName s = true) :
    s.all isInert = true := by
  have hpart := all_isNamePart_of_isFieldName h
  rw [List.all_eq_true] at hpart ⊢
  exact fun c hc => isInert_of_isNamePart (hpart c hc)

theorem all_isInert_nameChars (h : w.Fits schema o) (hb : w.bare = false) :
    w.nameChars.all isInert = true := by
  rw [Written.nameChars, List.all_append, List.all_append, all_isInert_of_allBlank h.beforeName,
    all_isInert_of_isFieldName (h.name hb), all_isInert_of_allBlank h.afterName]
  rfl

theorem closed_margins {p s q : List Char} (hp : allBlank p = true) (hq : allBlank q = true)
    (hs : Quoting.outside.after s = .outside) : Quoting.outside.after (p ++ s ++ q) = .outside := by
  rw [Quoting.after_append, Quoting.after_append,
    Quoting.after_of_all_isInert (all_isInert_of_allBlank hp), hs,
    Quoting.after_of_all_isInert (all_isInert_of_allBlank hq)]

theorem unsplit_margins {p s q : List Char} (hp : allBlank p = true) (hq : allBlank q = true)
    (hs : Quoting.outside.after s = .outside) (hu : Unsplit .outside s) :
    Unsplit .outside (p ++ s ++ q) := by
  have hp := all_isInert_of_allBlank hp
  have hq := all_isInert_of_allBlank hq
  rw [unsplit_append, unsplit_append, Quoting.after_append, Quoting.after_of_all_isInert hp, hs]
  exact ⟨⟨unsplit_of_all_isInert hp, hu⟩, unsplit_of_all_isInert hq⟩

theorem closed_chars (h : w.Fits schema o) : Quoting.outside.after w.chars = .outside := by
  rw [Written.chars]
  split
  case isTrue => exact closed_margins h.beforeName h.afterText h.closed
  case isFalse hb =>
    rw [Quoting.after_append,
      Quoting.after_of_all_isInert (all_isInert_nameChars h (by simpa using hb)), Quoting.after_cons]
    exact closed_margins h.beforeText h.afterText h.closed

theorem unsplit_chars (h : w.Fits schema o) : Unsplit .outside w.chars := by
  rw [Written.chars]
  split
  case isTrue => exact unsplit_margins h.beforeName h.afterText h.closed h.unsplit
  case isFalse hb =>
    have hname := all_isInert_nameChars h (by simpa using hb)
    rw [unsplit_append, Quoting.after_of_all_isInert hname, unsplit_cons]
    refine ⟨unsplit_of_all_isInert hname, by decide, ?_⟩
    exact unsplit_margins h.beforeText h.afterText h.closed h.unsplit

theorem inOperator_textChars (h : w.Fits schema o) (hb : w.bare = false) :
    inOperator none w.textChars.head? = false := by
  have hblank (p : List Char) (hp : allBlank p = true) : inOperator none p.head? = false :=
    inOperator_inert (all_isInert_of_allBlank hp)
  rw [Written.textChars]
  cases hm : w.beforeText with
  | cons c p => exact hblank (c :: p) (hm ▸ h.beforeText)
  | nil =>
      cases ht : w.text.toList with
      | nil => exact hblank w.afterText h.afterText
      | cons c s =>
          have hgap := h.gap hb hm
          rw [ht, List.head?_cons] at hgap
          simpa [inOperator] using hgap

theorem cutName?_chars (h : w.Fits schema o) : cutName? .outside none w.chars =
    if w.bare then none else some (w.nameChars, w.textChars) := by
  rw [Written.chars]
  cases hb : w.bare with
  | true =>
      have htext := unseparated_iff.1 (h.default hb).2.2
      rw [if_pos rfl, if_pos rfl, List.append_assoc,
        cutName?_inert_append (all_isInert_of_allBlank h.beforeName) rfl,
        cutName?_append_inert htext (all_isInert_of_allBlank h.afterText)]
      rfl
  | false =>
      have hop := inOperator_textChars h hb
      rw [if_neg (by decide), if_neg (by decide),
        cutName?_inert_append (all_isInert_nameChars h hb) rfl, cutName?, if_pos ⟨rfl, rfl, by simp [hop]⟩]
      simp

theorem read_chars (h : w.Fits schema o) :
    Piece.read w.chars = if w.bare then .bare w.chars else .named w.nameChars w.textChars := by
  rw [Piece.read, Quoting.openQuote?_eq_none_iff.2 (closed_chars h), cutName?_chars h]
  cases w.bare <;> rfl

theorem allBlank_chars (h : w.Fits schema o) (hb : w.bare = true) : allBlank w.chars = false := by
  have hne : w.text.toList ≠ [] := by simpa using (h.default hb).2.1
  rw [Written.chars, if_pos hb, allBlank_append, allBlank_append, allBlank_of_trimmed h.trimmed hne,
    Bool.and_false, Bool.false_and]

theorem allBlank_nameChars (h : w.Fits schema o) (hb : w.bare = false) :
    allBlank w.nameChars = false := by
  have hname := h.name hb
  have hne : w.key.toList ≠ [] := by
    intro he
    rw [he] at hname
    cases hname
  rw [Written.nameChars, allBlank_append, allBlank_append,
    allBlank_of_trimmed (trimmed_of_isFieldName hname) hne, Bool.and_false, Bool.false_and]

theorem isUnnamed_read_chars (h : w.Fits schema o) : (Piece.read w.chars).isUnnamed = w.bare := by
  rw [read_chars h]
  cases hb : w.bare with
  | false => rfl
  | true => simp [Piece.isUnnamed, allBlank_chars h hb]

theorem store_eq_stored {keys : List String} {s : List Char} (hdash : o.removeDashes = false)
    (hspec : schema.lookup? w.key = some ⟨w.kind, none⟩) (hkeys : w.key ∉ keys)
    (hs : trim s = w.text.toList) : store schema o keys w.key s = .stored w.toField := by
  have htext : trimmed s = w.text := by rw [trimmed, hs, String.ofList_toList]
  simp [store, hspec, Options.storedKey, hdash, hkeys, htext]

theorem judge_read_chars (hdash : o.removeDashes = false) (h : w.Fits schema o) {seen : Bool}
    {keys : List String} (hseen : w.bare = true → seen = false) (hkeys : w.key ∉ keys) :
    judge schema o seen keys (Piece.read w.chars) = .stored w.toField := by
  rw [read_chars h]
  cases hb : w.bare with
  | true =>
      have htrim : trim w.chars = w.text.toList := by
        rw [Written.chars, if_pos hb]
        exact trim_margins h.beforeName h.afterText h.trimmed
      have hstore := store_eq_stored hdash h.spec hkeys htrim
      simp [judge, allBlank_chars h hb, (h.default hb).1, hseen hb, hstore]
  | false =>
      have hname : trim w.nameChars = w.key.toList :=
        trim_margins h.beforeName h.afterName (trimmed_of_isFieldName (h.name hb))
      have hkey : Text.trimmed w.nameChars = w.key := by
        rw [Text.trimmed, hname, String.ofList_toList]
      have htrim : trim w.textChars = w.text.toList :=
        trim_margins h.beforeText h.afterText h.trimmed
      have hstore := store_eq_stored hdash h.spec hkeys htrim
      simp [judge, allBlank_nameChars h hb, hname, hkey, h.name hb, hstore]

theorem outcomes_written (hdash : o.removeDashes = false) {ws : List Written}
    (hfits : ∀ w ∈ ws, w.Fits schema o) {seen : Bool} {keys : List String}
    (hbare : ws.countP Written.bare + seen.toNat ≤ 1)
    (hkeys : (keys ++ ws.map fun w => w.key).Nodup) :
    outcomes schema o seen keys (ws.map fun w => Piece.read w.chars) =
      ws.map fun w => .stored w.toField := by
  induction ws generalizing seen keys with
  | nil => rfl
  | cons w ws ih =>
      rw [List.forall_mem_cons] at hfits
      rw [List.countP_cons] at hbare
      have hseen : w.bare = true → seen = false := by
        intro hb
        cases seen with
        | false => rfl
        | true => simp [hb] at hbare
      have hkey : w.key ∉ keys := by
        intro hk
        exact (List.nodup_append.1 hkeys).2.2 w.key hk w.key (by simp) rfl
      have hbare' : ws.countP Written.bare + (seen || w.bare).toNat ≤ 1 := by
        cases seen <;> cases hb : w.bare <;> simp_all
      have hkeys' : ((keys ++ [w.key]) ++ ws.map fun w => w.key).Nodup := by
        simpa using hkeys
      rw [List.map_cons, List.map_cons, outcomes, judge_read_chars hdash hfits.1 hseen hkey,
        isUnnamed_read_chars hfits.1]
      exact congrArg _ (ih hfits.2 hbare' hkeys')

/-- Splitting undoes writing: it gives back the fields in the order in which they were written. -/
theorem split_written (schema : Schema) (o : Options) (ws : List Written)
    (hdash : o.removeDashes = false) (hfits : ∀ w ∈ ws, w.Fits schema o)
    (hbare : ws.countP Written.bare ≤ 1) (hkeys : (ws.map fun w => w.key).Nodup) :
    split schema o (String.ofList ([';'].intercalate (ws.map Written.chars))) =
      ⟨ws.map Written.toField, []⟩ := by
  apply split_intercalate
  · rw [List.forall_mem_map]
    exact fun w hw => unsplit_chars (hfits w hw)
  · rw [List.forall_mem_map]
    exact fun w hw => closed_chars (hfits w hw)
  · rw [List.map_map, List.map_map]
    exact outcomes_written hdash hfits hbare hkeys

def handlers : List Written :=
  [{ key := "target", kind := .custom, text := "onClick", bare := true, beforeName := [' '] },
    { key := "label", kind := .expression, text := "'a;b=c'", afterName := [' '], afterText := ['\n'] },
    { key := "check", kind := .expression, text := "=== a", beforeText := [' '] }]

def handlerSchema : Schema := ⟨[("target", ⟨.custom, none⟩), (wildcard, ⟨.expression, none⟩)]⟩

theorem fits_handlers : ∀ w ∈ handlers, w.Fits handlerSchema { defaultName := some "target" } := by
  simp only [handlers, List.forall_mem_cons]
  refine ⟨?_, ?_, ?_, by simp⟩
  all_goals constructor <;> decide

theorem split_handlers :
    split handlerSchema { defaultName := some "target" } " onClick;label ='a;b=c'\n;check= === a" =
      ⟨[⟨"target", .custom, "onClick"⟩, ⟨"label", .expression, "'a;b=c'"⟩,
        ⟨"check", .expression, "=== a"⟩], []⟩ :=
  split_written handlerSchema { defaultName := some "target" } handlers rfl fits_handlers
    (by decide) (by decide)

end WidgetMarkup.Field
