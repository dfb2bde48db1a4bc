import WidgetMarkup.Binding
import WidgetMarkup.Coercion
import WidgetMarkup.Proofs.Placeholders
import WidgetMarkup.Proofs.PrintedCode
import WidgetMarkup.Proofs.Rendering
import WidgetMarkup.Proofs.Scanning

namespace WidgetMarkup

namespace Expr

open Text

theorem toList_code (e : Expr) : e.code.toList = e.chars := String.toList_ofList

variable {e : Expr}

theorem trimmed_code (h : e.wellNamed = true) : trimmed e.chars = e.code := by
  rw [trimmed, trim_of_trimmed (edged_chars e h).trimmed]
  rfl

theorem pieces_chars (h : e.wellNamed = true) : Field.pieces e.chars = [e.chars] := by
  rw [Field.pieces, Field.cutFrom_of_unsplit (code_chars e h).unsplit]

theorem readAll_chars (h : e.wellNamed = true) : Field.Piece.readAll e.chars = [.bare e.chars] := by
  have hcode := code_chars e h
  rw [Field.Piece.readAll, pieces_chars h, List.map_singleton, Field.Piece.read,
    Quoting.openQuote?_eq_none_iff.2 hcode.after, hcode.cutName?_eq_none]

theorem scan_chars (h : e.wellNamed = true) :
    Field.scan e.chars = some [⟨e.chars, none, none⟩] := by
  have hcode := code_chars e h
  rw [Field.scan_eq, pieces_chars h, List.map_singleton, Field.Scanned.ofText,
    Quoting.openQuote?_eq_none_iff.2 hcode.after, hcode.cutName?_eq_none, Option.map_none]

def written (e : Expr) (key : String) (kind : Field.Kind) (bare : Bool) : Field.Written :=
  { key, kind, text := e.code, bare }

theorem fits_written (h : e.wellNamed = true) {o : Field.Options} {key : String}
    {kind : Field.Kind} {bare : Bool}
    (hspec : Binding.schema.lookup? key = some ⟨kind, none⟩)
    (hname : bare = false → isFieldName key.toList = true)
    (hdefault : bare = true → o.defaultName = some key) :
    (e.written key kind bare).Fits Binding.schema o := by
  have hcode := code_chars e h
  have hedged := edged_chars e h
  have htext : (e.written key kind bare).text.toList = e.chars := toList_code e
  constructor
  case beforeName | afterName | beforeText | afterText => rfl
  case trimmed => rw [htext]; exact hedged.trimmed
  case closed => rw [htext]; exact hcode.after
  case unsplit => rw [htext]; exact hcode.unsplit
  case spec => exact hspec
  case name => exact hname
  case gap =>
    intro _ _
    rw [htext]
    exact ⟨hedged.head?_ne (by decide), hedged.head?_ne (by decide)⟩
  case default =>
    intro hbare
    refine ⟨hdefault hbare, ?_, ?_⟩
    · intro hempty
      rw [hempty] at htext
      exact hedged.ne_nil htext.symm
    · rw [htext]
      exact Field.unseparated_iff.2 hcode.cutName?_eq_none

end Expr

namespace Field

variable {schema : Schema} {o : Options} {w : Written}

theorem split_chars (hdash : o.removeDashes = false) (h : w.Fits schema o) :
    split schema o (String.ofList w.chars) = ⟨[w.toField], []⟩ := by
  have htext : [';'].intercalate [w.chars] = w.chars := List.intercalate_singleton
  rw [← htext]
  apply split_intercalate
  · simpa using unsplit_chars h
  · simpa using closed_chars h
  · have hbare : [w].countP Written.bare + false.toNat ≤ 1 := by cases hb : w.bare <;> simp [hb]
    exact outcomes_written hdash (by simpa using h) hbare (by simp)

end Field

namespace Expr

open Text

variable {e : Expr}

theorem parse_code (h : e.wellNamed = true) (attr source : String) (span : Option Span) :
    Binding.parse attr source (Value.code e).source span = (some ⟨source, e.code, []⟩, []) := by
  have hfits : (e.written Binding.targetKey .custom true).Fits Binding.schema
      (Binding.options attr span) := fits_written h rfl (by simp) (fun _ => rfl)
  have hsplit := Field.split_chars rfl hfits
  have hchars : (e.written Binding.targetKey .custom true).chars = e.chars := by
    simp [Field.Written.chars, written, toList_code]
  have hne : e.code.isEmpty = false := by
    rw [← Bool.not_eq_true, String.isEmpty_iff]
    intro hempty
    exact (edged_chars e h).ne_nil (by rw [← toList_code, hempty]; rfl)
  rw [hchars] at hsplit
  have hsource : (Value.code e).source = String.ofList e.chars := rfl
  simp [Binding.parse, hsource, hsplit, Binding.ofFields?, written, hne, Field.Parsed.diagnostics]

theorem split_named_code (h : e.wellNamed = true) {o : Field.Options} (hdash : o.removeDashes = false)
    {name : String} (hname : isFieldName name.toList = true) (htarget : name ≠ Binding.targetKey) :
    Field.split Binding.schema o (name ++ "=" ++ e.code) = ⟨[⟨name, .expression, e.code⟩], []⟩ := by
  have hfits : (e.written name .expression false).Fits Binding.schema o :=
    fits_written h (by rw [Binding.lookup?_schema, if_neg htarget]) (fun _ => hname) (by simp)
  have hchars : String.ofList (e.written name .expression false).chars = name ++ "=" ++ e.code := by
    rw [← String.toList_inj]
    simp [Field.Written.chars, Field.Written.nameChars, Field.Written.textChars, written]
  rw [← hchars]
  exact Field.split_chars hdash hfits

theorem closing?_code (h : e.wellNamed = true) (rest : List Char) :
    Interpolation.closing? 0 .outside (e.chars ++ '\x7d' :: rest) = some (e.chars, rest) := by
  have hcode := code_chars e h
  rw [Interpolation.passed_of_code hcode, hcode.after, Interpolation.closing?, if_pos ⟨rfl, rfl, rfl⟩]
  simp

theorem coercion_placeholder (h : e.wellNamed = true) :
    Coercion.ofValue .expression true (.text ("$\x7b" ++ e.code ++ "\x7d")) =
      ⟨.raw e.code, none⟩ := by
  have hparse : Interpolation.parse? ("$\x7b" ++ e.code ++ "\x7d").toList =
      some [.placeholder e.chars] := by
    have htext : ("$\x7b" ++ e.code ++ "\x7d").toList = '$' :: '\x7b' :: (e.chars ++ ['\x7d']) := by
      simp [toList_code]
    rw [htext, Interpolation.parse?, if_neg (by simp),
      Interpolation.partsOf?_marker (closing?_code h []), Interpolation.partsOf?_nil, Option.map_some]
  rw [Coercion.ofValue, Coercion.ofText, hparse]
  simp [Coercion.source, trimmed_code h]

/-- Printed code goes through the readers of markup in one piece. -/
theorem code_opaque (e : Expr) (h : e.wellNamed = true) :
    Field.scan e.chars = some [⟨e.chars, none, none⟩] ∧
    Field.Piece.readAll e.chars = [.bare e.chars] ∧
    (∀ attr source span,
      Binding.parse attr source (Value.code e).source span = (some ⟨source, e.code, []⟩, [])) ∧
    (∀ name : String, isFieldName name.toList = true → name ≠ Binding.targetKey →
      ∀ o : Field.Options, o.removeDashes = false →
        Field.split Binding.schema o (name ++ "=" ++ e.code) =
          ⟨[⟨name, .expression, e.code⟩], []⟩) ∧
    (∀ rest, Interpolation.closing? 0 .outside (e.chars ++ '\x7d' :: rest) = some (e.chars, rest)) ∧
    Coercion.ofValue .expression true (.text ("$\x7b" ++ e.code ++ "\x7d")) =
      ⟨.raw e.code, none⟩ :=
  ⟨scan_chars h, readAll_chars h, parse_code h,
    fun _ hname htarget _ hdash => split_named_code h hdash hname htarget, closing?_code h,
    coercion_placeholder h⟩

/-- A call that prints with all the characters at which some reader stops. -/
def awkward : Expr :=
  .call (.prop (.var "widget") "a=b;")
    [.text "'\x7d\"; $\x7b", .object [⟨"k", .array [.null, .literal (.bool true)], false⟩]]

theorem awkward_opaque : awkward.wellNamed = true ∧
    Field.scan awkward.chars = some [⟨awkward.chars, none, none⟩] ∧
    Field.Piece.readAll awkward.chars = [.bare awkward.chars] ∧
    Binding.parse "event-click" "click" awkward.code none =
      (some ⟨"click", awkward.code, []⟩, []) ∧
    isFieldName "label".toList = true ∧ "label" ≠ Binding.targetKey ∧
    Field.split Binding.schema (Binding.options "event-click" none) ("label=" ++ awkward.code) =
      ⟨[⟨"label", .expression, awkward.code⟩], []⟩ ∧
    Interpolation.closing? 0 .outside (awkward.chars ++ ['\x7d', '\x7d']) =
      some (awkward.chars, ['\x7d']) ∧
    Coercion.ofValue .expression true (.text ("$\x7b" ++ awkward.code ++ "\x7d")) =
      ⟨.raw awkward.code, none⟩ := by
  have hwell : awkward.wellNamed = true := by decide
  obtain ⟨hscan, hread, hbinding, hsplit, hclosing, hcoercion⟩ := code_opaque awkward hwell
  exact ⟨hwell, hscan, hread, hbinding "event-click" "click" none, by decide, by decide,
    hsplit "label" (by decide) (by decide) (Binding.options "event-click" none) rfl,
    hclosing ['\x7d'], hcoercion⟩

end Expr
end WidgetMarkup
