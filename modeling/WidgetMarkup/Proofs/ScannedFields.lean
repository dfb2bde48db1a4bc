import WidgetMarkup.Proofs.Delimiters

namespace WidgetMarkup.Field

open Text

def unquotedSemicolons (s : List Char) : Nat :=
  Nat.count (fun i => s[i]? = some ';' ∧ Closed (s.take i)) s.length

def textBefore (fs : List Scanned) : List Char := fs.flatMap fun f => f.text ++ [';']

def textBehind (fs : List Scanned) : List Char := fs.flatMap fun f => ';' :: f.text

/-- A name in `text` ends at this byte, and at no earlier one; or there is no name. What stands
before and behind `text` is looked at as well. -/
def NameEnds (lead text tail : List Char) : Option Nat → Prop
  | none => ∀ a b, text = a ++ '=' :: b → ¬Separates (lead ++ a) (b ++ tail)
  | some n => (∃ a b, text = a ++ '=' :: b ∧ Separates (lead ++ a) (b ++ tail) ∧ n = byteSize a) ∧
      ∀ a b, text = a ++ '=' :: b → Separates (lead ++ a) (b ++ tail) → n ≤ byteSize a

def LeavesOpen (s : List Char) : Option Char → Prop
  | none => Closed s
  | some q => Open q s

/-- One field among the others of the value: it reaches from one unquoted semicolon to the next,
and it says where its name ends and which quote it leaves open. -/
structure Scanned.Within (value : List Char) (before : List Scanned) (f : Scanned)
    (behind : List Scanned) : Prop where
  value_eq : value = textBefore before ++ (f.text ++ textBehind behind)
  left : Closed (textBefore before)
  right : behind ≠ [] → Closed (textBefore before ++ f.text)
  maximal : ∀ a b, f.text = a ++ ';' :: b → ¬Closed (textBefore before ++ a)
  separator : NameEnds (textBefore before) f.text (textBehind behind) f.separator
  openQuote : if behind = [] then LeavesOpen value f.openQuote else f.openQuote = none

structure Cuts (value : List Char) (fields : List Scanned) : Prop where
  joined : [';'].intercalate (fields.map Scanned.text) = value
  count : fields.length = unquotedSemicolons value + 1
  within : ∀ before f behind, fields = before ++ f :: behind →
    f.Within value before behind

theorem not_separates_of_unseparated {s a b : List Char} (h : Unseparated s)
    (hs : s = a ++ '=' :: b) : ¬Separates a b := by
  rw [separates_iff]
  rintro ⟨hq, hop⟩
  have hin := h a b hs hq
  rw [hop] at hin
  cases hin

theorem nameEnds_ofText {ss : List (List Char)} (hss : ∀ s ∈ ss, Closed s) (t : List Char)
    (ts : List (List Char)) :
    NameEnds (ss.flatMap (· ++ [';'])) t (ts.flatMap (';' :: ·)) (Scanned.ofText t).separator := by
  rw [Scanned.ofText]
  cases hcut : cutName? .outside none t with
  | none =>
      intro a b ht
      rw [separates_within hss]
      exact not_separates_of_unseparated (unseparated_iff.2 hcut) ht
  | some r =>
      obtain ⟨a, b⟩ := r
      obtain ⟨ht, hq, hop, hfirst⟩ := cutName?_eq_some hcut
      rw [Option.or_none] at hop
      refine ⟨⟨a, b, ht, ?_, rfl⟩, ?_⟩
      · rw [separates_within hss, separates_iff]
        exact ⟨hq, hop⟩
      · intro a' b' ht' hsep
        rw [separates_within hss, separates_iff] at hsep
        exact hfirst a' b' ht' hsep.1 (by rw [Option.or_none]; exact hsep.2)

theorem leavesOpen_after (s : List Char) :
    LeavesOpen s (Quoting.outside.after s).openQuote? := by
  cases h : (Quoting.outside.after s).openQuote? with
  | none => exact closed_iff.2 (Quoting.openQuote?_eq_none_iff.1 h)
  | some q => exact open_iff.2 h

theorem textBefore_ofText (ss : List (List Char)) :
    textBefore (ss.map Scanned.ofText) = ss.flatMap (· ++ [';']) := by
  rw [textBefore, List.flatMap_map]
  rfl

theorem textBehind_ofText (ts : List (List Char)) :
    textBehind (ts.map Scanned.ofText) = ts.flatMap (';' :: ·) := by
  rw [textBehind, List.flatMap_map]
  rfl

theorem within_ofText {value t : List Char} {ss ts : List (List Char)}
    (h : pieces value = ss ++ t :: ts) :
    (Scanned.ofText t).Within value (ss.map Scanned.ofText) (ts.map Scanned.ofText) := by
  obtain ⟨hvalue, hss, ht, hts⟩ := pieces_at h
  have hlead := closed_flatMap hss
  have hafter (a : List Char) : Quoting.outside.after (ss.flatMap (· ++ [';']) ++ a) =
      Quoting.outside.after a := by
    rw [Quoting.after_append, closed_iff.1 hlead]
  constructor <;> simp only [textBefore_ofText, textBehind_ofText, ne_eq, List.map_eq_nil_iff]
  case value_eq => exact hvalue
  case left => exact hlead
  case right => exact fun hne => hlead.append (hts hne)
  case maximal =>
    intro a b hab
    rw [closed_iff, hafter]
    exact ht a b hab
  case separator => exact nameEnds_ofText hss t ts
  case openQuote =>
    split
    case isTrue hnil =>
      subst ts
      rw [hvalue, List.flatMap_nil, List.append_nil, Scanned.ofText, ← hafter]
      exact leavesOpen_after _
    case isFalse hne => exact Quoting.openQuote?_eq_none_iff.2 (closed_iff.1 (hts hne))

theorem cuts_pieces (value : List Char) : Cuts value ((pieces value).map Scanned.ofText) where
  joined := by
    have htext : Scanned.text ∘ Scanned.ofText = id := rfl
    rw [List.map_map, htext, List.map_id, intercalate_pieces]
  count := by
    rw [List.length_map, pieces, List.length_cons, length_cutFrom, unquotedSemicolons]
    simp only [closed_iff]
  within := by
    intro before f behind h
    obtain ⟨ss, rest, hp, rfl, hrest⟩ := List.map_eq_append_iff.1 h
    obtain ⟨t, ts, rfl, rfl, rfl⟩ := List.map_eq_cons_iff.1 hrest
    exact within_ofText hp

theorem piece?_ofText (s : List Char) : (Scanned.ofText s).piece? = some (Piece.read s) := by
  rw [Scanned.piece?, Scanned.ofText, Piece.read]
  cases (Quoting.outside.after s).openQuote? with
  | some q => rfl
  | none =>
      cases hcut : cutName? .outside none s with
      | none => rfl
      | some r =>
          obtain ⟨a, b⟩ := r
          obtain ⟨rfl, -⟩ := cutName?_eq_some hcut
          have hvalue : splitAtByte (byteSize a + 1) (a ++ '=' :: b) = some (a ++ ['='], b) := by
            have hcut := splitAtByte_byteSize (a ++ ['=']) b
            rwa [byteSize_append, List.append_assoc] at hcut
          simp [splitAtByte_byteSize, hvalue]

/-- One pass finds the fields between the unquoted semicolons, the same ones that are read piece
by piece, and it can be taken apart at every unquoted semicolon. -/
theorem scan_cuts (value : List Char) :
    (∃ fields, scan value = some fields ∧ Cuts value fields ∧
      fields.map Scanned.piece? = (Piece.readAll value).map some) ∧
    (Closed value → ∀ rest, ∃ fs gs, scan value = some fs ∧ scan rest = some gs ∧
      scan (value ++ ';' :: rest) = some (fs ++ gs)) := by
  constructor
  · refine ⟨_, scan_eq value, cuts_pieces value, ?_⟩
    rw [Piece.readAll, List.map_map, List.map_map]
    exact List.map_congr_left fun s _ => piece?_ofText s
  · intro hclosed rest
    refine ⟨_, _, scan_eq value, scan_eq rest, ?_⟩
    rw [scan_eq, pieces_append hclosed, List.map_append]

theorem scan_quoted_semicolon :
    Closed ['a', '=', '\x27', ';', '\x27'] ∧ ∃ fs gs,
      scan ['a', '=', '\x27', ';', '\x27'] = some fs ∧ scan ['b', '='] = some gs ∧
        scan (['a', '=', '\x27', ';', '\x27'] ++ ';' :: ['b', '=']) = some (fs ++ gs) :=
  have hclosed : Closed ['a', '=', '\x27', ';', '\x27'] := by decide
  ⟨hclosed, (scan_cuts _).2 hclosed _⟩

example : scan ['é', '=', '1', ';', '\x27', '=', ';'] =
    some [⟨['é', '=', '1'], some 2, none⟩, ⟨['\x27', '=', ';'], none, some '\x27'⟩] := by decide

end WidgetMarkup.Field
