import WidgetMarkup.Expr.Equivalence
import WidgetMarkup.Proofs.LastCut
import WidgetMarkup.Proofs.QuotedStrings

namespace WidgetMarkup.Expr

open Text Nesting

theorem intercalate_ne_nil {t : List Char} (ht : t ≠ []) (sep : List Char)
    (ts : List (List Char)) : sep.intercalate (t :: ts) ≠ [] := by
  cases ts with
  | nil =>
      rw [List.intercalate_singleton]
      exact ht
  | cons u us =>
      rw [List.intercalate_cons_cons, List.append_assoc]
      exact List.append_ne_nil_of_left_ne_nil ht _

theorem intercalate_inj {sep : List Char} {ss ts : List (List Char)} (hss : ∀ s ∈ ss, Item s)
    (hts : ∀ t ∈ ts, Item t) (h : (',' :: sep).intercalate ss = (',' :: sep).intercalate ts) :
    ss = ts := by
  have hsplit (t u : List Char) (us : List (List Char)) :
      (',' :: sep).intercalate (t :: u :: us) =
        t ++ ',' :: (sep ++ (',' :: sep).intercalate (u :: us)) := by
    rw [List.intercalate_cons_cons, List.append_assoc, List.cons_append]
  induction ss generalizing ts with
  | nil =>
      cases ts with
      | nil => rfl
      | cons t ts => exact absurd h.symm (intercalate_ne_nil (hts t List.mem_cons_self).nonempty _ ts)
  | cons s ss ih =>
      rw [List.forall_mem_cons] at hss
      cases ts with
      | nil => exact absurd h (intercalate_ne_nil hss.1.nonempty _ ss)
      | cons t ts =>
          rw [List.forall_mem_cons] at hts
          cases ss with
          | nil =>
              cases ts with
              | nil => rwa [List.intercalate_singleton, List.intercalate_singleton,
                  ← List.singleton_inj] at h
              | cons u us =>
                  rw [List.intercalate_singleton, hsplit] at h
                  exact absurd h (hss.1.ne_append hts.1)
          | cons s' ss =>
              cases ts with
              | nil =>
                  rw [List.intercalate_singleton, hsplit] at h
                  exact absurd h.symm (hts.1.ne_append hss.1)
              | cons t' ts =>
                  rw [hsplit, hsplit] at h
                  obtain ⟨rfl, hrest⟩ := first_cut hss.1.level hts.1.level hss.1.free hts.1.free
                    (by decide) (by decide) h
                  rw [List.cons_eq_cons] at hrest
                  rw [ih hss.2 hts.2 (List.append_cancel_left hrest.2)]

theorem propChars_inj {name name' : String} (h : propChars name = propChars name') :
    name = name' := by
  rw [propChars, propChars] at h
  apply String.toList_inj.1
  split at h <;> split at h
  · exact (List.cons_eq_cons.1 h).2
  · cases h
  · cases h
  · rw [List.cons_append, List.cons_append, List.cons_eq_cons] at h
    exact Json.quoted_inj (List.append_cancel_right h.2)

theorem quoted_ne_of_isIdentifier {s t : List Char} (h : isIdentifier t = true) :
    Json.quoted s ≠ t := by
  rintro rfl
  rw [Json.quoted, List.cons_append, isIdentifier_cons_eq_false (by decide)] at h
  cases h

theorem keyChars_inj {key key' : String} {quoted quoted' : Bool}
    (hkey : (quoted || isIdentifier key.toList) = true)
    (hkey' : (quoted' || isIdentifier key'.toList) = true)
    (h : keyChars key quoted = keyChars key' quoted') : key = key' ∧ quoted = quoted' := by
  rw [keyChars_of_readable hkey, keyChars_of_readable hkey'] at h
  cases quoted with
  | true =>
      cases quoted' with
      | true => exact ⟨String.toList_inj.1 (Json.quoted_inj h), rfl⟩
      | false => exact absurd h (quoted_ne_of_isIdentifier hkey')
  | false =>
      cases quoted' with
      | true => exact absurd h.symm (quoted_ne_of_isIdentifier hkey)
      | false => exact ⟨String.toList_inj.1 h, rfl⟩

theorem same_of_chars_eq {v w : Literal} {span span' : Option Span}
    (hv : (literal v span).readable = true) (hw : (literal w span').readable = true)
    (h : v.chars = w.chars) : v.same w = true := by
  cases v with
  | null =>
      cases w with
      | null => rfl
      | text w => exact absurd h.symm (quoted_ne_of_isIdentifier (by decide))
      | bool w => cases w <;> exact absurd h (by decide)
      | number x => cases hw
  | text v =>
      cases w with
      | null => exact absurd h (quoted_ne_of_isIdentifier (by decide))
      | text w => exact beq_iff_eq.2 (String.toList_inj.1 (Json.quoted_inj h))
      | bool w => cases w <;> exact absurd h (quoted_ne_of_isIdentifier (by decide))
      | number x => cases hw
  | bool v =>
      cases w with
      | null => cases v <;> exact absurd h (by decide)
      | text w => cases v <;> exact absurd h.symm (quoted_ne_of_isIdentifier (by decide))
      | bool w =>
          clear hv hw
          revert v w
          decide
      | number x => cases hw
  | number x => cases hv

theorem entry_inj {key key' : String} {quoted quoted' : Bool} {s t : List Char}
    (hkey : (quoted || isIdentifier key.toList) = true)
    (hkey' : (quoted' || isIdentifier key'.toList) = true)
    (h : keyChars key quoted ++ [':', ' '] ++ s = keyChars key' quoted' ++ [':', ' '] ++ t) :
    key = key' ∧ quoted = quoted' ∧ s = t := by
  have hcolon {key : String} {quoted : Bool} (h : (quoted || isIdentifier key.toList) = true) :
      Free (· == ':') top (keyChars key quoted) :=
    (free_keyChars h).mono fun c hc => by simp [isSpacing, beq_iff_eq.1 hc]
  rw [List.append_assoc, List.append_assoc] at h
  obtain ⟨heq, hrest⟩ := first_cut (after_key key quoted) (after_key key' quoted') (hcolon hkey)
    (hcolon hkey') rfl rfl h
  obtain ⟨hname, hquoted⟩ := keyChars_inj hkey hkey' heq
  exact ⟨hname, hquoted, (List.cons_eq_cons.1 (List.cons_eq_cons.1 hrest).2).2⟩

-- The texts are cut into the same parts, and the parts are read by induction. Their forms have to
-- be known before, so that each constructor of `a` is met by the like one of `b` only.
mutual

theorem equivalent_of_form : ∀ a b : Expr, a.form = b.form → a.readable = true →
    b.readable = true → a.chars = b.chars → a.equivalent b = true
  | var name _, b, hform, _, _, h => by
      cases b with
      | var name' => exact beq_iff_eq.2 (String.toList_inj.1 h)
      | _ => cases hform
  | prop e name _, b, hform, ha, hb, h => by
      cases b with
      | prop f name' =>
          obtain ⟨hchars, hname⟩ := Prod.ext_iff.1 (lastCut_eq ha hb h)
          rw [readable_prop] at ha hb
          rw [equivalent, propChars_inj hname, beq_self_eq_true, Bool.true_and]
          exact equivalent_of_form e f (form_eq ha.2 hb.2 hchars) ha.2 hb.2 hchars
      | _ => cases hform
  | call e es _, b, hform, ha, hb, h => by
      cases b with
      | call f fs =>
          obtain ⟨hchars, hargs⟩ := Prod.ext_iff.1 (lastCut_eq ha hb h)
          rw [readable_call] at ha hb
          have hlist := intercalate_inj (item_listChars es ha.2.2) (item_listChars fs hb.2.2)
            (List.append_cancel_right (List.cons_eq_cons.1 hargs).2)
          have he := equivalent_of_form e f (form_eq ha.2.1 hb.2.1 hchars) ha.2.1 hb.2.1 hchars
          rw [equivalent, he, Bool.true_and]
          exact equivalentList_of_chars_eq es fs ha.2.2 hb.2.2 hlist
      | _ => cases hform
  | literal v _, b, hform, ha, hb, h => by
      cases b with
      | literal w => exact same_of_chars_eq ha hb h
      | _ => cases hform
  | array es _, b, hform, ha, hb, h => by
      cases b with
      | array fs =>
          have hlist := intercalate_inj (item_listChars es ha) (item_listChars fs hb)
            (List.append_cancel_right (List.cons_eq_cons.1 h).2)
          exact equivalentList_of_chars_eq es fs ha hb hlist
      | _ => cases hform
  | object es _, b, hform, ha, hb, h => by
      cases b with
      | object fs =>
          rw [readable_object] at ha hb
          have hlist := intercalate_inj (item_entriesChars es ha.1 ha.2)
            (item_entriesChars fs hb.1 hb.2) (List.append_cancel_right (List.cons_eq_cons.1 h).2)
          exact equivalentEntries_of_chars_eq es fs ha.1 hb.1 ha.2 hb.2 hlist
      | _ => cases hform
  | plus l r _, b, hform, ha, hb, h => by
      cases b with
      | plus l' r' =>
          obtain ⟨hleft, hright⟩ := Prod.ext_iff.1 (lastCut_eq ha hb h)
          rw [readable_plus] at ha hb
          have hl : l.chars = l'.chars := List.append_cancel_right hleft
          have hr : r.chars = r'.chars := (List.cons_eq_cons.1 (List.cons_eq_cons.1 hright).2).2
          rw [equivalent, Bool.and_eq_true]
          exact ⟨equivalent_of_form l l' (form_eq ha.2.1 hb.2.1 hl) ha.2.1 hb.2.1 hl,
            equivalent_of_form r r' (form_eq ha.2.2 hb.2.2 hr) ha.2.2 hb.2.2 hr⟩
      | _ => cases hform
  | parens e _, b, hform, ha, hb, h => by
      cases b with
      | parens f =>
          have hchars : e.chars = f.chars := List.append_cancel_right (List.cons_eq_cons.1 h).2
          exact equivalent_of_form e f (form_eq ha hb hchars) ha hb hchars
      | _ => cases hform

theorem equivalentList_of_chars_eq : ∀ es fs : List Expr, everywhereList isReadable es = true →
    everywhereList isReadable fs = true → listChars es = listChars fs →
    equivalentList es fs = true
  | [], [], _, _, _ => rfl
  | e :: es, f :: fs, hes, hfs, h => by
      rw [everywhereList, Bool.and_eq_true] at hes hfs
      obtain ⟨hchars, hrest⟩ := List.cons_eq_cons.1 h
      rw [equivalentList, equivalent_of_form e f (form_eq hes.1 hfs.1 hchars) hes.1 hfs.1 hchars,
        equivalentList_of_chars_eq es fs hes.2 hfs.2 hrest]
      rfl

theorem equivalentEntries_of_chars_eq : ∀ es fs : List (Entry Expr),
    (∀ e ∈ es, (e.quoted || isIdentifier e.key.toList) = true) →
    (∀ f ∈ fs, (f.quoted || isIdentifier f.key.toList) = true) →
    everywhereEntries isReadable es = true → everywhereEntries isReadable fs = true →
    entriesChars es = entriesChars fs → equivalentEntries es fs = true
  | [], [], _, _, _, _, _ => rfl
  | ⟨key, e, quoted⟩ :: es, ⟨key', f, quoted'⟩ :: fs, hkeys, hkeys', hes, hfs, h => by
      rw [List.forall_mem_cons] at hkeys hkeys'
      rw [everywhereEntries, Bool.and_eq_true] at hes hfs
      obtain ⟨hentry, hrest⟩ := List.cons_eq_cons.1 h
      obtain ⟨rfl, rfl, hchars⟩ := entry_inj hkeys.1 hkeys'.1 hentry
      rw [equivalentEntries, beq_self_eq_true, beq_self_eq_true,
        equivalent_of_form e f (form_eq hes.1 hfs.1 hchars) hes.1 hfs.1 hchars,
        equivalentEntries_of_chars_eq es fs hkeys.2 hkeys'.2 hes.2 hfs.2 hrest]
      rfl

end

/-- Printing is unambiguous: expressions with one printed form differ in their spans only. -/
theorem equivalent_of_code_eq (a b : Expr) (ha : a.readable = true) (hb : b.readable = true)
    (h : a.code = b.code) : a.equivalent b = true := by
  have hchars : a.chars = b.chars := String.ofList_injective h
  exact equivalent_of_form a b (form_eq ha hb hchars) ha hb hchars

def greeting (span : Option Span) : Expr :=
  .plus
    (.plus (.literal (.text "a + ") span)
      (.call (.prop (.prop (.var "user" span) "full-name") "trim" span)
        [.object [⟨"key", .null, false⟩, ⟨"key", .literal (.bool true) span, true⟩],
          .array [.parens (.plus (.var "x" span) (.var "y")), .array []] span] span))
    (.parens (.text ", b"))

theorem greeting_equivalent : (greeting none).readable = true ∧
    (greeting (some ⟨.start ⟨"", "a"⟩, .start ⟨"", "b"⟩⟩)).readable = true ∧
    (greeting none).code = (greeting (some ⟨.start ⟨"", "a"⟩, .start ⟨"", "b"⟩⟩)).code ∧
    (greeting none).equivalent (greeting (some ⟨.start ⟨"", "a"⟩, .start ⟨"", "b"⟩⟩)) = true := by
  have hreadable (span : Option Span) : (greeting span).readable = true := rfl
  have hcode (span : Option Span) : (greeting none).code = (greeting span).code := rfl
  refine ⟨hreadable none, hreadable _, hcode _, ?_⟩
  exact equivalent_of_code_eq (greeting none) (greeting _) (hreadable none) (hreadable _) (hcode _)

end WidgetMarkup.Expr
