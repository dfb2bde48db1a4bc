import Mathlib.Data.Set.Function
import WidgetMarkup.Name

namespace WidgetMarkup.Name

/-- A bare name must not look like one with a namespace, and the colon behind a namespace must be
the first one there. A local name behind a namespace may be anything. -/
def Unambiguous (n : Name) : Prop :=
  match n.ns with
  | none => n.localName.toList.head? ≠ some ':'
  | some ns => ns ≠ "" ∧ ':' ∉ ns.toList

theorem unambiguous_plain {localName : String} :
    (plain localName).Unambiguous ↔ localName.toList.head? ≠ some ':' := Iff.rfl

theorem unambiguous_within {ns localName : String} :
    (within ns localName).Unambiguous ↔ ns.toList ≠ [] ∧ ':' ∉ ns.toList := by
  rw [ne_eq ns.toList, String.toList_eq_nil_iff]
  exact Iff.rfl

theorem displayChars_plain (localName : String) :
    (plain localName).displayChars = localName.toList := rfl

theorem displayChars_within {ns localName : String} (h : ns.toList ≠ []) :
    (within ns localName).displayChars = ':' :: (ns.toList ++ ':' :: localName.toList) := by
  have hns : ns.isEmpty = false := by simpa using h
  simp [displayChars, within, hns]

variable {n : Name} {s ns localName : List Char}

theorem parseChars?_plain (h : s.head? ≠ some ':') :
    parseChars? s = some (plain (String.ofList s)) := by
  cases s with
  | nil => rfl
  | cons c s =>
      rw [parseChars?, if_neg]
      rintro rfl
      exact h rfl

theorem parseChars?_within (h : ':' ∉ ns) : parseChars? (':' :: (ns ++ ':' :: localName)) =
    if ns = [] then none else some (within (String.ofList ns) (String.ofList localName)) := by
  have hall : ∀ c ∈ ns, (c != ':') = true := by
    intro c hc
    rw [bne_iff_ne]
    exact ne_of_mem_of_not_mem hc h
  have htake : (ns ++ ':' :: localName).takeWhile (· != ':') = ns := by
    rw [List.takeWhile_append_of_pos hall, List.takeWhile_cons_of_neg (by decide), List.append_nil]
  have hdrop : (ns ++ ':' :: localName).dropWhile (· != ':') = ':' :: localName := by
    rw [List.dropWhile_append_of_pos hall, List.dropWhile_cons_of_neg (by decide)]
  rw [parseChars?, if_pos rfl, htake, hdrop]
  cases ns <;> rfl

theorem parseChars?_unfinished (h : ':' ∉ s) : parseChars? (':' :: s) = none := by
  have hdrop : s.dropWhile (· != ':') = [] := by
    rw [← List.append_nil s, List.dropWhile_append_of_pos, List.dropWhile_nil]
    intro c hc
    rw [bne_iff_ne]
    exact ne_of_mem_of_not_mem hc h
  rw [parseChars?, if_pos rfl, hdrop]
  cases s.takeWhile (· != ':') <;> rfl

theorem of_parseChars? (h : parseChars? s = some n) : n.displayChars = s ∧ n.Unambiguous := by
  by_cases hs : s.head? = some ':'
  · obtain ⟨s, rfl⟩ := List.head?_eq_some_iff.1 hs
    by_cases hcolon : ':' ∈ s
    · obtain ⟨ns, localName, rfl, hns⟩ := List.eq_append_cons_of_mem hcolon
      rw [parseChars?_within hns] at h
      split at h
      case isTrue => cases h
      case isFalse hne =>
        cases h
        rw [← String.toList_ofList (l := ns)] at hne hns
        refine ⟨?_, unambiguous_within.2 ⟨hne, hns⟩⟩
        rw [displayChars_within hne, String.toList_ofList, String.toList_ofList]
    · rw [parseChars?_unfinished hcolon] at h
      cases h
  · rw [parseChars?_plain hs] at h
    cases h
    rw [displayChars_plain, unambiguous_plain, String.toList_ofList]
    exact ⟨rfl, hs⟩

theorem parseChars?_displayChars (h : n.Unambiguous) : parseChars? n.displayChars = some n := by
  obtain ⟨_ | ns, localName⟩ := n
  · rw [← plain, unambiguous_plain] at h
    rw [← plain, displayChars_plain, parseChars?_plain h, String.ofList_toList]
  · rw [← within, unambiguous_within] at h
    rw [← within, displayChars_within h.1, parseChars?_within h.2, if_neg h.1,
      String.ofList_toList, String.ofList_toList]

theorem parse?_eq_some_iff {s : String} : parse? s = some n ↔ n.display = s ∧ n.Unambiguous := by
  have hdisplay : n.display = s ↔ n.displayChars = s.toList := by
    rw [display, ← String.toList_inj, String.toList_ofList]
  rw [hdisplay, parse?]
  constructor
  · exact of_parseChars?
  · rintro ⟨hs, hn⟩
    rw [← hs]
    exact parseChars?_displayChars hn

/-- Whatever is read is displayed as it was read. A name is read back from its display just when
it is unambiguous, so no two unambiguous names have the same display. -/
theorem display_codec :
    (∀ s n, parse? s = some n → n.display = s) ∧
      (∀ n : Name, parse? n.display = some n ↔ n.Unambiguous) ∧
      Set.InjOn display {n | n.Unambiguous} ∧
      ∀ localName, parse? (within "urn:widgets" localName).display ≠
        some (within "urn:widgets" localName) := by
  have hself (n : Name) : parse? n.display = some n ↔ n.Unambiguous := by
    rw [parse?_eq_some_iff]
    exact and_iff_right rfl
  refine ⟨?_, hself, ?_, ?_⟩
  · intro s n h
    exact (parse?_eq_some_iff.1 h).1
  · intro n hn m hm h
    have hread := (hself n).2 hn
    rw [h, (hself m).2 hm] at hread
    exact (Option.some.inj hread).symm
  · intro localName
    rw [ne_eq, hself, unambiguous_within]
    decide

theorem display_event_name :
    parse? ":widgets:on:click" = some (within "widgets" "on:click") ∧
      (within "widgets" "on:click").Unambiguous ∧
      (within "widgets" "on:click").display = ":widgets:on:click" := by
  have hread : parse? ":widgets:on:click" = some (within "widgets" "on:click") := by decide
  obtain ⟨hdisplay, hself, -, -⟩ := display_codec
  have hname : (within "widgets" "on:click").display = ":widgets:on:click" :=
    hdisplay _ _ hread
  refine ⟨hread, (hself _).1 ?_, hname⟩
  rw [hname, hread]

end WidgetMarkup.Name
