import WidgetMarkup.Text.Quoting

namespace WidgetMarkup

open Text

/-- A text is made of plain stretches and of placeholders, each with code between a dollar sign
with an opening brace and the brace that closes it. -/
inductive Interpolation
  | plain (text : List Char)
  | placeholder (code : List Char)
  deriving DecidableEq

namespace Interpolation

def isPlaceholder : Interpolation → Bool
  | plain _ => false
  | placeholder _ => true

def render : Interpolation → List Char
  | plain s => s
  | placeholder code => '$' :: '\x7b' :: code ++ ['\x7d']

/-- The number of open braces after `c`. Braces in quotes do not count. -/
def depthAfter (depth : Nat) (q : Quoting) (c : Char) : Nat :=
  if q = .outside ∧ c = '\x7b' then depth + 1
  else if q = .outside ∧ c = '\x7d' then depth - 1
  else depth

/-- The code up to the brace that closes `depth` braces and the placeholder itself, and the text
after that brace. -/
def closing? (depth : Nat) (q : Quoting) : List Char → Option (List Char × List Char)
  | [] => none
  | c :: cs =>
    if depth = 0 ∧ q = .outside ∧ c = '\x7d' then some ([], cs)
    else (closing? (depthAfter depth q c) (q.step c) cs).map fun r => (c :: r.1, r.2)

theorem eq_append_of_closing? {depth : Nat} {q : Quoting} {s code rest : List Char}
    (h : closing? depth q s = some (code, rest)) : s = code ++ '\x7d' :: rest := by
  induction s generalizing depth q code with
  | nil => simp [closing?] at h
  | cons c cs ih =>
    rw [closing?] at h
    split at h
    case isTrue hc => cases h; simp [hc.2.2]
    case isFalse =>
      obtain ⟨⟨code', rest'⟩, hr, he⟩ := Option.map_eq_some_iff.1 h
      cases he
      exact congrArg (c :: ·) (ih hr)

theorem length_lt_of_closing? {depth : Nat} {q : Quoting} {s code rest : List Char}
    (h : closing? depth q s = some (code, rest)) : rest.length < s.length := by
  have := congrArg List.length (eq_append_of_closing? h)
  simp only [List.length_append, List.length_cons] at this
  omega

/-- Puts a character of plain text in front. -/
def cons (c : Char) : List Interpolation → List Interpolation
  | plain s :: ps => plain (c :: s) :: ps
  | ps => plain [c] :: ps

/-- The parts of a text, none of them empty text; nothing when a placeholder is not closed. -/
def partsOf? : List Char → Option (List Interpolation)
  | [] => some []
  | '$' :: '\x7b' :: body =>
    match _h : closing? 0 .outside body with
    | none => none
    | some (code, rest) => (partsOf? rest).map (placeholder code :: ·)
  | c :: cs => (partsOf? cs).map (cons c)
  termination_by s => s.length
  decreasing_by
    · have := length_lt_of_closing? _h
      simp only [List.length_cons]
      omega
    · simp

/-- The parts of a text. The empty text is one part. -/
def parse? (s : List Char) : Option (List Interpolation) :=
  if s = [] then some [plain []] else partsOf? s

end Interpolation
end WidgetMarkup
