namespace WidgetMarkup

/-- The name of an element, attribute or property. -/
structure Name where
  ns : Option String
  localName : String
  deriving DecidableEq

namespace Name

def plain (localName : String) : Name := ⟨none, localName⟩

def within (ns localName : String) : Name := ⟨some ns, localName⟩

/-- `:namespace:name`, or the bare name when there is no namespace or an empty one. -/
def displayChars (n : Name) : List Char :=
  match n.ns with
  | none => n.localName.toList
  | some ns => if ns.isEmpty then n.localName.toList
    else ':' :: ns.toList ++ ':' :: n.localName.toList

def display (n : Name) : String := String.ofList n.displayChars

/-- A text that starts with a colon has to name a namespace, up to the next colon. -/
def parseChars? : List Char → Option Name
  | [] => some (plain "")
  | c :: cs =>
    if c = ':' then
      match cs.takeWhile (· != ':'), cs.dropWhile (· != ':') with
      | [], _ | _, [] => none
      | ns, _ :: localName => some (within (String.ofList ns) (String.ofList localName))
    else some (plain (String.ofList (c :: cs)))

def parse? (s : String) : Option Name := parseChars? s.toList

def unsupportedMessage (s : String) : String :=
  "Unsupported format \"" ++ s ++ "\" expecting \":namespace:name\""

end Name
end WidgetMarkup
