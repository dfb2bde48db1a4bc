namespace WidgetMarkup

/-- An expression is taken over as source; custom text is for the caller to interpret. -/
inductive Field.Kind
  | expression
  | custom
  deriving DecidableEq

/-- One `name=text` entry of a split attribute value. -/
structure Field where
  key : String
  kind : Field.Kind
  text : String
  deriving DecidableEq

namespace Field

/-- How the fields of one name are read, and the key they are stored under when it is not the
name itself. -/
structure Spec where
  kind : Kind
  rename : Option String := none
  deriving DecidableEq

/-- The names that a value may use. A later entry for a name hides an earlier one. -/
structure Schema where
  entries : List (String × Spec) := []

def wildcard : String := "*"

namespace Schema

def insert (s : Schema) (name : String) (spec : Spec) : Schema := ⟨(name, spec) :: s.entries⟩

/-- The entry for `name`, or else the one for every name. -/
def lookup? (s : Schema) (name : String) : Option Spec :=
  (s.entries.lookup name).or (s.entries.lookup wildcard)

end Schema

/-- Why a piece of a value is not stored. -/
inductive Problem
  | unterminatedQuote (quote : Char) (field : String)
  | emptyName (field : String)
  | invalidName (name : String)
  | unknown (name : String)
  | duplicate (name : String)
  | missingName (value : String)
  | extraUnnamed (value default : String)
  deriving DecidableEq

def Problem.message : Problem → String
  | unterminatedQuote q field =>
    "Unterminated quote (" ++ String.singleton q ++ ") in \"" ++ field ++ "\""
  | emptyName field => "Missing attribute name before \"=\" in \"" ++ field ++ "\""
  | invalidName name => "Invalid attribute name \"" ++ name ++ "\""
  | unknown name => "Invalid attribute \"" ++ name ++ "\""
  | duplicate name => "Duplicate attribute \"" ++ name ++ "\""
  | missingName value => "Value \"" ++ value ++ "\" must be given a name (name=value)"
  | extraUnnamed value default =>
    "Unexpected unnamed value \"" ++ value ++
      "\". Only the first unnamed value is allowed and it is assigned to \"" ++ default ++ "\""

/-- The message about a problem in `value`, the value of `subject`. -/
def Problem.report (value subject : String) (p : Problem) : String :=
  "Invalid value of \"" ++ value ++ "\" for " ++ subject ++ ". Error: " ++ p.message

end Field
end WidgetMarkup
