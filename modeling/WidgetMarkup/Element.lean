import WidgetMarkup.Attribute

namespace WidgetMarkup

/-- An element without its children. A handler stands for a call at run time, which reads the
properties; the attributes are those of the markup. -/
structure Tag where
  name : Name
  isHandler : Bool := false
  attrs : List Attribute := []
  props : List Attribute := []
  /-- code that runs right before the element -/
  pre : List Expr := []
  /-- code that runs right after the element -/
  post : List Expr := []
  span : Option Span := none

/-- A text does not carry the place where it stands, since nothing looks at that. -/
inductive Node
  | text (s : String)
  | element (tag : Tag) (children : List Node)

structure Element where
  tag : Tag
  children : List Node := []

namespace Tag

def html (localName : String) : Tag := { name := .plain localName }

def handler (ns localName : String) : Tag := { name := .within ns localName, isHandler := true }

def putAttr (n : Name) (v : Value) (t : Tag) : Tag := { t with attrs := Attribute.put n v t.attrs }

def putProp (n : Name) (v : Value) (t : Tag) : Tag := { t with props := Attribute.put n v t.props }

def appendAttr (n : Name) (v : Value) (t : Tag) : Tag :=
  { t with attrs := t.attrs ++ [⟨n, v, none⟩] }

def appendProp (n : Name) (v : Value) (t : Tag) : Tag :=
  { t with props := t.props ++ [⟨n, v, none⟩] }

def attr? (n : Name) (t : Tag) : Option Value := Attribute.value? n t.attrs

def prop? (n : Name) (t : Tag) : Option Value := Attribute.value? n t.props

def withoutAttr (n : Name) (t : Tag) : Tag := { t with attrs := Attribute.without n t.attrs }

def withoutProp (n : Name) (t : Tag) : Tag := { t with props := Attribute.without n t.props }

/-- The properties of a namespace, in the order of declaration. -/
def propsWithin (ns : String) (t : Tag) : List Attribute :=
  t.props.filter fun p => p.name.ns == some ns

end Tag

namespace Element

def node (e : Element) : Node := .element e.tag e.children

def append (e : Element) (child : Node) : Element := { e with children := e.children ++ [child] }

/-- The wrapper with the element as its last child. -/
def wrapIn (e wrapper : Element) : Element := wrapper.append e.node

end Element
end WidgetMarkup
