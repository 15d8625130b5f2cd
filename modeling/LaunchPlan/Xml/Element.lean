/-!
# Elements of a document

What a document tells a reader of launch descriptions: names, attributes and
child elements. Text, comments and processing instructions are not kept.
-/

namespace LaunchPlan.Xml

structure Attribute where
  /-- The namespace of a name written with a qualifier. -/
  space : Option String
  name : String
  value : String
  deriving DecidableEq, Repr

inductive Element
  | mk (name : String) (attributes : List Attribute) (children : List Element)

namespace Element

def name : Element → String
  | mk name _ _ => name

def attributes : Element → List Attribute
  | mk _ attributes _ => attributes

def children : Element → List Element
  | mk _ _ children => children

/-- The value of an attribute that is in no namespace. -/
def attribute? (e : Element) (name : String) : Option String :=
  (e.attributes.find? fun a => a.space.isNone && a.name = name).map Attribute.value

end Element

end LaunchPlan.Xml
