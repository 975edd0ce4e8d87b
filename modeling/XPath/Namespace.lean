/-!
# Well-known namespaces

The namespaces that the language itself refers to, and the qualifiers under which their names
are written.
-/

namespace XPath.Namespace

/-- The core function library. -/
def functions : String := "http://www.w3.org/2005/xpath-functions"

/-- The built-in types of XML Schema. -/
def schema : String := "http://www.w3.org/2001/XMLSchema"

/-- Schema annotations in instance documents. -/
def schemaInstance : String := "http://www.w3.org/2001/XMLSchema-instance"

/-- The namespace of `xml:lang` and its like. -/
def xml : String := "http://www.w3.org/XML/1998/namespace"

/-- XSLT instructions. -/
def xslt : String := "http://www.w3.org/1999/XSL/Transform"

/-- The standard error codes. -/
def errors : String := "http://www.w3.org/2005/xqt-errors"

/-- All of them with the qualifier under which each is conventionally bound. -/
def qualifiers : List (String × String) :=
  [(functions, "fn"), (schema, "xs"), (schemaInstance, "xsi"), (xml, "xml"), (xslt, "xsl"),
    (errors, "err")]

/-- The qualifier of a well-known namespace. -/
def qualifier? (uri : String) : Option String :=
  qualifiers.lookup uri

end XPath.Namespace
