import SpringLint.Check.Finding

/-! Where injection points are marked. -/

namespace SpringLint.Check

def autowired : String := "org.springframework.beans.factory.annotation.Autowired"

/-- A class with one constructor need not mark it for injection. -/
def singleConstructor (q : Query) : List Finding :=
  q.tree.gatherAll fun id =>
    if q.tree.kind id = .classDeclaration then
      match (q.tree.members id).filter fun m => q.tree.kind m = .constructorDeclaration with
      | [constructor] =>
        ((q.findUse? constructor autowired).map fun use =>
          .warning .autowiredSingleConstructor use []).toList
      | _ => []
    else []

/-- A configuration class takes what it needs through its constructor and not through fields. -/
def configurationFields (q : Query) : List Finding :=
  q.tree.gatherAll fun id =>
    if q.tree.kind id = .classDeclaration && (q.findUse? id Catalogue.configuration).isSome then
      (((q.tree.members id).filter fun m => q.tree.kind m = .fieldDeclaration).filterMap
        fun field => q.findUse? field autowired).map fun use =>
          .warning .configurationClassConstructorInjection use []
    else []

end SpringLint.Check
