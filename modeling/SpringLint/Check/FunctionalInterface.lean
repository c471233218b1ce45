import SpringLint.Check.Finding

/-! Interfaces with a single method to implement. -/

namespace SpringLint.Check

def functionalInterface : String := "java.lang.FunctionalInterface"

def signature (m : Method) : String :=
  m.name ++ "(" ++ Text.joinWith "," (m.parameters.map (·.typeName)) ++ ")"

def isObjectMethod (index : Index) (m : Method) : Bool :=
  match index.get? Catalogue.object with
  | some d => (d.methodsNamed m.name).any fun other => signature other == signature m
  | none => false

/-- The methods of a list that do not repeat an earlier one or one of `seen`. -/
def distinctMethods (seen : List Method) : List Method → List Method
  | [] => []
  | m :: rest =>
    if seen.any fun other => other.name == m.name && Query.isOverrideOf m other then
      distinctMethods seen rest
    else m :: distinctMethods (seen ++ [m]) rest

def interfaceMethods (index : Index) (d : TypeDecl) : List Method :=
  ((d :: (index.supertypes d).filter fun s => s.kind.isInterface).flatMap (·.methods)).filter
    fun m => !m.isConstructor && !m.modifiers.isStatic && !m.modifiers.isPrivate

/-- Whether an interface has exactly one method to implement, a method that is declared again
counted once. Nothing can be said when a supertype is unknown. -/
def isFunctional (index : Index) (d : TypeDecl) : Bool :=
  !index.hasUnknownSupertypes d &&
    ((distinctMethods [] (interfaceMethods index d)).filter fun m =>
      m.isAbstract && !isObjectMethod index m).length == 1

/-- An exported interface of main code with a single method to implement says so. -/
def functionalInterfaces (q : Query) : List Finding :=
  if q.location = .main then
    q.tree.gatherAll fun id =>
      if q.tree.kind id = .interfaceDeclaration && q.tree.isExported id &&
          (q.findUse? id functionalInterface).isNone then
        let finding : Option Finding := do
          let d ← q.unit.typeAt? id
          guard (isFunctional q.index d)
          let name ← q.tree.childByField id "name"
          return .warning .missingFunctionalInterface name []
        finding.toList
      else []
  else []

end SpringLint.Check
