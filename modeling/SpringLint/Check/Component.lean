import SpringLint.Check.Finding

/-! Components of the framework itself: how they are found and how they are listed. -/

namespace SpringLint.Check

def failureAnalyzer : String := "org.springframework.boot.diagnostics.FailureAnalyzer"

def failureAnalyzers (q : Query) : List (Nat × TypeDecl) :=
  q.tree.gatherAll fun id =>
    if q.tree.kind id = .classDeclaration then
      match q.unit.typeAt? id with
      | some d =>
        if !d.modifiers.isAbstract && (q.index.implementedInterfaces d).contains failureAnalyzer
        then [(id, d)] else []
      | none => []
    else []

/-- A failure analyzer in main code is listed in the factories manifest of its module. There is no
answer when the module cannot be told. -/
def unlistedAnalyzers? (q : Query) : Option (List Finding) :=
  if q.location = .main then
    match failureAnalyzers q with
    | [] => some []
    | analyzers => do
      let manifest ← q.factories?
      let isListed (d : TypeDecl) : Bool := match manifest with
        | some factories =>
          [d.name, d.binaryName q.unit.package].any (factories.contains failureAnalyzer)
        | none => false
      return (analyzers.filter fun (_, d) => !isListed d).filterMap fun (id, _) =>
        (q.tree.childByField id "name").map fun name =>
          .error .failureAnalyzerNotInSpringFactories name
  else some []

def restrictedPackage : String := "org.springframework.boot."

/-- No top-level type of the framework's main code is found by scanning. Types inside others are not
looked at. -/
def mainComponents (q : Query) : List Finding :=
  q.tree.gather fun id =>
    match q.tree.kind id with
    | .classDeclaration | .interfaceDeclaration =>
      let isFound : Bool := match q.typeOf? id with
        | some name =>
          Text.startsWith restrictedPackage name && q.location = .main &&
            q.carries id Catalogue.component
        | none => false
      (false, if isFound then [.warning .mainCodeComponent id []] else [])
    | _ => (true, [])

end SpringLint.Check
