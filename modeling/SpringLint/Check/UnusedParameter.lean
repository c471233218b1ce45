import SpringLint.Check.Finding

/-! Parameters that a method does not use. -/

namespace SpringLint.Check

def exceptionHandler : String := "org.springframework.web.bind.annotation.ExceptionHandler"

def namedParameters (t : Tree) (method : Nat) : List (Nat × Nat) :=
  match t.childByField method "parameters" with
  | none => []
  | some list =>
    (t.namedChildren list).filterMap fun parameter =>
      let name := match t.kind parameter with
        | .formalParameter => t.childByField parameter "name"
        | .spreadParameter =>
          (t.childOfKind parameter .variableDeclarator).bind (t.childByField · "name")
        | _ => none
      name.map fun name => (parameter, name)

def isHandled (index : Index) (method : Method) (name : String) : Bool :=
  method.carries exceptionHandler &&
    match method.parameters.find? fun p => p.name == name with
    | some p => index.isSubtype p.typeName Catalogue.throwable
    | none => false

def unusedIn (q : Query) (id body : Nat) (method : Method) : List Finding :=
  let referenced := (q.tree.descendants body).filterMap q.variableOf?
  ((namedParameters q.tree id).filter fun (_, name) =>
    !referenced.contains name && !isHandled q.index method (q.tree.text name)).map
      fun (parameter, _) => .warning .unusedMethodParameter parameter []

/-- A method of main code that takes no part in overriding uses its parameters. Methods inside
others are not looked at. -/
def unusedParameters (q : Query) : List Finding :=
  if q.location = .main then
    q.tree.gather fun id =>
      if (q.tree.kind id).isMethodLike then
        match q.tree.childByField id "body", q.unit.methodAt? id with
        | some body, some (owner, method) =>
          if Query.isOverridable method owner || q.overrides method owner then (false, [])
          else (false, unusedIn q id body method)
        | _, _ => (false, [])
      else (true, [])
  else []

end SpringLint.Check
