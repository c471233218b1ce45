import SpringLint.Text.Quoted
import SpringLint.Text.Split

/-! Kinds of nodes in a Java syntax tree. -/

namespace SpringLint

/-- What a node of the grammar is. Named nodes that no rule asks about are `other`, and keywords
and punctuation are `token`. -/
inductive Kind where
  | program
  | packageDeclaration
  | importDeclaration
  | classDeclaration
  | interfaceDeclaration
  | enumDeclaration
  | recordDeclaration
  | annotationTypeDeclaration
  | annotationTypeElementDeclaration
  | classBody
  | interfaceBody
  | enumBody
  | enumBodyDeclarations
  | annotationTypeBody
  | enumConstant
  | superclass
  | superInterfaces
  | extendsInterfaces
  | typeList
  | modifiers
  | bareAnnotationUse
  | annotationUse
  | annotationArgumentList
  | elementValuePair
  | elementValueArrayInitializer
  | fieldDeclaration
  | constantDeclaration
  | variableDeclarator
  | methodDeclaration
  | constructorDeclaration
  | compactConstructorDeclaration
  | constructorBody
  | explicitConstructorInvocation
  | formalParameters
  | formalParameter
  | spreadParameter
  | receiverParameter
  | typeParameters
  | typeParameter
  | block
  | staticInitializer
  | expressionStatement
  | localVariableDeclaration
  | forStatement
  | enhancedForStatement
  | tryStatement
  | tryWithResourcesStatement
  | resourceSpecification
  | resource
  | catchClause
  | catchFormalParameter
  | catchType
  | finallyClause
  | throwStatement
  | switchExpression
  | switchBlock
  | switchBlockStatementGroup
  | switchRule
  | labeledStatement
  | breakStatement
  | continueStatement
  | lambdaExpression
  | inferredParameters
  | methodInvocation
  | argumentList
  | fieldAccess
  | objectCreationExpression
  | instanceofExpression
  | methodReference
  | castExpression
  | parenthesizedExpression
  | stringLiteral
  | classLiteral
  | identifier
  | typeIdentifier
  | scopedIdentifier
  | scopedTypeIdentifier
  | genericType
  | typeArguments
  | arrayType
  | dimensions
  | voidType
  | integralType
  | floatingPointType
  | booleanType
  | thisExpression
  | superExpression
  | lineComment
  | blockComment
  | javadoc
  | javadocLink
  | javadocReference
  | javadocText
  | syntaxError
  | other (name : String)
  | token (text : String)
  deriving DecidableEq, Repr, Inhabited

namespace Kind

def name : Kind → String
  | .program => "program"
  | .packageDeclaration => "package_declaration"
  | .importDeclaration => "import_declaration"
  | .classDeclaration => "class_declaration"
  | .interfaceDeclaration => "interface_declaration"
  | .enumDeclaration => "enum_declaration"
  | .recordDeclaration => "record_declaration"
  | .annotationTypeDeclaration => "annotation_type_declaration"
  | .annotationTypeElementDeclaration => "annotation_type_element_declaration"
  | .classBody => "class_body"
  | .interfaceBody => "interface_body"
  | .enumBody => "enum_body"
  | .enumBodyDeclarations => "enum_body_declarations"
  | .annotationTypeBody => "annotation_type_body"
  | .enumConstant => "enum_constant"
  | .superclass => "superclass"
  | .superInterfaces => "super_interfaces"
  | .extendsInterfaces => "extends_interfaces"
  | .typeList => "type_list"
  | .modifiers => "modifiers"
  | .bareAnnotationUse => "marker_annotation"
  | .annotationUse => "annotation"
  | .annotationArgumentList => "annotation_argument_list"
  | .elementValuePair => "element_value_pair"
  | .elementValueArrayInitializer => "element_value_array_initializer"
  | .fieldDeclaration => "field_declaration"
  | .constantDeclaration => "constant_declaration"
  | .variableDeclarator => "variable_declarator"
  | .methodDeclaration => "method_declaration"
  | .constructorDeclaration => "constructor_declaration"
  | .compactConstructorDeclaration => "compact_constructor_declaration"
  | .constructorBody => "constructor_body"
  | .explicitConstructorInvocation => "explicit_constructor_invocation"
  | .formalParameters => "formal_parameters"
  | .formalParameter => "formal_parameter"
  | .spreadParameter => "spread_parameter"
  | .receiverParameter => "receiver_parameter"
  | .typeParameters => "type_parameters"
  | .typeParameter => "type_parameter"
  | .block => "block"
  | .staticInitializer => "static_initializer"
  | .expressionStatement => "expression_statement"
  | .localVariableDeclaration => "local_variable_declaration"
  | .forStatement => "for_statement"
  | .enhancedForStatement => "enhanced_for_statement"
  | .tryStatement => "try_statement"
  | .tryWithResourcesStatement => "try_with_resources_statement"
  | .resourceSpecification => "resource_specification"
  | .resource => "resource"
  | .catchClause => "catch_clause"
  | .catchFormalParameter => "catch_formal_parameter"
  | .catchType => "catch_type"
  | .finallyClause => "finally_clause"
  | .throwStatement => "throw_statement"
  | .switchExpression => "switch_expression"
  | .switchBlock => "switch_block"
  | .switchBlockStatementGroup => "switch_block_statement_group"
  | .switchRule => "switch_rule"
  | .labeledStatement => "labeled_statement"
  | .breakStatement => "break_statement"
  | .continueStatement => "continue_statement"
  | .lambdaExpression => "lambda_expression"
  | .inferredParameters => "inferred_parameters"
  | .methodInvocation => "method_invocation"
  | .argumentList => "argument_list"
  | .fieldAccess => "field_access"
  | .objectCreationExpression => "object_creation_expression"
  | .instanceofExpression => "instanceof_expression"
  | .methodReference => "method_reference"
  | .castExpression => "cast_expression"
  | .parenthesizedExpression => "parenthesized_expression"
  | .stringLiteral => "string_literal"
  | .classLiteral => "class_literal"
  | .identifier => "identifier"
  | .typeIdentifier => "type_identifier"
  | .scopedIdentifier => "scoped_identifier"
  | .scopedTypeIdentifier => "scoped_type_identifier"
  | .genericType => "generic_type"
  | .typeArguments => "type_arguments"
  | .arrayType => "array_type"
  | .dimensions => "dimensions"
  | .voidType => "void_type"
  | .integralType => "integral_type"
  | .floatingPointType => "floating_point_type"
  | .booleanType => "boolean_type"
  | .thisExpression => "this"
  | .superExpression => "super"
  | .lineComment => "line_comment"
  | .blockComment => "block_comment"
  | .javadoc => "javadoc"
  | .javadocLink => "javadoc_link"
  | .javadocReference => "javadoc_reference"
  | .javadocText => "javadoc_text"
  | .syntaxError => "ERROR"
  | .other name => name
  | .token text => text

def known : List Kind :=
  [.program, .packageDeclaration, .importDeclaration, .classDeclaration, .interfaceDeclaration,
   .enumDeclaration, .recordDeclaration, .annotationTypeDeclaration,
   .annotationTypeElementDeclaration, .classBody, .interfaceBody, .enumBody,
   .enumBodyDeclarations, .annotationTypeBody, .enumConstant, .superclass, .superInterfaces,
   .extendsInterfaces, .typeList, .modifiers, .bareAnnotationUse, .annotationUse,
   .annotationArgumentList, .elementValuePair, .elementValueArrayInitializer, .fieldDeclaration,
   .constantDeclaration, .variableDeclarator, .methodDeclaration, .constructorDeclaration,
   .compactConstructorDeclaration, .constructorBody, .explicitConstructorInvocation,
   .formalParameters, .formalParameter, .spreadParameter, .receiverParameter, .typeParameters,
   .typeParameter, .block, .staticInitializer, .expressionStatement, .localVariableDeclaration,
   .forStatement, .enhancedForStatement, .tryStatement, .tryWithResourcesStatement,
   .resourceSpecification, .resource, .catchClause, .catchFormalParameter, .catchType,
   .finallyClause, .throwStatement, .switchExpression, .switchBlock, .switchBlockStatementGroup,
   .switchRule, .labeledStatement, .breakStatement, .continueStatement, .lambdaExpression,
   .inferredParameters, .methodInvocation, .argumentList, .fieldAccess,
   .objectCreationExpression, .instanceofExpression, .methodReference, .castExpression,
   .parenthesizedExpression, .stringLiteral, .classLiteral, .identifier, .typeIdentifier,
   .scopedIdentifier, .scopedTypeIdentifier, .genericType, .typeArguments, .arrayType,
   .dimensions, .voidType, .integralType, .floatingPointType, .booleanType, .thisExpression,
   .superExpression, .lineComment, .blockComment, .javadoc, .javadocLink, .javadocReference,
   .javadocText, .syntaxError]

def ofGrammar (name : String) (isNamed : Bool) : Kind :=
  if isNamed then (known.find? fun kind => kind.name == name).getD (.other name) else .token name

/-- The words of a name that `sep` separates, each with a capital and lower-case letters, joined. -/
def capitalized (sep : Char) (name : String) : String :=
  String.join ((Text.split sep name).map fun word =>
    match word.toList with
    | [] => ""
    | c :: cs => String.ofList (c.toUpper :: cs.map Char.toLower))

def title : Kind → String
  | .other name => "Other(" ++ Text.quoted name ++ ")"
  | .token text => "Token(" ++ Text.quoted text ++ ")"
  | kind => capitalized '_' kind.name

def isToken : Kind → Bool
  | .token _ => true
  | _ => false

def isComment : Kind → Bool
  | .lineComment | .blockComment | .javadoc => true
  | _ => false

def isTypeDeclaration : Kind → Bool
  | .classDeclaration | .interfaceDeclaration | .enumDeclaration | .recordDeclaration
  | .annotationTypeDeclaration => true
  | _ => false

def isAnnotationUse : Kind → Bool
  | .bareAnnotationUse | .annotationUse => true
  | _ => false

def isMethodLike : Kind → Bool
  | .methodDeclaration | .constructorDeclaration => true
  | _ => false

end Kind

end SpringLint
