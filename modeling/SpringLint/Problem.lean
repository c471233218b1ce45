import SpringLint.Syntax.Kind
import SpringLint.Text.Basic

/-! The problems that can be reported. -/

namespace SpringLint

inductive Severity where
  | error
  | warning
  deriving DecidableEq, Repr

namespace Severity

def name : Severity → String
  | .error => "error"
  | .warning => "warning"

def parse? (text : String) : Option Severity :=
  match String.ofList (text.toList.map Char.toLower) with
  | "error" => some .error
  | "warning" => some .warning
  | _ => none

def unknownMessage (text : String) : String :=
  "unknown severity: " ++ text

end Severity

/-- Every kind of problem. Markers keep the number of a problem, so numbers never change. -/
inductive Problem where
  | configurationClassConstructorInjection
  | autowiredSingleConstructor
  | failureAnalyzerNotInSpringFactories
  | mainCodeComponent
  | missingFunctionalInterface
  | missingParenthesesAroundLambdaParameter
  | lambdaExpressionBodyIsSingleStatementBlock
  | unusedMethodParameter
  | incompleteUseOfAssertThat
  | missingPackageInfo
  | incorrectAnnotationLink
  | invocationOfUnproxiedBeanMethod
  | mismatchedBeanMethodProxying
  | singleCharacterStringLiteralIndexOf
  | beanMethodOnNonConfigurationClass
  | nonConfigurationClassHasInheritedBeanMethods
  | assertjExceptionAssertionSupportNotUsed
  deriving DecidableEq, Repr

namespace Problem

def all : List Problem := [
  .configurationClassConstructorInjection, .autowiredSingleConstructor,
  .failureAnalyzerNotInSpringFactories, .mainCodeComponent, .missingFunctionalInterface,
  .missingParenthesesAroundLambdaParameter, .lambdaExpressionBodyIsSingleStatementBlock,
  .unusedMethodParameter, .incompleteUseOfAssertThat, .missingPackageInfo,
  .incorrectAnnotationLink, .invocationOfUnproxiedBeanMethod, .mismatchedBeanMethodProxying,
  .singleCharacterStringLiteralIndexOf, .beanMethodOnNonConfigurationClass,
  .nonConfigurationClassHasInheritedBeanMethods, .assertjExceptionAssertionSupportNotUsed]

def id : Problem → Nat
  | .configurationClassConstructorInjection => 0
  | .autowiredSingleConstructor => 1
  | .failureAnalyzerNotInSpringFactories => 2
  | .mainCodeComponent => 3
  | .missingFunctionalInterface => 4
  | .missingParenthesesAroundLambdaParameter => 5
  | .lambdaExpressionBodyIsSingleStatementBlock => 6
  | .unusedMethodParameter => 7
  | .incompleteUseOfAssertThat => 8
  | .missingPackageInfo => 9
  | .incorrectAnnotationLink => 10
  | .invocationOfUnproxiedBeanMethod => 11
  | .mismatchedBeanMethodProxying => 12
  | .singleCharacterStringLiteralIndexOf => 13
  | .beanMethodOnNonConfigurationClass => 14
  | .nonConfigurationClassHasInheritedBeanMethods => 15
  | .assertjExceptionAssertionSupportNotUsed => 16

def name : Problem → String
  | .configurationClassConstructorInjection => "CONFIGURATION_CLASS_CONSTRUCTOR_INJECTION"
  | .autowiredSingleConstructor => "AUTOWIRED_SINGLE_CONSTRUCTOR"
  | .failureAnalyzerNotInSpringFactories => "FAILURE_ANALYZER_NOT_IN_SPRING_FACTORIES"
  | .mainCodeComponent => "MAIN_CODE_COMPONENT"
  | .missingFunctionalInterface => "MISSING_FUNCTIONAL_INTERFACE_ANNOTATION"
  | .missingParenthesesAroundLambdaParameter => "MISSING_PARENTHESES_AROUND_LAMBDA_PARAMETER"
  | .lambdaExpressionBodyIsSingleStatementBlock =>
    "LAMBDA_EXPRESSION_BODY_IS_SINGLE_STATEMENT_BLOCK"
  | .unusedMethodParameter => "UNUSED_METHOD_PARAMETER"
  | .incompleteUseOfAssertThat => "INCOMPLETE_USE_OF_ASSERT_THAT"
  | .missingPackageInfo => "MISSING_PACKAGE_INFO"
  | .incorrectAnnotationLink => "INCORRECT_ANNOTATION_LINK"
  | .invocationOfUnproxiedBeanMethod => "INVOCATION_OF_UNPROXIED_BEAN_METHOD"
  | .mismatchedBeanMethodProxying => "MISMATCHED_BEAN_METHOD_PROXYING"
  | .singleCharacterStringLiteralIndexOf => "SINGLE_CHARACTER_STRING_LITERAL_INDEX_OF"
  | .beanMethodOnNonConfigurationClass => "BEAN_METHOD_ON_NON_CONFIGURATION_CLASS"
  | .nonConfigurationClassHasInheritedBeanMethods =>
    "NON_CONFIGURATION_CLASS_HAS_INHERITED_BEAN_METHODS"
  | .assertjExceptionAssertionSupportNotUsed => "ASSERTJ_EXCEPTION_ASSERTION_SUPPORT_NOT_USED"

/-- The message, in which a number between braces stands for an argument. -/
def template : Problem → String
  | .configurationClassConstructorInjection =>
    "@Configuration classes should use constructor injection"
  | .autowiredSingleConstructor => "@Autowired is unnecessary as the class has a single constructor"
  | .failureAnalyzerNotInSpringFactories =>
    "Implements FailureAnalyzer but is not listed in spring.factories"
  | .mainCodeComponent => "@Component should not be used in main code"
  | .missingFunctionalInterface => "Functional interface is not annotated with @FunctionalInterface"
  | .missingParenthesesAroundLambdaParameter =>
    "Lambda expression parameter should be wrapped in parentheses"
  | .lambdaExpressionBodyIsSingleStatementBlock =>
    "Lambda expression body is a block containing a single statement"
  | .unusedMethodParameter => "Method parameter is unused"
  | .incompleteUseOfAssertThat =>
    "Incomplete use of assertThat: no assertion method is called on its result"
  | .missingPackageInfo => "Package is missing a package-info.java file"
  | .incorrectAnnotationLink => "Link to annotation \x7b0\x7d should use @\x7b1\x7d as its text"
  | .invocationOfUnproxiedBeanMethod =>
    "@Bean method is invoked directly but bean methods of its declaring class are not proxied"
  | .mismatchedBeanMethodProxying =>
    "Bean method proxying does not match the proxying configured on the superclass"
  | .singleCharacterStringLiteralIndexOf =>
    "Use \x7b0\x7d(char) rather than \x7b1\x7d(String) when searching for a single character"
  | .beanMethodOnNonConfigurationClass =>
    "@Bean method declared on a class that is not annotated with @Configuration"
  | .nonConfigurationClassHasInheritedBeanMethods =>
    "Class inherits @Bean methods but is not annotated with @Configuration"
  | .assertjExceptionAssertionSupportNotUsed =>
    "AssertJ's exception assertion support should be used instead of fail() and " ++
      "assertThat() in a catch block"

def title (problem : Problem) : String :=
  Kind.capitalized '_' problem.name

/-- Puts arguments into a text, the first of them under the number `next`. -/
def substitute (next : Nat) (text : String) : List String → String
  | [] => text
  | arg :: args =>
    substitute (next + 1) (Text.replaceAll ("\x7b" ++ toString next ++ "\x7d") arg text) args

def message (problem : Problem) (args : List String) : String :=
  substitute 0 problem.template args

def ofNumber? (n : Nat) : Option Problem :=
  all.find? fun problem => problem.id == n

def ofId? (id : String) : Option Problem :=
  (Text.word? 10 (Text.trim id).toList).bind ofNumber?

end Problem

end SpringLint
