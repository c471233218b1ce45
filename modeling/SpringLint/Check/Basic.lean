import SpringLint.Check.Assertion
import SpringLint.Check.BeanMethod
import SpringLint.Check.Component
import SpringLint.Check.FunctionalInterface
import SpringLint.Check.IndexOf
import SpringLint.Check.Injection
import SpringLint.Check.Lambda
import SpringLint.Check.UnusedParameter

/-! The checks. -/

namespace SpringLint

inductive Check where
  | autowiredSingleConstructor
  | configurationConstructorInjection
  | failureAnalyzerSpringFactories
  | mainCodeComponent
  | missingFunctionalInterface
  | lambdaParameterParentheses
  | lambdaSingleStatementBlock
  | unusedMethodParameter
  | incompleteAssertThat
  | javadocAnnotationLink
  | beanMethodProxying
  | stringIndexOf
  | beanMethodOnNonConfiguration
  | preferAssertjExceptionAssertions
  deriving DecidableEq, Repr

namespace Check

/-- A link to an annotation has the name of the annotation, after an at sign, as its label. -/
def linkLabels (q : Query) : List Finding :=
  ((q.tree.descendants Tree.root).filter fun id => q.tree.kind id = .javadocLink).filterMap
    fun link => do
      let target ← q.typeOf? (← q.tree.childByField link "name")
      guard (q.index.kind? target = some .annotationType)
      let name := Text.lastPart '.' target
      let label := (q.tree.childByField link "text").map fun text => Text.trim (q.tree.text text)
      guard (label ≠ some ("@" ++ name))
      return .warning .incorrectAnnotationLink link [name, name]

def all : List Check := [
  .autowiredSingleConstructor, .configurationConstructorInjection,
  .failureAnalyzerSpringFactories, .mainCodeComponent, .missingFunctionalInterface,
  .lambdaParameterParentheses, .lambdaSingleStatementBlock, .unusedMethodParameter,
  .incompleteAssertThat, .javadocAnnotationLink, .beanMethodProxying, .stringIndexOf,
  .beanMethodOnNonConfiguration, .preferAssertjExceptionAssertions]

def name : Check → String
  | .autowiredSingleConstructor => "autowired-single-constructor"
  | .configurationConstructorInjection => "configuration-constructor-injection"
  | .failureAnalyzerSpringFactories => "failure-analyzer-spring-factories"
  | .mainCodeComponent => "main-code-component"
  | .missingFunctionalInterface => "missing-functional-interface"
  | .lambdaParameterParentheses => "lambda-parameter-parentheses"
  | .lambdaSingleStatementBlock => "lambda-single-statement-block"
  | .unusedMethodParameter => "unused-method-parameter"
  | .incompleteAssertThat => "incomplete-assert-that"
  | .javadocAnnotationLink => "javadoc-annotation-link"
  | .beanMethodProxying => "bean-method-proxying"
  | .stringIndexOf => "string-index-of"
  | .beanMethodOnNonConfiguration => "bean-method-on-non-configuration"
  | .preferAssertjExceptionAssertions => "prefer-assertj-exception-assertions"

def title (check : Check) : String :=
  Kind.capitalized '-' check.name

def parse? (text : String) : Option Check :=
  all.find? fun check => check.name == text

def problems : Check → List Problem
  | .autowiredSingleConstructor => [.autowiredSingleConstructor]
  | .configurationConstructorInjection => [.configurationClassConstructorInjection]
  | .failureAnalyzerSpringFactories => [.failureAnalyzerNotInSpringFactories]
  | .mainCodeComponent => [.mainCodeComponent]
  | .missingFunctionalInterface => [.missingFunctionalInterface]
  | .lambdaParameterParentheses => [.missingParenthesesAroundLambdaParameter]
  | .lambdaSingleStatementBlock => [.lambdaExpressionBodyIsSingleStatementBlock]
  | .unusedMethodParameter => [.unusedMethodParameter]
  | .incompleteAssertThat => [.incompleteUseOfAssertThat]
  | .javadocAnnotationLink => [.incorrectAnnotationLink]
  | .beanMethodProxying => [.invocationOfUnproxiedBeanMethod, .mismatchedBeanMethodProxying]
  | .stringIndexOf => [.singleCharacterStringLiteralIndexOf]
  | .beanMethodOnNonConfiguration =>
    [.beanMethodOnNonConfigurationClass, .nonConfigurationClassHasInheritedBeanMethods]
  | .preferAssertjExceptionAssertions => [.assertjExceptionAssertionSupportNotUsed]

/-- What a check finds in a source. There is no answer when the layout of the project is at odds
with the place of the source. -/
def run? (check : Check) (q : Query) : Option (List Finding) :=
  match check with
  | .autowiredSingleConstructor => some (singleConstructor q)
  | .configurationConstructorInjection => some (configurationFields q)
  | .failureAnalyzerSpringFactories => unlistedAnalyzers? q
  | .mainCodeComponent => some (mainComponents q)
  | .missingFunctionalInterface => some (functionalInterfaces q)
  | .lambdaParameterParentheses => some (lambdaParameters q)
  | .lambdaSingleStatementBlock => some (lambdaBlocks q)
  | .unusedMethodParameter => some (unusedParameters q)
  | .incompleteAssertThat => some (incompleteAssertions q)
  | .javadocAnnotationLink => some (linkLabels q)
  | .beanMethodProxying => some (beanProxying q)
  | .stringIndexOf => some (characterSearches q)
  | .beanMethodOnNonConfiguration => some (beanConfiguration q)
  | .preferAssertjExceptionAssertions => some (exceptionAssertions q)

def runAll? (checks : List Check) (q : Query) : Option (List Finding) :=
  (checks.mapM (run? · q)).map List.flatten

end Check

end SpringLint
