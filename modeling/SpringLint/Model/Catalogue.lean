import SpringLint.Model.Type

/-! The library types that the checks reason about: their supertypes, the annotations on them, and
the members used through them. Every method that an implementing class has to supply is listed. -/

namespace SpringLint.Catalogue

def component : String := "org.springframework.stereotype.Component"

def configuration : String := "org.springframework.context.annotation.Configuration"

def object : String := "java.lang.Object"

def string : String := "java.lang.String"

def throwable : String := "java.lang.Throwable"

def exception : String := "java.lang.Exception"

def runtimeException : String := "java.lang.RuntimeException"

def controller : String := "org.springframework.stereotype.Controller"

def controllerAdvice : String := "org.springframework.web.bind.annotation.ControllerAdvice"

def springBootConfiguration : String := "org.springframework.boot.SpringBootConfiguration"

def failureAnalysis : String := "org.springframework.boot.diagnostics.FailureAnalysis"

def abstractAssert : String := "org.assertj.core.api.AbstractAssert"

def throwableAssert : String := "org.assertj.core.api.AbstractThrowableAssert"

def throwableTypeAssert : String := "org.assertj.core.api.ThrowableTypeAssert"

def concrete (name : String) (parameters : List String) (returns : String) : Method where
  name := name
  parameters := parameters.mapIdx fun i type =>
    { name := "arg" ++ toString i, typeName := type, isTypeVariable := type.utf8ByteSize == 1 }
  isVariadic := (parameters.getLast?.map (Text.endsWith "[]")).getD false
  returns := some returns
  modifiers := { isPublic := true }
  hasBody := true

def static (name : String) (parameters : List String) (returns : String) : Method :=
  { concrete name parameters returns with modifiers := { isPublic := true, isStatic := true } }

def required (name : String) (parameters : List String) (returns : String) : Method :=
  { concrete name parameters returns with
    modifiers := { isPublic := true, isAbstract := true }
    hasBody := false }

def flag (name : String) (value : Bool) : List Method :=
  [{ required name [] "boolean" with defaultValue := some (.bool value) }]

def classType (name : String) (superclass : Option String) : TypeDecl where
  name := name
  simpleName := Text.lastPart '.' name
  kind := .classType
  modifiers := { isPublic := true }
  superclass := superclass
  isComplete := false

def interfaceType (name : String) (methods : List Method) : TypeDecl :=
  { classType name none with
    kind := .interfaceType
    modifiers := { isPublic := true, isAbstract := true }
    methods := methods }

def annotationWith (name : String) (metas : List String) (elements : List Method) : TypeDecl :=
  { interfaceType name elements with
    kind := .annotationType
    annotations := metas.map fun other => { typeName := other, isResolved := true } }

def annotationType (name : String) (metas : List String) : TypeDecl :=
  annotationWith name metas []

def types : List TypeDecl := [
    { classType object none with
      methods := [
        concrete "equals" [object] "boolean",
        concrete "hashCode" [] "int",
        concrete "toString" [] string,
        concrete "getClass" [] "java.lang.Class"] },
    { classType throwable (some object) with
      methods := [
        concrete "getMessage" [] string,
        concrete "getCause" [] throwable] },
    classType exception (some throwable),
    classType "java.lang.Error" (some throwable),
    classType runtimeException (some exception),
    classType "java.lang.IllegalArgumentException" (some runtimeException),
    classType "java.lang.IllegalStateException" (some runtimeException),
    classType "java.lang.NullPointerException" (some runtimeException),
    classType "java.lang.UnsupportedOperationException" (some runtimeException),
    classType "java.lang.AssertionError" (some "java.lang.Error"),
    classType "java.io.IOException" (some exception),
    classType "java.io.UncheckedIOException" (some runtimeException),
    { classType string (some object) with
      modifiers := { isPublic := true, isFinal := true }
      interfaces := ["java.lang.CharSequence", "java.lang.Comparable"]
      methods := [
        concrete "indexOf" [string] "int",
        concrete "indexOf" ["int"] "int",
        concrete "indexOf" [string, "int"] "int",
        concrete "indexOf" ["int", "int"] "int",
        concrete "lastIndexOf" [string] "int",
        concrete "lastIndexOf" ["int"] "int",
        concrete "lastIndexOf" [string, "int"] "int",
        concrete "lastIndexOf" ["int", "int"] "int",
        concrete "substring" ["int"] string,
        concrete "substring" ["int", "int"] string,
        concrete "trim" [] string,
        concrete "toLowerCase" [] string,
        concrete "toUpperCase" [] string,
        concrete "strip" [] string,
        concrete "replace" ["java.lang.CharSequence", "java.lang.CharSequence"] string,
        static "valueOf" [object] string,
        static "format" [string, "java.lang.Object[]"] string] },
    { classType "java.lang.StringBuilder" (some object) with
      modifiers := { isPublic := true, isFinal := true }
      methods := [
        concrete "toString" [] string] },
    { classType "java.lang.Enum" (some object) with
      modifiers := { isPublic := true, isAbstract := true } },
    { classType "java.lang.Record" (some object) with
      modifiers := { isPublic := true, isAbstract := true } },
    { classType "java.lang.Class" (some object) with
      modifiers := { isPublic := true, isFinal := true } },
    interfaceType "java.lang.CharSequence" [
        required "length" [] "int",
        required "charAt" ["int"] "char",
        required "subSequence" ["int", "int"] "java.lang.CharSequence"],
    interfaceType "java.lang.Comparable" [
        required "compareTo" ["T"] "int"],
    interfaceType "java.lang.Runnable" [
        required "run" [] "void"],
    interfaceType "java.lang.AutoCloseable" [
        required "close" [] "void"],
    { interfaceType "java.io.Closeable" [
        required "close" [] "void"] with
      interfaces := ["java.lang.AutoCloseable"] },
    interfaceType "java.lang.Iterable" [
        required "iterator" [] "java.util.Iterator"],
    interfaceType "java.util.concurrent.Callable" [
        required "call" [] "V"],
    interfaceType "java.util.function.Supplier" [
        required "get" [] "T"],
    interfaceType "java.util.function.Consumer" [
        required "accept" ["T"] "void"],
    interfaceType "java.util.function.Function" [
        required "apply" ["T"] "R"],
    interfaceType "java.util.function.Predicate" [
        required "test" ["T"] "boolean"],
    annotationType "java.lang.Override" [],
    annotationType "java.lang.Deprecated" [],
    annotationType "java.lang.SuppressWarnings" [],
    annotationType "java.lang.FunctionalInterface" [],
    annotationType "java.lang.annotation.Documented" [],
    annotationType "java.lang.annotation.Retention" [],
    annotationType "java.lang.annotation.Target" [],
    annotationType component [],
    annotationType "org.springframework.stereotype.Service" [component],
    annotationType "org.springframework.stereotype.Repository" [component],
    annotationType controller [component],
    annotationType "org.springframework.web.bind.annotation.RestController" [controller],
    annotationType controllerAdvice [component],
    annotationType "org.springframework.web.bind.annotation.RestControllerAdvice"
      [controllerAdvice],
    annotationType "org.springframework.web.bind.annotation.ExceptionHandler" [],
    annotationWith configuration [component] (flag "proxyBeanMethods" true),
    annotationType "org.springframework.context.annotation.Bean" [],
    annotationType "org.springframework.context.annotation.Import" [],
    annotationWith springBootConfiguration [configuration] (flag "proxyBeanMethods" true),
    annotationWith "org.springframework.boot.autoconfigure.SpringBootApplication"
      [springBootConfiguration] (flag "proxyBeanMethods" true),
    annotationWith "org.springframework.boot.autoconfigure.AutoConfiguration"
      [configuration] (flag "proxyBeanMethods" false),
    annotationWith "org.springframework.boot.test.context.TestConfiguration"
      [configuration] (flag "proxyBeanMethods" true),
    annotationWith
      "org.springframework.boot.actuate.autoconfigure.web.ManagementContextConfiguration"
      [configuration] (flag "proxyBeanMethods" true),
    annotationWith "org.springframework.beans.factory.annotation.Autowired"
      [] (flag "required" true),
    annotationType "org.springframework.beans.factory.annotation.Qualifier" [],
    annotationType "org.springframework.beans.factory.annotation.Value" [],
    interfaceType "org.springframework.beans.factory.ObjectProvider" [
        required "getObject" ["java.lang.Object[]"] "T",
        required "getIfAvailable" [] "T",
        required "getIfUnique" [] "T",
        required "getObject" [] "T"],
    interfaceType "org.springframework.boot.diagnostics.FailureAnalyzer" [
        required "analyze" [throwable] failureAnalysis],
    { classType "org.springframework.boot.diagnostics.AbstractFailureAnalyzer" (some object) with
      modifiers := { isPublic := true, isAbstract := true }
      interfaces := ["org.springframework.boot.diagnostics.FailureAnalyzer"]
      methods := [
        concrete "analyze" [throwable] failureAnalysis,
        required "analyze" [throwable, "T"] failureAnalysis] },
    classType failureAnalysis (some object),
    { classType "org.assertj.core.api.Assertions" (some object) with
      methods := [
        static "assertThat" ["T"] abstractAssert,
        static "assertThatThrownBy"
          ["org.assertj.core.api.ThrowableAssert.ThrowingCallable"] throwableAssert,
        static "assertThatExceptionOfType" ["java.lang.Class"] throwableTypeAssert,
        static "assertThatIllegalStateException" [] throwableTypeAssert,
        static "assertThatIllegalArgumentException" [] throwableTypeAssert,
        static "fail" [string] "T"] },
    { classType "org.junit.Assert" (some object) with
      methods := [
        static "fail" [] "void",
        static "fail" [string] "void",
        static "assertEquals" [object, object] "void",
        static "assertTrue" ["boolean"] "void",
        static "assertFalse" ["boolean"] "void",
        static "assertNotNull" [object] "void"] },
    annotationType "org.junit.Test" [],
    annotationType "org.junit.jupiter.api.Test" []
]

def contains (name : String) : Bool :=
  types.any fun d => d.name == name

end SpringLint.Catalogue
