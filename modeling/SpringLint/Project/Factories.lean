import SpringLint.Table
import SpringLint.Text.Properties

/-! Manifests that list factory classes: keys, each with classes that commas separate. -/

namespace SpringLint

structure Factories where
  entries : Table (List String) := {}
  deriving DecidableEq, Repr

namespace Factories

open Text

def splitValues (value : String) : List String :=
  ((split ',' value).map trim).filter (· != "")

/-- Reads a manifest. The last entry of a key counts. -/
def parse (text : String) : Factories :=
  { entries := Table.ofList ((Properties.read text).map fun (key, value) =>
      (key, splitValues value)) }

def get (factories : Factories) (key : String) : List String :=
  (factories.entries.get? key).getD []

def contains (factories : Factories) (key value : String) : Bool :=
  (factories.get key).contains value

end Factories

end SpringLint
