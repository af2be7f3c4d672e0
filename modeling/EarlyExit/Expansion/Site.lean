import EarlyExit.Container.Registry
import EarlyExit.Syntax.Index

/-!
# Sites

A site is a call of the sentinel, without arguments, on an expression whose static
type is a container kind.  It asks for the success value of the container, and for
an early exit from the surrounding scope when there is none.  A call of the same
name on anything else is an ordinary call.
-/

namespace EarlyExit.Expansion

structure Options where
  /-- The name of the calls to expand. -/
  sentinel : String := "unwrap"
  /-- What the names of temporaries start with. -/
  stem : String := "$unwrap"
  registry : Registry := .standard
  /-- The number of steps allowed for each site. -/
  maxSteps : Int64 := 64

/-- Options where an empty text and a number that is not positive stand for the default. -/
def Options.ofTexts (sentinel stem : String) (registry : Registry) (maxSteps : Int64) : Options :=
  let d : Options := {}
  { sentinel := if sentinel.isEmpty then d.sentinel else sentinel
    stem := if stem.isEmpty then d.stem else stem
    registry
    maxSteps := if maxSteps ≤ 0 then d.maxSteps else maxSteps }

structure Site where
  path : Path
  span : Span
  kind : Kind

/-- The kind of the container that a node unwraps, if the node is a site. -/
def siteKind? (o : Options) : Node -> Option Kind
  | .expr (.call _ receiver name [] _) =>
      if name = o.sentinel then o.registry.resolve receiver else none
  | _ => none

def siteAt? (o : Options) (place : Path × Node) : Option Site :=
  (siteKind? o place.2).map fun kind => ⟨place.1, place.2.span, kind⟩

/-- The sites of a tree, outer ones before the ones inside them. -/
def sites (o : Options) (root : Node) : List Site :=
  root.walk.filterMap (siteAt? o)

end EarlyExit.Expansion
