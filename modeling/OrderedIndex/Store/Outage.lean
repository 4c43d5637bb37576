import OrderedIndex.Error

namespace OrderedIndex

/-!
# Outages

A plan of failures for a backend: for each kind of call, how many calls pass,
how many fail after them, and what follows.  Any finite pattern of failures of
one kind of call is some plan.
-/

/-- The calls on a backend, its stores and its browsers. -/
inductive StoreCall where
  | create
  | insert
  | remove
  | contains
  | size
  | browse
  | next
  | previous
  | close
  | setCacheSize
  | setWorkingDirectory
  deriving Repr, DecidableEq

/-- A planned failure of one kind of call. -/
inductive Outage where
  /--
  Let `passing` calls through and fail the `failing` calls after them, or all
  of them if no number is given.  The plan in `afterwards` takes over from the
  last failure.
  -/
  | plan
      (cause : StoreError)
      (passing : Nat)
      (failing : Option Nat)
      (afterwards : Option Outage)

namespace Outage

/-- Meet one call: the failure it gets, if any, and the plan for the calls after it. -/
def meet : Outage → Option StoreError × Option Outage
  | .plan cause (passing + 1) failing afterwards =>
      (none, some (.plan cause passing failing afterwards))
  | .plan cause 0 none afterwards => (some cause, some (.plan cause 0 none afterwards))
  | .plan _ 0 (some 0) _ => (none, none)
  | .plan cause 0 (some 1) afterwards => (some cause, afterwards)
  | .plan cause 0 (some (failing + 2)) afterwards =>
      (some cause, some (.plan cause 0 (some (failing + 1)) afterwards))

end Outage

/-- The planned failures of a backend, at most one plan for each kind of call. -/
abbrev Outages := List (StoreCall × Outage)

namespace Outages

/-- Plan failures of one kind of call in place of those planned before. -/
def plan (outages : Outages) (call : StoreCall) (outage : Outage) : Outages :=
  (call, outage) :: outages.filter fun planned => planned.1 != call

/-- Meet one call: the failure it gets, if any, and the plans for the calls after it. -/
def meet (call : StoreCall) : Outages → Option StoreError × Outages
  | [] => (none, [])
  | (other, outage) :: rest =>
      if other = call then
        match outage.meet with
        | (failure, some remaining) => (failure, (other, remaining) :: rest)
        | (failure, none) => (failure, rest)
      else
        let (failure, remaining) := meet call rest
        (failure, (other, outage) :: remaining)

end Outages

end OrderedIndex
