/-!
# Phases

The steps of bringing something up or down, and the direction of a run.
-/
namespace NetHooks

inductive Phase where
  | preUp
  | up
  | postUp
  | preDown
  | down
  | postDown
  deriving DecidableEq, Repr, Inhabited

namespace Phase

/-- Every phase, in the order of listing. -/
def all : List Phase := [preUp, up, postUp, preDown, down, postDown]

/-- The phases of an activation, in order. -/
def activation : List Phase := [preUp, up, postUp]

/-- The phases of a deactivation, in order. -/
def deactivation : List Phase := [preDown, down, postDown]

def keyword : Phase → String
  | preUp => "pre-up"
  | up => "up"
  | postUp => "post-up"
  | preDown => "pre-down"
  | down => "down"
  | postDown => "post-down"

def ofKeyword? (s : String) : Option Phase :=
  all.find? (·.keyword = s)

/-- In these phases each protocol of an interface is swept with its own options; in the
others each kind of protocol is swept once. -/
def sweepsProtocols : Phase → Bool
  | up | down => true
  | _ => false

/-- A group has the phases around its dependencies only. -/
def inGroup (p : Phase) : Bool :=
  !p.sweepsProtocols

@[simp] theorem ofKeyword?_keyword (p : Phase) : ofKeyword? p.keyword = some p := by
  cases p <;> decide

theorem mem_all (p : Phase) : p ∈ all := by
  cases p <;> decide

end Phase

/-- Bringing up or bringing down. -/
inductive Mode where
  | start
  | stop
  deriving DecidableEq, Repr

namespace Mode

def keyword : Mode → String
  | start => "start"
  | stop => "stop"

/-- The phases of an interface in this direction, in order. -/
def phases : Mode → List Phase
  | start => Phase.activation
  | stop => Phase.deactivation

/-- The phase of a group before its dependencies. -/
def phaseBefore : Mode → Phase
  | start => .preUp
  | stop => .preDown

/-- The phase of a group after its dependencies. -/
def phaseAfter : Mode → Phase
  | start => .postUp
  | stop => .postDown

end Mode

/-- The order in which the hooks of a directory run. -/
inductive Order where
  | ascending
  | descending
  deriving DecidableEq, Repr

def Mode.order : Mode → Order
  | .start => .ascending
  | .stop => .descending

/-- Names in ascending order, put into the order of a sweep. -/
def Order.arrange : Order → List String → List String
  | .ascending, names => names
  | .descending, names => names.reverse

@[simp] theorem Order.mem_arrange {o : Order} {names : List String} {name : String} :
    name ∈ o.arrange names ↔ name ∈ names := by
  cases o <;> simp [arrange]

end NetHooks
