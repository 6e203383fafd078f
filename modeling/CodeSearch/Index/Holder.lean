import CodeSearch.Index.Generation

/-!
Which generation is current.

Builds are numbered when they begin. A generation becomes the current one only if no later build
has begun; the one that it follows is kept one round longer, for readers that still use it, and
then retired. A generation that comes too late is retired at once. Readers wait until no build is
under way.
-/
set_option autoImplicit false

namespace CodeSearch.Index

/-- The current generation, the one before it, the number of the last build that began, and how many
builds are under way. -/
structure Holder where
  current : Option Generation := none
  previous : Option Generation := none
  latest : Int := 0
  underWay : Int := 0

/-- What a holder is busy with. -/
inductive State where
  | empty
  | indexing
  | ready
deriving DecidableEq, Repr

/-- The name of a state. -/
def State.name : State → String
  | .empty => "empty"
  | .indexing => "indexing"
  | .ready => "ready"

/-- Why a reader gets no generation. -/
inductive NotIndexed where
  /-- There is none, and none is being built. -/
  | never
  /-- A build was still under way at the end of the time to wait. -/
  | stillBuilding (timeout : Value)
  /-- The builds that were waited for gave none. -/
  | nothingBuilt

/-- The wording of a cause. -/
def NotIndexed.message : NotIndexed → String
  | .never => "No codebase has been indexed yet. Run index(path) first."
  | .stillBuilding timeout => s!"Indexing still in progress after {timeout.display}s."
  | .nothingBuilt => "Indexing did not produce a usable index."

namespace Holder

/-! ## Builds -/

/-- A build begun: its number, and the holder that has it under way. -/
def start (h : Holder) : Int × Holder :=
  (h.latest + 1, { h with latest := h.latest + 1, underWay := h.underWay + 1 })

/-- Whether a later build has begun. -/
def isStale (h : Holder) (number : Int) : Bool :=
  number != h.latest

/-- A build ended with a generation: whether it became the current one, the generations to retire,
and the holder after that. -/
def publish (h : Holder) (g : Generation) : Bool × List Generation × Holder :=
  let ended := { h with underWay := h.underWay - 1 }
  if g.number = h.latest then
    (true, h.previous.toList, { ended with previous := h.current, current := some g })
  else (false, [g], ended)

/-- A build ended without a generation. -/
def abort (h : Holder) : Holder :=
  { h with underWay := h.underWay - 1 }

/-! ## Readers -/

/-- What the holder is busy with. -/
def state (h : Holder) : State :=
  if h.underWay ≠ 0 then .indexing else if h.current.isSome then .ready else .empty

/-- A reader that has been waiting. -/
inductive Reader where
  | waiting
  | done (outcome : Except NotIndexed Generation)

/-- What a reader gets once no build is under way. -/
def outcome (h : Holder) : Except NotIndexed Generation :=
  match h.current with
  | some g => .ok g
  | none => .error .nothingBuilt

/-- A reader that comes: it need not wait if there is nothing to wait for. -/
def arrive (h : Holder) : Reader :=
  if h.current.isNone && h.underWay = 0 then .done (.error .never)
  else if h.underWay = 0 then .done h.outcome
  else .waiting

/-- A waiting reader after something has changed. -/
def wake (h : Holder) : Reader → Reader
  | .waiting => if h.underWay = 0 then .done h.outcome else .waiting
  | r => r

/-- What a reader gets if nothing changes while it waits. -/
def await (h : Holder) (timeout : Value) : Except NotIndexed Generation :=
  match h.arrive with
  | .done found => found
  | .waiting => .error (.stillBuilding timeout)

end Holder

end CodeSearch.Index
