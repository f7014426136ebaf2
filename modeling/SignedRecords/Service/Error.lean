import SignedRecords.Scheduler.Basic
import SignedRecords.Store.Error

/-!
# What can be wrong with a call of the record service

The causes, one wording for each, and the causes behind a cause.
-/

namespace SignedRecords

/-- Why a call of the record service failed. -/
inductive ServiceError where
  /-- The text is no record id. -/
  | malformedId (error : RecordError)
  /-- The id is the one of another record. -/
  | otherRecord (id : String)
  | invalidRecord (error : RecordError)
  /-- The id was not found a short time ago. -/
  | rateLimited (id : String)
  | store (error : StoreError)
  | scheduler (error : SchedulerError)
  deriving DecidableEq, Repr

namespace ServiceError

/-- The wording of a service error. -/
def message : ServiceError → String
  | .malformedId e => s!"Invalid id: {e.message}"
  | .otherRecord id => s!"Invalid id: {id} does not match the record key"
  | .invalidRecord e => s!"Invalid record: {e.message}"
  | .rateLimited id => s!"Rate limited: {id} was not found recently"
  | .store e => s!"Storage error: {e.message}"
  | .scheduler e => s!"Scheduler error: {e.message}"

/-- The wordings of the causes behind a service error, the nearest one first. -/
def causes : ServiceError → List String
  | .invalidRecord e => [e.message]
  | .store e => e.message :: e.causes
  | .scheduler e => [e.message]
  | _ => []

end ServiceError

end SignedRecords
