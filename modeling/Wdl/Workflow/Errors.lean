/-!
# The errors of the workflows service
-/

namespace Wdl.Workflow

/-- An error of the service, with the code and the message that it answers. -/
structure WorkflowError where
  code : String
  message : String
  deriving DecidableEq, Repr

namespace WorkflowError

def internalError (message : String) : WorkflowError := ⟨"internal_error", message⟩

def invalidRequest (message : String) : WorkflowError := ⟨"invalid_request", message⟩

def requestTooLarge (message : String) : WorkflowError := ⟨"request_too_large", message⟩

def payloadMissing (message : String) : WorkflowError := ⟨"workflow_payload_missing", message⟩

def notFound (message : String) : WorkflowError := ⟨"workflow_instance_not_found", message⟩

def invalidState (message : String) : WorkflowError := ⟨"workflow_invalid_state", message⟩

def conflict (message : String) : WorkflowError := ⟨"workflow_conflict", message⟩

def stepMismatch (message : String) : WorkflowError := ⟨"workflow_step_mismatch", message⟩

/-- A command that failed, or whose reply was lost. -/
def redis : WorkflowError := ⟨"redis_error", "Redis command failed"⟩

end WorkflowError

end Wdl.Workflow
