/-!
# Faults

What can stop the generation of a client, or of a whole request. A fault names its cause; the one line that
a user reads is `Fault.message`, and no other part of the library words a fault. A fault of the command line
is followed by what lies behind it, `Fault.cause?`.
-/

namespace TwirpClient

/-- Why no client, or no answer at all, is produced. -/
inductive Fault where
  /-- The services of the schema file do not fit the client template. -/
  | expansion (file reason : String)
  /-- The writer refused the text of a client. -/
  | printing
  /-- The plugin parameter is not a list of known options. -/
  | parameter (reason : String)
  /-- A file was asked for that the request does not describe. -/
  | missingFile (name : String)
  /-- The request is not an encoded message of its kind. -/
  | undecodable
  deriving DecidableEq, Repr

/-- The line a user reads. -/
def Fault.message : Fault → String
  | .expansion file reason => s!"cannot expand client template for {file}: {reason}"
  | .printing => "failed to print generated client"
  | .parameter reason => s!"invalid plugin parameter: {reason}"
  | .missingFile name => s!"file {name} requested but not present in the request"
  | .undecodable => "failed to decode protobuf input"

/-- What lies behind a fault, for one that passes on the refusal of another part. What lies behind an undecodable
request is not kept, as such a request is answered with the message alone. -/
def Fault.cause? : Fault → Option String
  | .printing => some "an error occurred when formatting an argument"
  | _ => none

end TwirpClient
