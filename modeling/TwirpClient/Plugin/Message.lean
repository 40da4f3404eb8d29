import TwirpClient.Plugin.Basic
import TwirpClient.Schema.Message

/-!
# Driving the plugin through bytes

The compiler sends the request as bytes and reads the response as bytes. Bytes that are no request are
answered too, by a response that holds nothing but the error.
-/

namespace TwirpClient.Plugin

open Wire Client

/-- The request that a record describes. -/
def Request.ofRecord (record : Record) : Request where
  requested := record.texts 1
  parameter := record.text? 2
  files := (record.messages 15).map Schema.File.ofRecord

/-- The record of a request. -/
def Request.toRecord (request : Request) : Record :=
  Record.ofTexts 1 request.requested ++ Record.ofText? 2 request.parameter ++
    Record.ofMessages 15 (request.files.map Schema.File.toRecord)

/-- The request of some bytes. -/
def Request.decode? (bytes : Bytes) : Option Request :=
  (Record.decode? .request bytes).map Request.ofRecord

/-- The bytes of a request. -/
def Request.encode (request : Request) : Bytes :=
  request.toRecord.encode

/-- The record of a generated file. -/
def fileRecord (file : ClientFile) : Record :=
  [(1, .text file.name), (15, .text file.content)]

/-- The generated file that a record describes. -/
def fileOfRecord (record : Record) : ClientFile where
  name := (record.text? 1).getD ""
  content := (record.text? 15).getD ""

/-- The record of a response. -/
def Response.toRecord (response : Response) : Record :=
  Record.ofText? 1 response.error ++ Record.ofInteger? 2 response.features ++
    Record.ofMessages 15 (response.files.map fileRecord)

/-- The response that a record describes. -/
def Response.ofRecord (record : Record) : Response where
  error := record.text? 1
  features := record.integer? 2
  files := (record.messages 15).map fileOfRecord

/-- The bytes of a response. -/
def Response.encode (response : Response) : Bytes :=
  response.toRecord.encode

/-- The response of some bytes. -/
def Response.decode? (bytes : Bytes) : Option Response :=
  (Record.decode? .response bytes).map Response.ofRecord

/-- The response to bytes that are no request. Whoever sent them is most likely not the compiler. -/
def undecodableResponse : Response where
  error := some s!"{Fault.message .undecodable}; make sure this is run as a protoc plugin"

/-- The answer to the bytes of a request. -/
def respondBytes (bytes : Bytes) : Bytes :=
  match Request.decode? bytes with
  | some request => (respond request).encode
  | none => undecodableResponse.encode

end TwirpClient.Plugin
