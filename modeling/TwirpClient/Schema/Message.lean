import TwirpClient.Schema.Basic
import TwirpClient.Wire.Record

/-!
# Schema files as messages

Which fields of the describing messages hold the names that a schema file consists of here. `ofRecord` reads
them, and reads an absent field as unset; `toRecord` writes them in the order of their numbers and leaves
out what is unset.
-/

namespace TwirpClient.Schema

open Wire

/-- The method that a record describes. -/
def Method.ofRecord (record : Record) : Method where
  name := record.text? 1
  inputType := record.text? 2
  outputType := record.text? 3

/-- The record of a method. -/
def Method.toRecord (method : Method) : Record :=
  Record.ofText? 1 method.name ++ Record.ofText? 2 method.inputType ++ Record.ofText? 3 method.outputType

/-- The service that a record describes. -/
def Service.ofRecord (record : Record) : Service where
  name := record.text? 1
  methods := (record.messages 2).map Method.ofRecord

/-- The record of a service. -/
def Service.toRecord (service : Service) : Record :=
  Record.ofText? 1 service.name ++ Record.ofMessages 2 (service.methods.map Method.toRecord)

/-- The schema file that a record describes. -/
def File.ofRecord (record : Record) : File where
  name := record.text? 1
  package := record.text? 2
  dependencies := record.texts 3
  services := (record.messages 6).map Service.ofRecord
  dialect := record.text? 12

/-- The record of a schema file. -/
def File.toRecord (file : File) : Record :=
  Record.ofText? 1 file.name ++ Record.ofText? 2 file.package ++ Record.ofTexts 3 file.dependencies ++
    Record.ofMessages 6 (file.services.map Service.toRecord) ++ Record.ofText? 12 file.dialect

/-- The files of a set that stands in one message. -/
def decodeSet? (bytes : Bytes) : Option (List File) :=
  (Record.decode? .fileSet bytes).map fun record => (record.messages 1).map File.ofRecord

end TwirpClient.Schema
