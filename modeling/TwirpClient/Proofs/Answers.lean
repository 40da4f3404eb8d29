import TwirpClient.Plugin.Message
import TwirpClient.Proofs.Records

/-!
# Answers

What goes into the plugin and comes out of it as bytes is what goes into `respond` and comes out of it. A
request and a response are read back from their bytes (`Request.decode?_encode`, `Response.decode?_encode`),
since their records fit the messages and describe them again. So a plugin that is driven through bytes answers
what the library answers, and whoever asks can read the answer, also when the bytes were no request.
-/

namespace TwirpClient

open Wire

/-! ## Schemas as records -/

theorem getLast?_toList {α : Type} (value : Option α) : value.toList.getLast? = value := by
  cases value with
  | none => rfl
  | some a => rfl

namespace Schema

/-- A method is told from its record, whether its fields are set or not. -/
theorem Method.ofRecord_toRecord (method : Method) : Method.ofRecord method.toRecord = method := by
  simp [Method.ofRecord, Method.toRecord, Record.text?, getLast?_toList]

theorem Service.ofRecord_toRecord (service : Service) : Service.ofRecord service.toRecord = service := by
  simp [Service.ofRecord, Service.toRecord, Record.text?, getLast?_toList, Function.comp_def,
    Method.ofRecord_toRecord]

/-- A schema file is told from its record, with its services in their order. -/
theorem File.ofRecord_toRecord (file : File) : File.ofRecord file.toRecord = file := by
  simp [File.ofRecord, File.toRecord, Record.text?, getLast?_toList, Function.comp_def,
    Service.ofRecord_toRecord]

variable {nested : MessageKind → Record → Prop}

/-- The record of a method has only fields that a method may have. It holds no message, so nothing is asked of nested
records. -/
theorem Method.fits (method : Method) : method.toRecord.FitsUsing nested .method :=
  ((Record.fitsUsing_ofText? rfl _).append (Record.fitsUsing_ofText? rfl _)).append
    (Record.fitsUsing_ofText? rfl _)

/-- The record of a service fits one level above those of its methods. -/
theorem Service.fits (service : Service) : service.toRecord.FitsUsing (Record.FitsUsing nested) .service := by
  refine (Record.fitsUsing_ofText? rfl _).append (Record.fitsUsing_ofMessages rfl ?_)
  intro record hrecord
  obtain ⟨method, -, rfl⟩ := List.mem_map.mp hrecord
  exact method.fits

/-- The record of a schema file fits two levels above those of the methods in it. -/
theorem File.fits (file : File) :
    file.toRecord.FitsUsing (Record.FitsUsing (Record.FitsUsing nested)) .file := by
  refine .append (.append ?names ?services) (Record.fitsUsing_ofText? rfl _)
  case names =>
    refine .append (.append ?_ ?_) (Record.fitsUsing_ofTexts rfl _)
    · exact Record.fitsUsing_ofText? rfl _
    · exact Record.fitsUsing_ofText? rfl _
  case services =>
    refine Record.fitsUsing_ofMessages rfl fun record hrecord => ?_
    obtain ⟨service, -, rfl⟩ := List.mem_map.mp hrecord
    exact service.fits

end Schema

namespace Plugin

/-! ## Requests -/

/-- A request is told from its record. -/
theorem Request.ofRecord_toRecord (request : Request) : Request.ofRecord request.toRecord = request := by
  simp [Request.ofRecord, Request.toRecord, Record.text?, getLast?_toList, Function.comp_def,
    Schema.File.ofRecord_toRecord]

/-- A request is four levels of messages deep. -/
theorem Request.fits (request : Request) : request.toRecord.Fits maxLevels .request := by
  refine .append (.append (Record.fitsUsing_ofTexts rfl _) (Record.fitsUsing_ofText? rfl _)) ?_
  refine Record.fitsUsing_ofMessages rfl fun record hrecord => ?_
  obtain ⟨file, -, rfl⟩ := List.mem_map.mp hrecord
  exact file.fits

/-- A request is read back from its bytes, if their number can be written in a length field. -/
theorem Request.decode?_encode {request : Request} (hsize : request.encode.length < UInt64.size) :
    Request.decode? request.encode = some request := by
  have hread : Record.decode? .request request.encode = some request.toRecord :=
    Record.decodeWithin_encode request.fits hsize
  rw [Request.decode?, hread, Option.map_some, Request.ofRecord_toRecord]

/-! ## Responses -/

theorem fileOfRecord_fileRecord (file : Client.ClientFile) : fileOfRecord (fileRecord file) = file := by
  simp [fileOfRecord, fileRecord, Record.text?, Record.texts]

theorem Response.ofRecord_toRecord (response : Response) : Response.ofRecord response.toRecord = response := by
  simp [Response.ofRecord, Response.toRecord, Record.text?, Record.integer?, getLast?_toList,
    Function.comp_def, fileOfRecord_fileRecord]

theorem fileRecord_fits {nested : MessageKind → Record → Prop} (file : Client.ClientFile) :
    (fileRecord file).FitsUsing nested .responseFile :=
  (Record.fitsUsing_ofTexts rfl [file.name]).append (Record.fitsUsing_ofTexts rfl [file.content])

/-- The record of a response fits, if its set of features is a word of the wire format. -/
theorem Response.fits {response : Response} (hfeatures : ∀ n ∈ response.features, n < UInt64.size) :
    response.toRecord.Fits maxLevels .response := by
  refine .append (.append (Record.fitsUsing_ofText? rfl _) (Record.fitsUsing_ofInteger? rfl hfeatures)) ?_
  refine Record.fitsUsing_ofMessages rfl fun record hrecord => ?_
  obtain ⟨file, -, rfl⟩ := List.mem_map.mp hrecord
  exact fileRecord_fits file

/-- A response is read back from its bytes, if its record fits and their number can be written in a length field. -/
theorem Response.decode?_encode {response : Response} (hfeatures : ∀ n ∈ response.features, n < UInt64.size)
    (hsize : response.encode.length < UInt64.size) : Response.decode? response.encode = some response := by
  have hread : Record.decode? .response response.encode = some response.toRecord :=
    Record.decodeWithin_encode (Response.fits hfeatures) hsize
  rw [Response.decode?, hread, Option.map_some, Response.ofRecord_toRecord]

/-! ## From bytes to bytes -/

theorem respondBytes_of_decode? {bytes : Bytes} {request : Request} (h : Request.decode? bytes = some request) :
    respondBytes bytes = (respond request).encode := by
  rw [respondBytes, h]

/-- The bytes of a request are answered with the bytes of its response. So are bytes with more in them than a
client depends on, the types of the schema files for example, if they tell of the same request. -/
theorem respondBytes_encode (request : Request) :
    (request.encode.length < UInt64.size → respondBytes request.encode = (respond request).encode) ∧
    ∀ record : Record, record.Fits maxLevels .request → Request.ofRecord record = request →
      record.encode.length < UInt64.size → respondBytes record.encode = (respond request).encode := by
  constructor
  · intro hsize
    exact respondBytes_of_decode? (Request.decode?_encode hsize)
  · intro record hfits hrequest hsize
    have hread : Record.decode? .request record.encode = some record := Record.decodeWithin_encode hfits hsize
    refine respondBytes_of_decode? ?_
    rw [Request.decode?, hread, Option.map_some, hrequest]

/-- A name that is set and empty, one that is not set, and a text whose length takes two bytes. The record
beside it tells of a message type as well. -/
theorem respondBytes_encode_unset_name :
    let service : Schema.Service := { name := some "Cärt", methods := [{ name := some "Put" }, {}] }
    let request : Request :=
      { requested := ["a.proto", ""]
        parameter := some (String.ofList (List.replicate 200 ','))
        files := [{ name := some "a.proto", package := some "", services := [service] }, {}] }
    let record : Record := (15, .message [(4, .message [(1, .text "Item")])]) :: ({} : Request).toRecord
    respondBytes request.encode = (respond request).encode ∧
    respondBytes record.encode = (respond { files := [{}] }).encode := by
  intro service request record
  have hsize : request.encode.length < UInt64.size := by decide +kernel
  have hfits : record.Fits maxLevels .request := by
    intro entry hentry
    obtain rfl := List.mem_singleton.mp hentry
    refine ⟨_, rfl, fun entry hentry => ?_⟩
    obtain rfl := List.mem_singleton.mp hentry
    refine ⟨_, rfl, fun entry hentry => ?_⟩
    obtain rfl := List.mem_singleton.mp hentry
    exact ⟨_, rfl, trivial⟩
  have hrecord : record.encode.length < UInt64.size := by decide +kernel
  exact ⟨(respondBytes_encode request).1 hsize,
    (respondBytes_encode { files := [{}] }).2 record hfits rfl hrecord⟩

/-- The response that is due: to bytes that are no request, to a request whose generation fails, and to one
whose files are generated. -/
def Response.due : Option (Except Fault (List Client.ClientFile)) → Response
  | none =>
    { error := some "failed to decode protobuf input; make sure this is run as a protoc plugin"
      features := none, files := [] }
  | some (.error fault) => { error := some fault.message, features := some 1, files := [] }
  | some (.ok files) => { error := none, features := some 1, files := files }

/-- A response that is due has never both an error and files. -/
theorem Response.due_honest (outcome : Option (Except Fault (List Client.ClientFile))) :
    (due outcome).error = none ∨ (due outcome).files = [] := by
  cases outcome with
  | none => exact .inr rfl
  | some generated =>
    cases generated with
    | error fault => exact .inr rfl
    | ok files => exact .inl rfl

theorem Response.due_features (outcome : Option (Except Fault (List Client.ClientFile))) :
    ∀ n ∈ (due outcome).features, n < UInt64.size := by
  have hone : ∀ n ∈ some 1, n < UInt64.size := by
    intro n hn
    obtain rfl := Option.mem_some_iff.mp hn
    decide
  cases outcome with
  | none => exact nofun
  | some generated =>
    cases generated with
    | error fault => exact hone
    | ok files => exact hone

/-- What the plugin says is decided by what its input is read as, and is then written out. -/
theorem respondBytes_eq_due (bytes : Bytes) :
    respondBytes bytes = (Response.due ((Request.decode? bytes).map generateRequest)).encode := by
  cases hread : Request.decode? bytes with
  | none =>
    rw [respondBytes, hread]
    rfl
  | some request =>
    rw [respondBytes_of_decode? hread, respond, Option.map_some]
    cases generateRequest request with
    | error fault => rfl
    | ok files => rfl

/-- Whatever bytes the plugin is given, its answer can be read, and it is the response that is due: the error
of decoding, the error of generation, or the generated files as they are. Never are there both an error and
files. -/
theorem respondBytes_readable (bytes : Bytes) (hsize : (respondBytes bytes).length < UInt64.size) :
    Response.decode? (respondBytes bytes) =
      some (Response.due ((Request.decode? bytes).map generateRequest)) ∧
    ∀ response, Response.decode? (respondBytes bytes) = some response →
      response.error = none ∨ response.files = [] := by
  have hdecode : Response.decode? (respondBytes bytes) =
      some (Response.due ((Request.decode? bytes).map generateRequest)) := by
    rw [respondBytes_eq_due] at hsize ⊢
    exact Response.decode?_encode (Response.due_features _) hsize
  refine ⟨hdecode, fun response hresponse => ?_⟩
  rw [hdecode] at hresponse
  cases hresponse
  exact Response.due_honest _

/-- The bytes are a request that asks for an option there is not. -/
theorem respondBytes_readable_unknown_option :
    let bytes : Bytes := [0x12, 9, 102, 108, 97, 118, 111, 117, 114, 61, 120]
    Response.decode? (respondBytes bytes) = some
      { error := some "invalid plugin parameter: unknown option `flavour`", features := some 1, files := [] } := by
  intro bytes
  have hsize : (respondBytes bytes).length < UInt64.size := by decide +kernel
  exact (respondBytes_readable bytes hsize).1.trans (by decide +kernel)

end Plugin

end TwirpClient
