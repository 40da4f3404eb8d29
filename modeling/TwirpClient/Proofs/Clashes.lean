import TwirpClient.Proofs.Requests
import TwirpClient.Proofs.Storing

/-!
# Clients of one name

A client is named after the base name of its schema file, so the directories and the further endings of a path
do not tell two clients apart. The names of an answer are distinct exactly if the base names are
(`nodup_names_iff`). Then every client of a run that works alone is there in the end, and otherwise a later
one takes the place of an earlier one.
-/

namespace TwirpClient

/-! ## Answers -/

namespace Plugin

open Client

variable {files : List Schema.File} {options : Options} {clients : List ClientFile} {request : Request}

/-- The base names of the files at some paths that a client is made for. -/
def clientBases (paths : List String) : List String :=
  (paths.filter (· ≠ Schema.timestampPath)).map Naming.baseName

/-- The paths that a request wants clients for: those that it asks for, or those of all its files. -/
def Request.paths (request : Request) : List String :=
  if request.requested.isEmpty then request.files.map Schema.File.path else request.requested

theorem nodup_names_of_generateSet (h : generateSet files options = .ok clients) :
    (clients.map ClientFile.name).Nodup ↔ (clientBases (files.map Schema.File.path)).Nodup := by
  rw [Generator.names_of_generateAll h, Naming.nodup_outputName_iff, clientBases]

theorem path_of_findFile {name : String} {file : Schema.File} (h : findFile files name = .ok file) :
    file.path = name := by
  rw [findFile] at h
  split at h
  next found hfind =>
    cases h
    simpa using List.find?_some hfind
  next => cases h

theorem paths_of_selected (h : request.selected = .ok files) : files.map Schema.File.path = request.paths := by
  rw [Request.paths]
  by_cases hrequested : request.requested = []
  · rw [Request.selected, if_pos (List.isEmpty_iff.mpr hrequested), Except.ok.injEq] at h
    rw [if_pos (List.isEmpty_iff.mpr hrequested), h]
  · rw [selected_of_ne_nil hrequested, mapM_eq_ok_iff] at h
    rw [if_neg (mt List.isEmpty_iff.mp hrequested), ← List.map_id request.requested]
    exact map_eq_of_outcomes h fun name file hfile => path_of_findFile hfile

theorem nodup_names_of_generateRequest (h : generateRequest request = .ok clients) :
    (clients.map ClientFile.name).Nodup ↔ (clientBases request.paths).Nodup := by
  cases hoptions : optionsOf request.parameterText with
  | error fault =>
    rw [generateRequest, hoptions] at h
    cases h
  | ok options =>
    rw [generateRequest_of_selected hoptions, bind_eq_ok_iff] at h
    obtain ⟨files, hselected, hgenerate⟩ := h
    rw [nodup_names_of_generateSet hgenerate, paths_of_selected hselected]

end Plugin

/-! ## Stored clients -/

namespace Command

open Client
open Wire (Bytes)

/-- A run that succeeds keeps each of its clients if no two of them have one name. -/
theorem World.run_keeps {world : World} {input : String} {rest : List String} {clients : List ClientFile}
    (hshort : input ≠ "-h") (hlong : input ≠ "--help") (hnamed : ∀ client ∈ clients, IsNamed client)
    (hgenerated : world.generated input (rest[1]?.getD "") = .ok clients)
    (hsucceeds : (world.run (input :: rest)).1 = 0) (hnodup : (clients.map ClientFile.name).Nodup) :
    ∀ client ∈ clients, (world.run (input :: rest)).2.tree.node?
        (client.name :: Place.ofPath world.here (rest[0]?.getD ".")) =
      some (.file (Text.Utf8.encode client.content)) := by
  rcases World.run_of_generated hshort hlong hnamed hgenerated with
    ⟨tree, -, -, hrun⟩ | ⟨done, tree, -, -, after, hrun⟩
  · rw [hrun]
    exact fun client hclient => FileTree.node?_store_of_nodup hnodup hclient
  · rw [hrun] at hsucceeds
    cases hsucceeds

/-- The clients of a set or of an answer have names apart exactly if the base names of their schema files are
apart. A run that works alone and stores such a set loses none of them. -/
theorem nodup_names_iff :
    (∀ (files : List Schema.File) (options : Options) (clients : List ClientFile),
      Plugin.generateSet files options = .ok clients →
      ((clients.map ClientFile.name).Nodup ↔
        (Plugin.clientBases (files.map Schema.File.path)).Nodup)) ∧
    (∀ (request : Plugin.Request) (clients : List ClientFile),
      Plugin.generateRequest request = .ok clients →
      ((clients.map ClientFile.name).Nodup ↔ (Plugin.clientBases request.paths).Nodup)) ∧
    ∀ (world : World) (input : String) (rest : List String) (bytes : Bytes) (files : List Schema.File)
      (options : Options) (clients : List ClientFile),
      input ≠ "-h" → input ≠ "--help" → world.source input = some bytes →
      Schema.decodeSet? bytes = some files → Plugin.optionsOf (rest[1]?.getD "") = .ok options →
      Plugin.generateSet files options = .ok clients → (world.run (input :: rest)).1 = 0 →
      (Plugin.clientBases (files.map Schema.File.path)).Nodup →
      ∀ client ∈ clients, (world.run (input :: rest)).2.tree.node?
          (client.name :: Place.ofPath world.here (rest[0]?.getD ".")) =
        some (.file (Text.Utf8.encode client.content)) := by
  refine ⟨fun _ _ _ => Plugin.nodup_names_of_generateSet, fun _ _ => Plugin.nodup_names_of_generateRequest, ?_⟩
  intro world input rest bytes files options clients hshort hlong hsource hset hoptions hclients hsucceeds hbases
  exact World.run_keeps hshort hlong (isNamed_of_generateSet hclients)
    (generated_eq_ok_iff.mpr ⟨bytes, files, options, hsource, hset, hoptions, hclients⟩) hsucceeds
    ((Plugin.nodup_names_of_generateSet hclients).mpr hbases)

/-- The two files of the set are apart by what is before their first dots. The request has three files, of which
two differ in no more than their directories, and asks for the others. -/
theorem nodup_names_iff_two_files :
    let files : List Schema.File := [{ name := some "a/x.v1.proto" }, { name := some "a/y.v1.proto" }]
    let request : Plugin.Request :=
      { requested := ["a/x.proto", "a/y.proto"]
        files := [{ name := some "a/x.proto" }, { name := some "b/x.proto" }, { name := some "a/y.proto" }] }
    let bytes : Bytes := "\n\x0e\n\x0ca/x.v1.proto\n\x0e\n\x0ca/y.v1.proto".toUTF8.toList
    let world : World := { tree := FileTree.plant {} ["set"] bytes }
    (∃ clients, Plugin.generateSet files ⟨"", .pbjs⟩ = .ok clients ∧ (clients.map ClientFile.name).Nodup ∧
      ∀ client ∈ clients, (world.run ["set", "out"]).2.tree.node? [client.name, "out"] =
        some (.file (Text.Utf8.encode client.content))) ∧
    ∃ clients, Plugin.generateRequest request = .ok clients ∧ (clients.map ClientFile.name).Nodup := by
  intro files request bytes world
  obtain ⟨clients, hclients⟩ : ∃ clients, Plugin.generateSet files ⟨"", .pbjs⟩ = .ok clients :=
    isOk_iff.mp (by decide +kernel)
  obtain ⟨answer, hanswer⟩ : ∃ clients, Plugin.generateRequest request = .ok clients :=
    isOk_iff.mp (by decide +kernel)
  obtain ⟨hset, hrequest, hrun⟩ := nodup_names_iff
  have hbases : (Plugin.clientBases (files.map Schema.File.path)).Nodup := by decide +kernel
  refine ⟨⟨clients, hclients, (hset _ _ _ hclients).mpr hbases, ?_⟩, answer, hanswer,
    (hrequest _ _ hanswer).mpr (by decide +kernel)⟩
  exact hrun world "set" ["out"] bytes files ⟨"", .pbjs⟩ clients (by decide) (by decide) (by decide +kernel)
    (by decide +kernel) (by decide +kernel) hclients (by decide +kernel) hbases

/-- Two files of one base name in two directories. -/
theorem names_clash_directories :
    let files : List Schema.File := [{ name := some "a/x.proto" }, { name := some "b/x.proto" }]
    (files.map Schema.File.path).Nodup ∧ (∀ file ∈ files, file.path ≠ "") ∧
      ∃ clients, Plugin.generateSet files ⟨"v6", .pbjs⟩ = .ok clients ∧ ¬(clients.map ClientFile.name).Nodup := by
  intro files
  obtain ⟨clients, hclients⟩ : ∃ clients, Plugin.generateSet files ⟨"v6", .pbjs⟩ = .ok clients :=
    isOk_iff.mp (by decide +kernel)
  refine ⟨by decide, by decide, clients, hclients, ?_⟩
  rw [Generator.names_of_generateAll hclients]
  decide +kernel

end Command

end TwirpClient
