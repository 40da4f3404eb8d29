import TwirpClient.Proofs.BaseNames
import TwirpClient.Proofs.FileSets
import TwirpClient.Proofs.Following

/-!
# Names of generated files

The file of a client is named after its schema file, by the base name and a fixed ending. Such a name has no
slash in it and leads to no other directory, whatever the schema file is called. Its directories and its endings
have no say in it, and of the base name nothing is lost: it is also that of the generated file
(`Naming.baseName_exact`).
-/

namespace TwirpClient

/-! ## The rule of naming -/

namespace Naming

variable {path path' : String}

/-- Neither the base name nor the ending has a slash in it, so no directory can be named by a schema file. -/
theorem slash_notMem_outputName (path : String) : '/' ∉ (outputName path).toList := by
  rw [outputName, String.toList_append, List.mem_append, not_or]
  exact ⟨slash_notMem_baseName path, by decide⟩

/-- The ending keeps a name from being empty, a dot or two dots, whatever the base name is. -/
theorem outputName_leadsDown (path : String) : Place.LeadsDown (outputName path) := by
  have hlast : (outputName path).toList.getLast? = some 's' := by simp [outputName, outputEnding]
  refine ⟨?_, ?_, ?_⟩ <;>
  · intro heq
    rw [heq] at hlast
    simp at hlast

theorem baseName_outputName (path : String) : baseName (outputName path) = baseName path := by
  have hself := hasParts_self (slash_notMem_baseName path) (dot_notMem_baseName path)
  have hending : '/' ∉ "twirp.ts".toList := by decide
  have hname : outputName path = baseName path ++ "." ++ "twirp.ts" := by
    rw [outputName, String.append_assoc]
    rfl
  rw [hname, baseName_withEnding _ hending, hself.baseName_eq]

/-- The ending is the same for all, so names are told apart by their base names. -/
theorem outputName_inj : outputName path = outputName path' ↔ baseName path = baseName path' :=
  String.append_left_inj _

theorem nodup_outputName_iff {paths : List String} :
    (paths.map outputName).Nodup ↔ (paths.map baseName).Nodup := by
  simp only [List.Nodup, List.pairwise_map, ne_eq, outputName_inj]

end Naming

/-! ## The names of clients -/

namespace Client.Generator

variable {generator : Generator}

theorem name_of_client {file : Schema.File} {client : ClientFile} (h : generator.client file = .ok client) :
    client.name = Naming.outputName file.path := by
  obtain ⟨module, -, rfl⟩ := map_eq_ok_iff.mp h
  rfl

/-- All that is generated from a schema file is named after it. There is one client at most. -/
theorem name_of_generate {file : Schema.File} {clients : List ClientFile}
    (h : generator.generate file = .ok clients) {client : ClientFile} (hclient : client ∈ clients) :
    client.name = Naming.outputName file.path := by
  rw [generate_eq] at h
  split at h
  · cases h
    cases hclient
  · obtain ⟨only, honly, rfl⟩ := map_eq_ok_iff.mp h
    rw [List.mem_singleton.mp hclient]
    exact name_of_client honly

/-- The clients of a set are named after its files, less that of the Timestamp message. -/
theorem names_of_generateAll {files : List Schema.File} {clients : List ClientFile}
    (h : generator.generateAll files = .ok clients) :
    clients.map ClientFile.name =
      ((files.map Schema.File.path).filter (· ≠ Schema.timestampPath)).map Naming.outputName := by
  rw [generateAll_eq_mapM, mapM_eq_ok_iff] at h
  rw [List.filter_map, List.map_map]
  exact map_eq_of_outcomes h fun file client hclient => name_of_client hclient

end Client.Generator

/-! ## The rule as a whole -/

namespace Naming

open Client (Blueprint ClientFile Generator Outline)

/-- The base name is the one text without slash and dot that stands in the path between directories, if any,
that end in a slash, and endings, if any, that begin with a dot and hold no slash. The generated file is named
by it and a fixed ending. So its name holds no slash and is one step down from every directory, it has the same
base name again, and it is the same for all paths that differ in directories or in endings. Every client is
named in this way, and its blueprint has the base name for the module of its messages. -/
theorem baseName_exact (path : String) :
    (∀ base, baseName path = base ↔ ∃ before behind, HasParts path before base behind) ∧
    outputName path = baseName path ++ ".twirp.ts" ∧
    '/' ∉ (outputName path).toList ∧ outputName path ≠ "" ∧ outputName path ≠ "." ∧ outputName path ≠ ".." ∧
    (∀ here directory, Place.ofPath here (Path.join directory (outputName path)) =
      outputName path :: Place.ofPath here directory) ∧
    baseName (outputName path) = baseName path ∧
    (∀ directories, outputName (directories ++ "/" ++ path) = outputName path) ∧
    (∀ ending : String, '/' ∉ ending.toList → outputName (path ++ "." ++ ending) = outputName path) ∧
    ∀ (file : Schema.File), file.path = path →
      (∀ (outline : Outline) (version : String),
        (Blueprint.draw file outline version).moduleName = baseName path) ∧
      ∀ (generator : Generator) (clients : List ClientFile), generator.generate file = .ok clients →
        ∀ client ∈ clients, client.name = outputName path := by
  have hslash := slash_notMem_outputName path
  have hdown := outputName_leadsDown path
  refine ⟨fun base => baseName_eq_iff, rfl, hslash, hdown.1, hdown.2.1, hdown.2.2,
    Place.ofPath_join hslash hdown, baseName_outputName path, ?directories, ?endings, ?clients⟩
  case directories =>
    intro directories
    exact outputName_inj.mpr (baseName_inDirectory directories path)
  case endings =>
    intro ending hending
    exact outputName_inj.mpr (baseName_withEnding path hending)
  case clients =>
    rintro file rfl
    exact ⟨fun _ _ => rfl, fun _ _ hclients _ hclient => Client.Generator.name_of_generate hclients hclient⟩

/-- A way up, a dot in the name of a directory, a slash too many and more than one ending. -/
theorem baseName_exact_hostile_path :
    let path := "../v1.2//users.v3.proto"
    let file : Schema.File := { name := some path, services := [{ name := some "Users" }] }
    baseName path = "users" ∧ outputName (path ++ "." ++ "bak.") = "users.twirp.ts" ∧
      (Blueprint.draw file ⟨"", []⟩ "v6").moduleName = "users" ∧
      ∃ client, (Generator.mk "v6" .pbjs {}).generate file = .ok [client] ∧ client.name = "users.twirp.ts" := by
  intro path file
  obtain ⟨hbase, hname, -, -, -, -, -, -, -, hendings, hfile⟩ := baseName_exact path
  obtain ⟨hmodule, hclients⟩ := hfile file rfl
  have husers : baseName path = "users" :=
    (hbase "users").mpr ⟨"../v1.2//", ".v3.proto", rfl, .inr rfl, by decide, by decide, by decide, .inr rfl⟩
  rw [husers] at hname
  obtain ⟨client, hclient⟩ : ∃ client, (Generator.mk "v6" .pbjs {}).generate file = .ok [client] := by
    rw [Client.Generator.generate_eq, if_neg (by decide)]
    exact ⟨_, rfl⟩
  refine ⟨husers, (hendings "bak." (by decide)).trans hname, (hmodule _ _).trans husers, client, hclient, ?_⟩
  exact (hclients _ _ hclient client (List.mem_singleton_self _)).trans hname

example : ∀ path ∈ ["", "api/", "api/.proto", "/"], outputName path = ".twirp.ts" := by decide

end Naming

end TwirpClient
