import TwirpClient.Plugin.Basic
import TwirpClient.Proofs.Collecting
import TwirpClient.Proofs.Layout

/-!
# Sets of files

The clients of several schema files. No file has any part in the client of another: the set is generated if
each of its files is, and then it has their clients in the order of the files; otherwise it has the fault of
the first file that fails. The file of the Timestamp message is as good as absent.

`Generator.generate_eq` tells that file from the others, which have one client each, and
`Generator.generateAll_eq_mapM` does so for a list. What is said here of a set follows from the second by the
laws of `List.mapM`.
-/

namespace TwirpClient.Client.Generator

open Code

variable (generator : Generator)

/-- The client of a schema file that is not the Timestamp message's. -/
def client (file : Schema.File) : Except Fault ClientFile :=
  let outline : Outline := ⟨file.packageName, file.services.map (Service.ofSchema file.packageName)⟩
  (generator.template.expand (Blueprint.draw file outline generator.version)).map fun module =>
    ⟨Naming.outputName file.path, module.layout⟩

/-- The file of the Timestamp message gives no client, and any other file one or a fault. -/
theorem generate_eq (file : Schema.File) :
    generator.generate file =
      if file.path = Schema.timestampPath then .ok [] else (generator.client file).map fun client => [client] := by
  rw [generate, Outline.ofFile?]
  by_cases hpath : file.path = Schema.timestampPath
  · rw [if_pos hpath, if_pos hpath]
  · rw [if_neg hpath, if_neg hpath, client]
    simp only [Module.print_eq_layout]
    cases generator.template.expand _ with
    | error fault => rfl
    | ok module => rfl

theorem generateAll_eq_map (files : List Schema.File) :
    generator.generateAll files = (files.mapM generator.generate).map List.flatten := by
  rw [generateAll]
  cases files.mapM generator.generate with
  | error fault => rfl
  | ok parts => rfl

/-- The files of a set that have a client are generated one by one, and the others are passed over. -/
theorem generateAll_eq_mapM (files : List Schema.File) :
    generator.generateAll files =
      (files.filter (·.path ≠ Schema.timestampPath)).mapM generator.client := by
  induction files with
  | nil => rfl
  | cons file files ih =>
    rw [generateAll_eq_map] at ih
    rw [generateAll_eq_map, mapM_cons_eq, generate_eq]
    by_cases hpath : file.path = Schema.timestampPath
    · rw [if_pos hpath, List.filter_cons_of_neg (by simpa using hpath), ← ih]
      cases files.mapM generator.generate with
      | error fault => rfl
      | ok parts => rfl
    · rw [if_neg hpath, List.filter_cons_of_pos (by simpa using hpath), mapM_cons_eq, ← ih]
      cases generator.client file with
      | error fault => rfl
      | ok client =>
        cases files.mapM generator.generate with
        | error fault => rfl
        | ok parts => rfl

/-- A set fails with the fault of its first file that fails alone. -/
theorem generateAll_eq_error_iff {files : List Schema.File} {fault : Fault} :
    generator.generateAll files = .error fault ↔ IsFirstFault generator.generate files fault := by
  rw [generateAll_eq_map, map_eq_error_iff, mapM_eq_error_iff]

theorem generateAll_eq_ok_iff {files : List Schema.File} {clients : List ClientFile} :
    generator.generateAll files = .ok clients ↔
      ∃ parts : List (List ClientFile),
        files.map generator.generate = parts.map .ok ∧ parts.flatten = clients := by
  rw [generateAll_eq_map, map_eq_ok_iff]
  simp only [mapM_eq_ok_iff]

/-- A set may be cut anywhere, and its parts generated one after the other. -/
theorem generateAll_append (files files' : List Schema.File) :
    generator.generateAll (files ++ files') =
      (generator.generateAll files).bind fun clients =>
        (generator.generateAll files').map (clients ++ ·) := by
  rw [generateAll_eq_mapM, generateAll_eq_mapM, generateAll_eq_mapM, List.filter_append, List.mapM_append]
  rfl

theorem generate_eq_ok_singleton_iff {file : Schema.File} (h : file.path ≠ Schema.timestampPath)
    {client : ClientFile} : generator.generate file = .ok [client] ↔ generator.client file = .ok client := by
  rw [generate_eq, if_neg h, map_eq_ok_iff]
  simp only [List.cons.injEq, and_true, exists_eq_right]

/-- The two ways of saying that files have these clients, one by one. -/
theorem map_generate_eq_iff {files : List Schema.File} {clients : List ClientFile}
    (h : ∀ file ∈ files, file.path ≠ Schema.timestampPath) :
    files.map generator.generate = clients.map (fun client => .ok [client]) ↔
      files.map generator.client = clients.map .ok := by
  induction files generalizing clients with
  | nil =>
    cases clients with
    | nil => exact ⟨fun _ => rfl, fun _ => rfl⟩
    | cons client clients => exact ⟨nofun, nofun⟩
  | cons file files ih =>
    cases clients with
    | nil => exact ⟨nofun, nofun⟩
    | cons client clients =>
      have hfile : generator.generate file = .ok [client] ↔ generator.client file = .ok client :=
        generator.generate_eq_ok_singleton_iff (h file List.mem_cons_self)
      have hfiles : ∀ file ∈ files, file.path ≠ Schema.timestampPath :=
        fun file hmem => h file (List.mem_cons_of_mem _ hmem)
      simp only [List.map_cons, List.cons.injEq, hfile, ih hfiles]

end TwirpClient.Client.Generator

namespace TwirpClient.Plugin

open Client

/-- A set of two parts is generated if both are, and has the clients of both, those of the first part first;
otherwise it has the fault of the first part that fails. So a set fails if one of its files does, with the
fault of the first that does. If it is generated, its clients are in their places what its files give one by
one. Only the file of the Timestamp message has none, and sets that differ in nothing but such files come to
the same. -/
theorem generateSet_append (version : String) (library : Library) :
    (∀ files files', generateSet (files ++ files') ⟨version, library⟩ =
      match generateSet files ⟨version, library⟩, generateSet files' ⟨version, library⟩ with
      | .error fault, _ => .error fault
      | .ok _, .error fault => .error fault
      | .ok clients, .ok clients' => .ok (clients ++ clients')) ∧
    (∀ files fault, generateSet files ⟨version, library⟩ = .error fault ↔
      IsFirstFault (Generator.mk version library {}).generate files fault) ∧
    (∀ files clients, generateSet files ⟨version, library⟩ = .ok clients ↔
      (files.filter (·.path ≠ Schema.timestampPath)).map (Generator.mk version library {}).generate =
        clients.map fun client => .ok [client]) ∧
    ∀ files, generateSet files ⟨version, library⟩ =
      generateSet (files.filter (·.path ≠ Schema.timestampPath)) ⟨version, library⟩ := by
  refine ⟨?append, ?fails, ?succeeds, ?skips⟩
  case append =>
    intro files files'
    rw [generateSet, Generator.generateAll_append]
    change Except.bind (generateSet files _) (fun clients => (generateSet files' _).map (clients ++ ·)) = _
    cases generateSet files ⟨version, library⟩ with
    | error fault => rfl
    | ok clients =>
      cases generateSet files' ⟨version, library⟩ with
      | error fault => rfl
      | ok clients' => rfl
  case fails =>
    intro files fault
    exact Generator.generateAll_eq_error_iff _
  case succeeds =>
    intro files clients
    have hnot : ∀ file ∈ files.filter (·.path ≠ Schema.timestampPath), file.path ≠ Schema.timestampPath := by
      intro file hfile
      simpa using (List.mem_filter.mp hfile).2
    rw [generateSet, Generator.generateAll_eq_mapM, mapM_eq_ok_iff]
    exact (Generator.map_generate_eq_iff _ hnot).symm
  case skips =>
    intro files
    rw [generateSet, generateSet, Generator.generateAll_eq_mapM, Generator.generateAll_eq_mapM, List.filter_filter]
    simp only [Bool.and_self]

/-- The file of the Timestamp message would fail if it were looked at. The file behind it has nothing set, not
even a name. -/
theorem generateSet_append_timestamp :
    let stamp : Schema.File := { name := some Schema.timestampPath, services := [{ methods := [{}] }] }
    let empty : Schema.File := {}
    let broken : Schema.File := { name := some "a.proto", services := [{}, { name := some "S", methods := [{}] }] }
    generateSet [stamp, empty, broken, broken] ⟨"v6", .pbjs⟩ =
        .error (.expansion "a.proto" "service S has a method without a name") ∧
      generateSet [stamp, empty, stamp] ⟨"v6", .pbjs⟩ = generateSet [empty] ⟨"v6", .pbjs⟩ ∧
      ∃ client, generateSet [empty, stamp, empty] ⟨"v6", .pbjs⟩ = .ok [client, client] := by
  intro stamp empty broken
  have hstamp : (Generator.mk "v6" .pbjs {}).generate stamp = .ok [] := rfl
  obtain ⟨client, hempty⟩ : ∃ client, (Generator.mk "v6" .pbjs {}).generate empty = .ok [client] :=
    ⟨_, (Generator.generate_eq _ empty).trans rfl⟩
  have hbroken : (Generator.mk "v6" .pbjs {}).generate broken =
      .error (.expansion "a.proto" "service S has a method without a name") := by rfl
  obtain ⟨-, hfails, hsucceeds, hskips⟩ := generateSet_append "v6" .pbjs
  refine ⟨?_, ?_, client, ?_⟩
  · refine (hfails _ _).mpr ⟨[stamp, empty], broken, [broken], rfl, ?_, hbroken⟩
    intro earlier hearlier
    rcases List.mem_cons.mp hearlier with rfl | hearlier
    · exact ⟨_, hstamp⟩
    · obtain rfl := List.mem_singleton.mp hearlier
      exact ⟨_, hempty⟩
  · exact hskips [stamp, empty, stamp]
  · refine (hsucceeds _ _).mpr ?_
    change [_, _] = [_, _]
    rw [hempty]

end TwirpClient.Plugin
