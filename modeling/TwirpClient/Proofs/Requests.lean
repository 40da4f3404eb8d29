import TwirpClient.Proofs.FileSets

/-!
# What a request is answered with

A request can fail in three ways, and they have an order: its parameter is refused, a name in it is that of
no file, a file cannot be generated. All names are looked up before any file is generated, so a file that
is not there is reported even if one that is there would have failed. `generateRequest_precedence` puts the
three in their order, and says which files are generated: for each name the first file that has it, and no
other file has a part in the answer.

Without names every file is generated, which is what a set of files is for. The same files come from their
own names if no two of them share one (`generateRequest_eq_generateSet`).
-/

namespace TwirpClient.Plugin

open Client

/-! ## Looking up files -/

section Lookup

variable {files : List Schema.File} {name : String}

/-- A name that no file has is reported as missing. -/
theorem findFile_missing (h : ∀ file ∈ files, file.path ≠ name) :
    findFile files name = .error (.missingFile name) := by
  have hnone : files.find? (·.path == name) = none :=
    List.find?_eq_none.mpr fun file hfile => by simpa using h file hfile
  rw [findFile, hnone]

theorem findFile_present (h : ∃ file ∈ files, file.path = name) : ∃ file, findFile files name = .ok file := by
  obtain ⟨file, hfile, hpath⟩ := h
  have hsome : (files.find? (·.path == name)).isSome :=
    List.find?_isSome.mpr ⟨file, hfile, beq_iff_eq.mpr hpath⟩
  obtain ⟨first, hfirst⟩ := Option.isSome_iff_exists.mp hsome
  exact ⟨first, by rw [findFile, hfirst]⟩

theorem toOption_findFile : (findFile files name).toOption = files.find? (·.path == name) := by
  rw [findFile]
  cases files.find? (·.path == name) with
  | none => rfl
  | some file => rfl

/-- A file is found by its own name if no other has it. -/
theorem findFile_of_nodup (hnodup : (files.map Schema.File.path).Nodup) {file : Schema.File}
    (hfile : file ∈ files) : findFile files file.path = .ok file := by
  obtain ⟨before, after, rfl⟩ := List.append_of_mem hfile
  rw [List.map_append, List.nodup_append] at hnodup
  have hbefore : ∀ other ∈ before, other.path ≠ file.path :=
    fun other hother => hnodup.2.2 _ (List.mem_map_of_mem hother) _ List.mem_cons_self
  have hfirst : (before ++ file :: after).find? (·.path == file.path) = some file := by
    rw [List.find?_eq_some_iff_append]
    exact ⟨BEq.refl _, before, after, rfl, fun other hother => by simpa using hbefore other hother⟩
  rw [findFile, hfirst]

end Lookup

/-! ## The files of a request -/

variable {request : Request}

/-- A request that names files has each name looked up among all its files. -/
theorem selected_of_ne_nil (h : request.requested ≠ []) :
    request.selected = request.requested.mapM (findFile request.files) := by
  rw [Request.selected, if_neg (by simpa using h)]

/-- If every name is that of a file, the files that are wanted are the first ones of these names. -/
theorem selected_of_described (hrequested : request.requested ≠ [])
    (h : ∀ name ∈ request.requested, ∃ file ∈ request.files, file.path = name) :
    ∃ chosen : List Schema.File, request.selected = .ok chosen ∧
      request.requested.map (fun name => request.files.find? (·.path == name)) = chosen.map some := by
  obtain ⟨chosen, hrun⟩ := exists_mapM_eq_ok_iff.mpr fun name hname => findFile_present (h name hname)
  have hfound := congrArg (List.map Except.toOption) (mapM_eq_ok_iff.mp hrun)
  rw [List.map_map, List.map_map] at hfound
  refine ⟨chosen, (selected_of_ne_nil hrequested).trans hrun, ?_⟩
  calc request.requested.map (fun name => request.files.find? (·.path == name))
      = request.requested.map (Except.toOption ∘ findFile request.files) :=
        List.map_congr_left fun name _ => toOption_findFile.symm
    _ = chosen.map some := hfound

/-- Once its options and its files are settled, a request is answered as a set of files is. Each of the two makes a
generator of its own, and the generators are the same. -/
theorem generateRequest_of_selected {options : Options} (hoptions : optionsOf request.parameterText = .ok options) :
    generateRequest request = request.selected.bind fun files => generateSet files options := by
  rw [generateRequest, hoptions]
  rfl

/-- Of the faults of a request with names, that of its parameter comes first, then that of the first name no
file has, and then that of the first file which cannot be generated. If there is none, the answer has
the clients of the files in the order of their names, again for a name that is there again. The file of a name
is the first that has it; requests that agree on their parameter, on the names and on the files of these
have the same answer. -/
theorem generateRequest_precedence (request : Request) (hrequested : request.requested ≠ []) :
    (∀ refusal, Options.parse request.parameterText = .error refusal →
      generateRequest request = .error (.parameter refusal.reason)) ∧
    (∀ options, Options.parse request.parameterText = .ok options →
      (∀ before name after, request.requested = before ++ name :: after →
        (∀ earlier ∈ before, ∃ file ∈ request.files, file.path = earlier) →
        (∀ file ∈ request.files, file.path ≠ name) →
        generateRequest request = .error (.missingFile name)) ∧
      ((∀ name ∈ request.requested, ∃ file ∈ request.files, file.path = name) →
        ∃ chosen : List Schema.File,
          request.requested.map (fun name => request.files.find? (·.path == name)) = chosen.map some ∧
          (∀ fault, generateRequest request = .error fault ↔
            IsFirstFault (Generator.mk options.version options.library {}).generate chosen fault) ∧
          ∀ clients, generateRequest request = .ok clients ↔
            ∃ parts : List (List ClientFile),
              chosen.map (Generator.mk options.version options.library {}).generate = parts.map .ok ∧
              parts.flatten = clients)) ∧
    ∀ request' : Request, request'.parameter = request.parameter → request'.requested = request.requested →
      (∀ name ∈ request.requested,
        request'.files.find? (·.path == name) = request.files.find? (·.path == name)) →
      generateRequest request' = generateRequest request := by
  refine ⟨?refused, ?accepted, ?same⟩
  case refused =>
    intro refusal hrefusal
    rw [generateRequest, optionsOf, hrefusal]
    rfl
  case accepted =>
    intro options hparse
    have hoptions : optionsOf request.parameterText = .ok options := by
      rw [optionsOf, hparse]
      rfl
    rw [generateRequest_of_selected hoptions]
    constructor
    · intro before name after hsplit hbefore hmissing
      have hselected : request.selected = .error (.missingFile name) := by
        rw [selected_of_ne_nil hrequested, mapM_eq_error_iff]
        exact ⟨before, name, after, hsplit, fun earlier hearlier => findFile_present (hbefore earlier hearlier),
          findFile_missing hmissing⟩
      rw [hselected]
      rfl
    · intro hdescribed
      obtain ⟨chosen, hselected, hchosen⟩ := selected_of_described hrequested hdescribed
      rw [hselected]
      exact ⟨chosen, hchosen, fun fault => Generator.generateAll_eq_error_iff _,
        fun clients => Generator.generateAll_eq_ok_iff _⟩
  case same =>
    intro request' hparameter hnames hfiles
    have hselected : request'.selected = request.selected := by
      rw [selected_of_ne_nil hrequested, selected_of_ne_nil (hnames ▸ hrequested), hnames]
      refine mapM_congr fun name hname => ?_
      rw [findFile, findFile, hfiles name hname]
    rw [generateRequest, generateRequest, Request.parameterText, Request.parameterText, hparameter, hselected]

/-- The file with a name cannot be generated, and the one without has the empty name. -/
theorem generateRequest_precedence_unset_name :
    let broken : Schema.File := { name := some "a.proto", services := [{ name := some "S", methods := [{}] }] }
    generateRequest { requested := ["a.proto", ""], files := [broken] } = .error (.missingFile "") ∧
      generateRequest { requested := ["a.proto", ""], files := [broken, {}] } =
        .error (.expansion "a.proto" "service S has a method without a name") ∧
      generateRequest { requested := ["", ""], files := [broken, {}, { broken with name := none }] } =
        generateRequest { requested := ["", ""], files := [{}] } := by
  intro broken
  have hparse : Options.parse "" = .ok {} := rfl
  refine ⟨?_, ?_, ?_⟩
  · refine ((generateRequest_precedence { requested := ["a.proto", ""], files := [broken] } (by decide)).2.1 {}
      hparse).1 ["a.proto"] "" [] rfl ?_ ?_
    · intro earlier hearlier
      obtain rfl := List.mem_singleton.mp hearlier
      exact ⟨broken, List.mem_cons_self, rfl⟩
    · decide
  · obtain ⟨chosen, hchosen, hfails, -⟩ := ((generateRequest_precedence
      { requested := ["a.proto", ""], files := [broken, {}] } (by decide)).2.1 {} hparse).2 (by decide)
    obtain rfl : [broken, {}] = chosen := List.map_injective_iff.mpr (fun _ _ heq => Option.some.inj heq) hchosen
    exact (hfails _).mpr ⟨[], broken, [{}], rfl, nofun, rfl⟩
  · exact (generateRequest_precedence { requested := ["", ""], files := [{}] } (by decide)).2.2 _ rfl rfl (by decide)

/-- A request that names no file is answered with the set of its files, and so is one that names all of them
in their order, if their names are distinct. -/
theorem generateRequest_eq_generateSet (parameter : String) (files : List Schema.File) :
    generateRequest { parameter := some parameter, files := files } =
      (optionsOf parameter).bind (generateSet files) ∧
    ((files.map Schema.File.path).Nodup →
      generateRequest
          { requested := files.map Schema.File.path, parameter := some parameter, files := files } =
        (optionsOf parameter).bind (generateSet files)) := by
  have hset : ∀ request : Request, request.selected = .ok files → request.parameter = some parameter →
      generateRequest request = (optionsOf parameter).bind (generateSet files) := by
    intro request hselected hparameter
    rw [generateRequest, hselected, Request.parameterText, hparameter]
    rfl
  refine ⟨hset _ rfl rfl, fun hnodup => hset _ ?_ rfl⟩
  cases files with
  | nil => rfl
  | cons file files =>
    rw [selected_of_ne_nil (List.cons_ne_nil _ _), mapM_eq_ok_iff, List.map_map]
    exact List.map_congr_left fun file hfile => findFile_of_nodup hnodup hfile

/-- One of the files has no client, and the next cannot be generated. -/
theorem generateRequest_eq_generateSet_fails :
    let stamp : Schema.File := { name := some Schema.timestampPath, services := [{ methods := [{}] }] }
    let broken : Schema.File := { name := some "a.proto", services := [{ name := some "S", methods := [{}] }] }
    let files := [stamp, broken, {}]
    (files.map Schema.File.path).Nodup ∧
      generateRequest
          { requested := [Schema.timestampPath, "a.proto", ""], parameter := some "version=v6", files := files } =
        .error (.expansion "a.proto" "service S has a method without a name") := by
  intro stamp broken files
  have hnodup : (files.map Schema.File.path).Nodup := by decide
  exact ⟨hnodup, ((generateRequest_eq_generateSet "version=v6" files).2 hnodup).trans rfl⟩

end TwirpClient.Plugin
