import TwirpClient.Proofs.Versions

/-!
# What becomes of a file

A schema file is passed over, fails or has one client, and which of the three it is can be told from the file
alone, without a template, a version or the helpers. The fields of the schema are looked at as they came here,
set or unset, and not through the texts that they are read as: `Generator.generate_outcome` says that the name of
the Timestamp message's file comes before everything else, that a method without a name is the only thing that
can be wrong, and that of several services with such methods the first is told of. Other unset fields are as good
as empty ones.
-/

namespace TwirpClient.Schema

/-! ## Names that are missing -/

/-- A method whose name is unset or empty. -/
def Method.IsUnnamed (method : Method) : Prop :=
  method.name = none ∨ method.name = some ""

instance (method : Method) : Decidable method.IsUnnamed :=
  inferInstanceAs (Decidable (method.name = none ∨ method.name = some ""))

/-- A service with a method without a name, wherever it stands. -/
def Service.HasUnnamed (service : Service) : Prop :=
  ∃ method ∈ service.methods, method.IsUnnamed

instance (service : Service) : Decidable service.HasUnnamed :=
  inferInstanceAs (Decidable (∃ method ∈ service.methods, method.IsUnnamed))

/-- The first service of a file with a method without a name, in the order of declaration. -/
def File.FirstUnnamed (file : File) (service : Service) : Prop :=
  ∃ before after, file.services = before ++ service :: after ∧ (∀ earlier ∈ before, ¬earlier.HasUnnamed) ∧
    service.HasUnnamed

/-- A method whose name is unset is one whose name is empty. -/
theorem Method.label_eq_empty_iff {method : Method} : method.label = "" ↔ method.IsUnnamed := by
  rw [label, IsUnnamed]
  cases method.name with
  | none => exact ⟨fun _ => .inl rfl, fun _ => rfl⟩
  | some name => simp

theorem File.path_eq_timestampPath_iff {file : File} :
    file.path = timestampPath ↔ file.name = some timestampPath := by
  rw [path]
  cases file.name with
  | none => exact ⟨fun h => absurd h (by decide), nofun⟩
  | some name => simp

/-! ## Setting what is unset -/

/-- The method with its name set, to the empty text if it was unset. -/
def Method.filled (method : Method) : Method :=
  { method with name := some method.label }

/-- The service with its name and those of its methods set. -/
def Service.filled (service : Service) : Service where
  name := some service.label
  methods := service.methods.map Method.filled

/-- The file with all names in it set. -/
def File.filled (file : File) : File :=
  { file with
    name := some file.path
    package := some file.packageName
    services := file.services.map Service.filled }

end TwirpClient.Schema

namespace TwirpClient.Client

variable {file : Schema.File}

/-- A template sees no difference between a name that is unset and one that is empty. -/
theorem ofSchema_filled (package : String) (service : Schema.Service) :
    Service.ofSchema package service.filled = Service.ofSchema package service := by
  rw [Service.ofSchema, Schema.Service.filled, List.map_map]
  rfl

theorem services_filled (file : Schema.File) :
    file.filled.services.map (Service.ofSchema file.filled.packageName) =
      file.services.map (Service.ofSchema file.packageName) := by
  rw [Schema.File.filled, List.map_map]
  exact List.map_congr_left fun service _ => ofSchema_filled file.packageName service

/-! ## The service that is told of -/

/-- A service of the blueprint has a method without a name exactly if that of the schema file has. -/
theorem hasUnnamedMethod_iff {package : String} {service : Schema.Service} :
    (Service.ofSchema package service).hasUnnamedMethod = true ↔ service.HasUnnamed := by
  rw [Service.hasUnnamedMethod, Service.ofSchema, List.any_map, List.any_eq_true, Schema.Service.HasUnnamed]
  simp only [Function.comp_apply, beq_iff_eq, Schema.Method.label_eq_empty_iff]

theorem find?_hasUnnamedMethod_eq_some_iff {found : Service} :
    (file.services.map (Service.ofSchema file.packageName)).find? Service.hasUnnamedMethod = some found ↔
      ∃ service, file.FirstUnnamed service ∧ Service.ofSchema file.packageName service = found := by
  rw [List.find?_map, Option.map_eq_some_iff]
  refine exists_congr fun service => and_congr_left fun _ => ?_
  rw [List.find?_eq_some_iff_append, Schema.File.FirstUnnamed]
  simp only [Function.comp_apply, Bool.not_eq_true', ← Bool.not_eq_true, hasUnnamedMethod_iff]
  constructor
  · rintro ⟨hlast, before, after, hservices, hbefore⟩
    exact ⟨before, after, hservices, hbefore, hlast⟩
  · rintro ⟨before, after, hservices, hbefore, hlast⟩
    exact ⟨hlast, before, after, hservices, hbefore⟩

theorem find?_hasUnnamedMethod_eq_none_iff :
    (file.services.map (Service.ofSchema file.packageName)).find? Service.hasUnnamedMethod = none ↔
      ∀ service ∈ file.services, ¬service.HasUnnamed := by
  simp only [List.find?_eq_none, List.forall_mem_map, hasUnnamedMethod_iff]

/-- Of the services with a method without a name, if there are any, one is the first. -/
theorem exists_firstUnnamed_iff :
    (∃ service, file.FirstUnnamed service) ↔ ∃ service ∈ file.services, service.HasUnnamed := by
  constructor
  · rintro ⟨service, before, after, hservices, -, hunnamed⟩
    refine ⟨service, ?_, hunnamed⟩
    rw [hservices]
    exact List.mem_append_right before List.mem_cons_self
  · rintro ⟨service, hservice, hunnamed⟩
    cases hfind : (file.services.map (Service.ofSchema file.packageName)).find? Service.hasUnnamedMethod with
    | none => exact absurd hunnamed (find?_hasUnnamedMethod_eq_none_iff.mp hfind service hservice)
    | some found =>
      obtain ⟨first, hfirst, -⟩ := find?_hasUnnamedMethod_eq_some_iff.mp hfind
      exact ⟨first, hfirst⟩

/-! ## The three outcomes -/

/-- What becomes of a file, by its names alone, when this is its client if it has one. -/
inductive Becomes {α : Type} (file : Schema.File) (client : α) : Except Fault (List α) → Prop where
  | passedOver (hpath : file.path = Schema.timestampPath) : Becomes file client (.ok [])
  | fails (hpath : file.path ≠ Schema.timestampPath) {service : Schema.Service} (hfirst : file.FirstUnnamed service) :
    Becomes file client (.error (.expansion file.path s!"service {service.label} has a method without a name"))
  | generated (hpath : file.path ≠ Schema.timestampPath) (hnamed : ∀ service ∈ file.services, ¬service.HasUnnamed) :
    Becomes file client (.ok [client])

section Outcome

variable {α : Type} {client : α}

/-- One of the rules applies to every schema file. -/
theorem becomes_outcomeOf (file : Schema.File) (client : α) : Becomes file client (outcomeOf file client) := by
  by_cases hpath : file.path = Schema.timestampPath
  · rw [outcomeOf, if_pos hpath]
    exact .passedOver hpath
  · rw [outcomeOf, if_neg hpath]
    cases hfind : (file.services.map (Service.ofSchema file.packageName)).find? Service.hasUnnamedMethod with
    | none => exact .generated hpath (find?_hasUnnamedMethod_eq_none_iff.mp hfind)
    | some found =>
      obtain ⟨service, hfirst, rfl⟩ := find?_hasUnnamedMethod_eq_some_iff.mp hfind
      exact .fails hpath hfirst

/-- Nothing else becomes of it. -/
theorem outcomeOf_eq_iff {outcome : Except Fault (List α)} :
    outcomeOf file client = outcome ↔ Becomes file client outcome := by
  refine ⟨fun h => h ▸ becomes_outcomeOf file client, fun h => ?_⟩
  rw [outcomeOf]
  cases h with
  | passedOver hpath => rw [if_pos hpath]
  | fails hpath hfirst =>
    rw [if_neg hpath, find?_hasUnnamedMethod_eq_some_iff.mpr ⟨_, hfirst, rfl⟩]
    rfl
  | generated hpath hnamed =>
    rw [if_neg hpath, find?_hasUnnamedMethod_eq_none_iff.mpr hnamed]
    rfl

theorem outcomeOf_eq_ok_nil_iff : outcomeOf file client = .ok [] ↔ file.path = Schema.timestampPath := by
  rw [outcomeOf_eq_iff]
  refine ⟨fun h => ?_, .passedOver⟩
  cases h with
  | passedOver hpath => exact hpath

/-- There is a fault exactly if the file is not the one of the Timestamp message and has a first service with an
unnamed method. -/
theorem outcomeOf_eq_error_iff {fault : Fault} :
    outcomeOf file client = .error fault ↔ file.path ≠ Schema.timestampPath ∧ ∃ service,
      file.FirstUnnamed service ∧
        fault = .expansion file.path s!"service {service.label} has a method without a name" := by
  rw [outcomeOf_eq_iff]
  constructor
  · intro h
    cases h with
    | fails hpath hfirst => exact ⟨hpath, _, hfirst, rfl⟩
  · rintro ⟨hpath, service, hfirst, rfl⟩
    exact .fails hpath hfirst

theorem outcomeOf_eq_ok_singleton_iff {client' : α} :
    outcomeOf file client = .ok [client'] ↔ file.path ≠ Schema.timestampPath ∧
      (∀ service ∈ file.services, ¬service.HasUnnamed) ∧ client' = client := by
  rw [outcomeOf_eq_iff]
  constructor
  · intro h
    cases h with
    | generated hpath hnamed => exact ⟨hpath, hnamed, rfl⟩
  · rintro ⟨hpath, hnamed, rfl⟩
    exact .generated hpath hnamed

end Outcome

namespace Generator

variable (generator : Generator)

/-- A name that is unset is read as the empty one wherever it stands. -/
theorem generate_filled (file : Schema.File) : generator.generate file.filled = generator.generate file := by
  have hpath : file.filled.path = file.path := rfl
  have hpackage : file.filled.packageName = file.packageName := rfl
  have houtline : Outline.ofFile? file.filled = Outline.ofFile? file := by
    rw [Outline.ofFile?, Outline.ofFile?, services_filled, hpath, hpackage]
  rw [generate, generate, houtline]
  rfl

/-- A file has no client exactly if it is the Timestamp message's, whatever its services are like. Any other file
fails exactly if some service has a method without a name, and the fault tells of the first such service. Without
one there is exactly one client, with the name that the naming rules give it. A writer that refuses the text is
never the reason, and an unset name is none either: it is as good as an empty one. -/
theorem generate_outcome (file : Schema.File) :
    (generator.generate file = .ok [] ↔ file.name = some Schema.timestampPath) ∧
    ((∃ fault, generator.generate file = .error fault) ↔
      file.name ≠ some Schema.timestampPath ∧ ∃ service ∈ file.services, service.HasUnnamed) ∧
    (∀ fault, generator.generate file = .error fault ↔
      file.name ≠ some Schema.timestampPath ∧ ∃ service, file.FirstUnnamed service ∧
        fault = .expansion (file.name.getD "")
          ("service " ++ service.name.getD "" ++ " has a method without a name")) ∧
    ((∃ content, generator.generate file = .ok [⟨Naming.outputName (file.name.getD ""), content⟩]) ↔
      file.name ≠ some Schema.timestampPath ∧ ∀ service ∈ file.services, ¬service.HasUnnamed) ∧
    generator.generate file ≠ .error .printing ∧
    generator.generate file.filled = generator.generate file := by
  have herror : ∀ fault, generator.generate file = .error fault ↔
      file.name ≠ some Schema.timestampPath ∧ ∃ service, file.FirstUnnamed service ∧
        fault = .expansion (file.name.getD "")
          ("service " ++ service.name.getD "" ++ " has a method without a name") := by
    intro fault
    rw [generate_eq_around, outcomeOf_eq_error_iff, ne_eq, Schema.File.path_eq_timestampPath_iff]
    rfl
  refine ⟨?none, ?fails, herror, ?one, ?printing, generator.generate_filled file⟩
  case none => rw [generate_eq_around, outcomeOf_eq_ok_nil_iff, Schema.File.path_eq_timestampPath_iff]
  case fails =>
    rw [← exists_firstUnnamed_iff]
    constructor
    · rintro ⟨fault, hfault⟩
      obtain ⟨hname, service, hfirst, -⟩ := (herror fault).mp hfault
      exact ⟨hname, service, hfirst⟩
    · rintro ⟨hname, service, hfirst⟩
      exact ⟨_, (herror _).mpr ⟨hname, service, hfirst, rfl⟩⟩
  case one =>
    simp only [generate_eq_around, outcomeOf_eq_ok_singleton_iff, ne_eq, Schema.File.path_eq_timestampPath_iff]
    constructor
    · rintro ⟨content, hname, hnamed, -⟩
      exact ⟨hname, hnamed⟩
    · rintro ⟨hname, hnamed⟩
      exact ⟨_, hname, hnamed, rfl⟩
  case printing =>
    intro hprinting
    obtain ⟨-, service, -, hfault⟩ := (herror _).mp hprinting
    cases hfault

/-- Of two services with unnamed methods the first is told of, though it has no name itself, and though its first
method has one; and nothing is told of the Timestamp message's file. -/
theorem generate_outcome_two_unnamed :
    let services : List Schema.Service :=
      [{ name := some "Cart", methods := [{ name := some "Add" }] },
        { methods := [{ name := some "Get" }, {}] },
        { name := some "Shop", methods := [{ name := some "" }] }]
    let generator : Generator := { version := "v6", helpers := { lowerInitial := fun _ => "call" } }
    generator.generate { services := services } =
        .error (.expansion "" "service  has a method without a name") ∧
      generator.generate { name := some Schema.timestampPath, services := services } = .ok [] := by
  intro services generator
  obtain ⟨-, -, herror, -⟩ := generator.generate_outcome { services := services }
  obtain ⟨hnone, -⟩ := generator.generate_outcome { name := some Schema.timestampPath, services := services }
  refine ⟨(herror _).mpr ⟨nofun, { methods := [{ name := some "Get" }, {}] }, ?_, rfl⟩, hnone.mpr rfl⟩
  exact ⟨[{ name := some "Cart", methods := [{ name := some "Add" }] }],
    [{ name := some "Shop", methods := [{ name := some "" }] }], rfl, by decide, by decide⟩

end Generator

end TwirpClient.Client
