import Mathlib.Data.List.Forall2
import TwirpClient.Proofs.ClientText
import TwirpClient.Proofs.FileSets

/-!
# Clients of two versions

A version of the protocol decides on one thing, what the routes of a client begin with. `clientAround` is the
text of a client with a gap for it in each service, right behind the quote that opens the route's literal, and
`Generator.generate_eq_around` says that this is what a generator gives, with the mount of its version in the
gaps. No other part of a run looks at the version: not the faults, not the names, and not the texts in which
names of the schema happen to say something like a mount or a version.
-/

namespace TwirpClient.Client

/-! ## The text around the mounts -/

/-- The constant of a route up to the quote that opens its literal. -/
def routeOpening (service : String) : String :=
  "\nexport const " ++ service ++ "PathPrefix = '"

/-- The constant of a route from behind the mount on. -/
def routeClosing (package service : String) : String :=
  escaped ("/" ++ package ++ "." ++ service ++ "/") ++ "';\n"

/-- The two constants of a service, for a mount. -/
def serviceAround (mount package service : String) : String :=
  routeOpening service ++ mount ++ routeClosing package service ++ textOfLines (factoryLines package service)

/-- The text of a client, for a mount. -/
def clientAround (mount : String) (helpers : Helpers) (file : Schema.File) : String :=
  textOfLines (headLines helpers file ++ resolverLines helpers file) ++
    String.join (file.services.map fun service => serviceAround mount file.packageName service.label)

/-- Characters are escaped one by one, so a literal can be cut at any place. -/
theorem escaped_append (text text' : String) : escaped (text ++ text') = escaped text ++ escaped text' := by
  rw [escaped, String.toList_append, List.flatMap_append, String.ofList_append, escaped, escaped]

/-- Nothing in a mount is escaped. -/
theorem escaped_routePrefix (version : String) :
    escaped (Naming.routePrefix version) = Naming.routePrefix version := by
  rw [Naming.routePrefix]
  split
  next => decide
  next => decide

theorem routePrefix_of_eq {version : String} (h : version = "v6") : Naming.routePrefix version = "" :=
  if_pos h

theorem routePrefix_of_ne {version : String} (h : version ≠ "v6") : Naming.routePrefix version = "/twirp" :=
  if_neg h

/-- The mount is all that the version decides on the line of a route. -/
theorem textOfLines_routeLines (version package service : String) :
    textOfLines (routeLines version package service) =
      routeOpening service ++ Naming.routePrefix version ++ routeClosing package service := by
  have hmount : (if version = "v6" then "" else "/twirp") = Naming.routePrefix version := rfl
  have hroute : escaped (Naming.routePrefix version ++ "/" ++ package ++ "." ++ service ++ "/") =
      Naming.routePrefix version ++ escaped ("/" ++ package ++ "." ++ service ++ "/") := by
    simp only [escaped_append, escaped_routePrefix, String.append_assoc]
  simp only [routeLines]
  rw [hmount, hroute, ← String.toList_inj]
  simp [textOfLines_cons, routeOpening, routeClosing, Code.toString_string]

/-- So it is with the lines of all services. -/
theorem textOfLines_services (version package : String) (services : List Schema.Service) :
    textOfLines (services.flatMap fun service =>
        routeLines version package service.label ++ factoryLines package service.label) =
      String.join (services.map fun service =>
        serviceAround (Naming.routePrefix version) package service.label) := by
  induction services with
  | nil => rfl
  | cons service services ih =>
    rw [List.flatMap_cons, textOfLines_append, ih, textOfLines_append, textOfLines_routeLines, List.map_cons,
      String.join_cons]
    rfl

theorem clientText_eq_clientAround (helpers : Helpers) (version : String) (file : Schema.File) :
    clientText helpers version file = clientAround (Naming.routePrefix version) helpers file := by
  rw [clientText, textOfLines_append, textOfLines_services, clientAround]

section Measure

variable {measure : String → Nat} (happend : ∀ text text', measure (text ++ text') = measure text + measure text')

include happend

/-- A service has one gap, so its text grows with the mount once. -/
theorem measure_serviceAround (mount package service : String) :
    measure (serviceAround mount package service) = measure (serviceAround "" package service) + measure mount := by
  simp only [serviceAround, String.append_empty, happend]
  omega

/-- A mount counts once for each service, however texts are measured. -/
theorem measure_clientAround (mount : String) (helpers : Helpers) (file : Schema.File) :
    measure (clientAround mount helpers file) =
      measure (clientAround "" helpers file) + measure mount * file.services.length := by
  have hservices : ∀ services : List Schema.Service,
      measure (String.join (services.map fun service => serviceAround mount file.packageName service.label)) =
        measure (String.join (services.map fun service => serviceAround "" file.packageName service.label)) +
          measure mount * services.length := by
    intro services
    induction services with
    | nil => rfl
    | cons service services ih =>
      rw [List.map_cons, List.map_cons, String.join_cons, String.join_cons, happend, happend, ih,
        measure_serviceAround happend, List.length_cons, Nat.mul_succ]
      omega
  rw [clientAround, clientAround, happend, happend, hservices, Nat.add_assoc]

end Measure

theorem length_clientAround_twirp (helpers : Helpers) (file : Schema.File) :
    (clientAround "/twirp" helpers file).length =
      (clientAround "" helpers file).length + 6 * file.services.length := by
  have hsix : "/twirp".length = 6 := by decide
  rw [measure_clientAround String.length_append, hsix]

theorem utf8ByteSize_clientAround_twirp (helpers : Helpers) (file : Schema.File) :
    (clientAround "/twirp" helpers file).utf8ByteSize =
      (clientAround "" helpers file).utf8ByteSize + 6 * file.services.length := by
  have hsix : "/twirp".utf8ByteSize = 6 := by decide
  rw [measure_clientAround fun _ _ => String.utf8ByteSize_append, hsix]

/-! ## Generation -/

theorem Blueprint.services_draw (file : Schema.File) (outline : Outline) (version : String) :
    (draw file outline version).services = outline.services := rfl

/-- Whether a template is expanded does not depend on the version, only on the names of methods. -/
theorem Template.expand_eq (template : Template) (blueprint : Blueprint) :
    template.expand blueprint =
      (blueprint.services.find? Service.hasUnnamedMethod).elim (.ok (template.clientModule blueprint))
        fun service => .error (blueprint.unnamedMethodFault service) := by
  rw [expand]
  cases blueprint.services.find? Service.hasUnnamedMethod with
  | none => rfl
  | some service => rfl

/-- What becomes of a schema file, when this is its client if it has one. -/
def outcomeOf {α : Type} (file : Schema.File) (client : α) : Except Fault (List α) :=
  if file.path = Schema.timestampPath then .ok []
  else
    ((file.services.map (Service.ofSchema file.packageName)).find? Service.hasUnnamedMethod).elim (.ok [client])
      fun service => .error (.expansion file.path s!"service {service.name} has a method without a name")

section Outcome

variable {α β : Type} {file : Schema.File} {client : α}

/-- What is made of a client has no say in whether there is one. -/
theorem outcomeOf_map (f : α → β) : (outcomeOf file client).map (List.map f) = outcomeOf file (f client) := by
  rw [outcomeOf, outcomeOf]
  split
  next => rfl
  next =>
    cases (file.services.map (Service.ofSchema file.packageName)).find? Service.hasUnnamedMethod with
    | none => rfl
    | some service => rfl

/-- Whether a file has a client is not up to the client. -/
theorem outcomeOf_eq_map (file : Schema.File) (client : α) :
    outcomeOf file client = (outcomeOf file ()).map (List.map fun _ => client) :=
  (outcomeOf_map fun _ => client).symm

/-- What relates two clients relates what becomes of a file with the one and with the other. -/
theorem forall₂_of_outcomeOf {R : α → β → Prop} {client' : β} (hR : R client client') {clients : List α}
    (h : outcomeOf file client = .ok clients) :
    ∃ clients', outcomeOf file client' = .ok clients' ∧ List.Forall₂ R clients clients' := by
  rw [outcomeOf_eq_map] at h ⊢
  obtain ⟨places, hplaces, rfl⟩ := map_eq_ok_iff.mp h
  refine ⟨places.map fun _ => client', map_eq_ok_iff.mpr ⟨places, hplaces, rfl⟩, ?_⟩
  rw [List.forall₂_map_left_iff, List.forall₂_map_right_iff]
  exact List.forall₂_same.mpr fun _ _ => hR

end Outcome

namespace Generator

/-- The version is not looked at but for the mount: neither by the check of the methods' names nor by what is
said when it fails. -/
theorem generate_eq_around (generator : Generator) (file : Schema.File) :
    generator.generate file =
      outcomeOf file (⟨Naming.outputName file.path,
        clientAround (Naming.routePrefix generator.version) generator.helpers file⟩ : ClientFile) := by
  rw [generate_eq, client, Template.expand_eq, Blueprint.services_draw, outcomeOf]
  by_cases hpath : file.path = Schema.timestampPath
  · rw [if_pos hpath, if_pos hpath]
  · rw [if_neg hpath, if_neg hpath]
    cases (file.services.map (Service.ofSchema file.packageName)).find? Service.hasUnnamedMethod with
    | some service => rfl
    | none =>
      have hlayout := clientModule_layout generator.template generator.version file
      rw [clientText_eq_clientAround] at hlayout
      change Except.ok [(⟨_, Code.Module.layout _⟩ : ClientFile)] = _
      rw [hlayout]
      rfl

theorem names_generate (generator : Generator) (file : Schema.File) :
    (generator.generate file).map (List.map ClientFile.name) = outcomeOf file (Naming.outputName file.path) := by
  rw [generate_eq_around, outcomeOf_map]

/-- Of two versions, both decide in the same way whether a file has a client, what it is called and what is
wrong with it. Its text is the same for two versions of which both or none is `v6`. For `v6` it is what is left
of the text for another version when `/twirp` is taken away behind the opening quote of each service's route,
so that it is shorter by six for each service. -/
theorem generate_version (library : Library) (helpers : Helpers) (file : Schema.File) (v w : String) :
    let under (version : String) := (Generator.mk version library helpers).generate file
    (under v).map (List.map ClientFile.name) = (under w).map (List.map ClientFile.name) ∧
    ((v = "v6" ↔ w = "v6") → under v = under w) ∧
    (v = "v6" → w ≠ "v6" → ∀ clients, under v = .ok clients → ∃ clients', under w = .ok clients' ∧
      List.Forall₂ (fun client client' =>
        client.content = clientAround "" helpers file ∧
        client'.content = clientAround "/twirp" helpers file ∧
        client'.content.length = client.content.length + 6 * file.services.length ∧
        client'.content.utf8ByteSize = client.content.utf8ByteSize + 6 * file.services.length)
        clients clients') := by
  intro under
  refine ⟨?names, ?same, ?mounted⟩
  case names => rw [names_generate, names_generate]
  case same =>
    intro hsame
    have hmount : Naming.routePrefix v = Naming.routePrefix w := by
      by_cases hv : v = "v6"
      · rw [routePrefix_of_eq hv, routePrefix_of_eq (hsame.mp hv)]
      · rw [routePrefix_of_ne hv, routePrefix_of_ne (mt hsame.mpr hv)]
    simp only [under, generate_eq_around, hmount]
  case mounted =>
    intro hv hw clients
    simp only [under, generate_eq_around, routePrefix_of_eq hv, routePrefix_of_ne hw]
    exact forall₂_of_outcomeOf ⟨rfl, rfl, length_clientAround_twirp helpers file,
      utf8ByteSize_clientAround_twirp helpers file⟩

/-- Names that say `/twirp` and `v6` and that have quotes in them stay as they are, once for each of two
services, and an empty version is as good as any but `v6`. -/
theorem generate_version_hostile_names :
    let file : Schema.File :=
      { name := some "twirp/v6'.proto"
        package := some "/twirp"
        services := [{ name := some "PathPrefix = '/twirp", methods := [{ name := some "'v6'" }] }, {}] }
    let under (version : String) := (Generator.mk version .pbjs {}).generate file
    under "v6" = .ok [⟨"v6'.twirp.ts", clientAround "" {} file⟩] ∧
      ∃ client, under "" = .ok [client] ∧ under "/v6" = .ok [client] ∧
        client.name = "v6'.twirp.ts" ∧ client.content = clientAround "/twirp" {} file ∧
        client.content.length = (clientAround "" {} file).length + 12 := by
  intro file under
  have hname : Naming.outputName file.path = "v6'.twirp.ts" := by decide
  have hnamed : ∀ client : ClientFile, outcomeOf file client = .ok [client] := fun client =>
    (if_neg (by decide)).trans (by rfl)
  have hrooted : under "v6" = .ok [⟨"v6'.twirp.ts", clientAround "" {} file⟩] := by
    simp only [under, generate_eq_around, hnamed, hname, routePrefix_of_eq]
  obtain ⟨hnames, -, hmounted⟩ := generate_version .pbjs {} file "v6" ""
  obtain ⟨clients, hclients, htexts⟩ := hmounted rfl (by decide) _ hrooted
  obtain ⟨client, rest, ⟨-, hcontent, hlength, -⟩, hrest, rfl⟩ := List.forall₂_cons_left_iff.mp htexts
  obtain rfl := List.forall₂_nil_left_iff.mp hrest
  have hsame : under "" = under "/v6" := (generate_version .pbjs {} file "" "/v6").2.1 (by decide)
  have hclientName : client.name = "v6'.twirp.ts" := by
    change (under "v6").map _ = (under "").map _ at hnames
    rw [hrooted, show under "" = _ from hclients] at hnames
    exact (List.cons.inj (Except.ok.inj hnames)).1.symm
  have htwelve : 6 * file.services.length = 12 := by decide
  rw [htwelve] at hlength
  exact ⟨hrooted, client, hclients, hsame ▸ hclients, hclientName, hcontent, hlength⟩

end Generator

end TwirpClient.Client
