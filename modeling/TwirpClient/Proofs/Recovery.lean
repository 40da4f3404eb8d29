import TwirpClient.Proofs.TopLevel

/-!
# Reading services back from a client

What a client still knows of the services it was made from. The names and packages stand in the functions
that make clients of them, one behind the other. The methods stand in the checks of one function, those of all
services in one row, and each check names its service; so a reader who sees only the module finds the methods
of a service as long as no other service has its name and package (`servicesOf_clientModule`). It does not
matter what the open rules of naming do, for the reader never looks at what they gave.

Two blueprints of one module therefore agree in all that such a reader finds: `expand_injective`.
-/

namespace TwirpClient.Client

open Code

/-! ## The reader -/

/-- What a service is told from others by: its package and its name. -/
def Service.key (service : Service) : String × String := (service.package, service.name)

/-- The method that a check gives the name of, behind the key of its service. -/
def checkedMethod? : Stmt → Option ((String × String) × String)
  | .when (.binary _ _ (.member (.member (.member (.ident package) service) _) _)) [.give (.str method)] =>
    some ((package, service), method)
  | _ => none

/-- The key of the service that a call makes a client of. -/
def calledKey? : Stmt → Option (String × String)
  | .give (.call (.member (.member (.ident package) service) _) _) => some (package, service)
  | _ => none

/-- The statements of an item that is a function. -/
def functionBody : Item → List Stmt
  | .const _ _ (.arrow _ _ body) => body
  | _ => []

/-- The key of the service that an item makes clients of, by the last statement of its function. -/
def servedKey? (item : Item) : Option (String × String) :=
  (functionBody item).getLast?.bind calledKey?

/-- The methods behind a key. -/
def methodsBehind (key : String × String) (keyed : List ((String × String) × String)) : List String :=
  keyed.filterMap fun method => if method.1 = key then some method.2 else none

/-- The services that a client serves, each with the methods that are checked for under its key. -/
def servicesOf (module : Module) : List Service :=
  let checked := (module.items.flatMap functionBody).filterMap checkedMethod?
  (module.items.filterMap servedKey?).map fun key => ⟨key.2, key.1, methodsBehind key checked⟩

/-! ## Reading a client -/

section Reading

variable (template : Template) (services : List Service) (blueprint : Blueprint)

/-- The methods that are declared, each behind the key of its service. -/
def keyedMethods (services : List Service) : List ((String × String) × String) :=
  services.flatMap fun service => service.methods.map (service.key, ·)

theorem checkedMethod?_methodChecks :
    (template.methodChecks services).filterMap checkedMethod? = keyedMethods services := by
  have hservice : ∀ service : Service,
      (service.methods.map (template.methodCheck service)).filterMap checkedMethod? =
        service.methods.map (service.key, ·) := by
    intro service
    rw [List.filterMap_map]
    exact congrFun List.filterMap_eq_map' service.methods
  rw [Template.methodChecks, List.filterMap_flatMap, keyedMethods]
  simp only [hservice]

/-- Behind the checks no method is named. -/
theorem checkedMethod?_resolverBody :
    (template.resolverBody services).filterMap checkedMethod? = keyedMethods services := by
  have htail : ((if (template.methodChecks services).isEmpty then [] else [Stmt.blank]) ++
      [Stmt.throw (.new "Error" [.str "Unknown Method"])]).filterMap checkedMethod? = [] := by
    cases (template.methodChecks services).isEmpty with
    | true => rfl
    | false => rfl
  rw [Template.resolverBody, List.append_assoc, List.filterMap_append, checkedMethod?_methodChecks]
  exact (congrArg _ htail).trans (List.append_nil _)

/-- The function that finds the names of methods makes no clients: it ends in a failure. -/
theorem servedKey?_resolverItem : servedKey? (template.resolverItem services) = none := by
  have hbody : functionBody (template.resolverItem services) = template.resolverBody services := rfl
  rw [servedKey?, hbody, Template.resolverBody, List.getLast?_concat]
  rfl

/-- The items of the services hold no checks. -/
theorem checkedMethod?_clientModule :
    ((template.clientModule blueprint).items.flatMap functionBody).filterMap checkedMethod? =
      keyedMethods blueprint.services := by
  have hbodies : (template.clientModule blueprint).items.flatMap functionBody =
      template.resolverBody blueprint.services ++ (blueprint.services.flatMap fun service =>
        [service.routeItem blueprint.routePrefix, service.factoryItem]).flatMap functionBody := rfl
  have hservices : ((blueprint.services.flatMap fun service =>
      [service.routeItem blueprint.routePrefix, service.factoryItem]).flatMap functionBody).filterMap
        checkedMethod? = [] := by
    rw [List.flatMap_assoc, List.filterMap_flatMap]
    exact List.flatMap_eq_nil_iff.mpr fun service _ => rfl
  rw [hbodies, List.filterMap_append, hservices, checkedMethod?_resolverBody, List.append_nil]

/-- Each service is found in one of its two items, and no other item is taken for one of a service. -/
theorem servedKey?_clientModule :
    (template.clientModule blueprint).items.filterMap servedKey? = blueprint.services.map Service.key := by
  have hservices : (blueprint.services.flatMap fun service =>
      [service.routeItem blueprint.routePrefix, service.factoryItem]).filterMap servedKey? =
        blueprint.services.map Service.key := by
    rw [List.filterMap_flatMap, List.map_eq_flatMap]
    rfl
  have hitems : (template.clientModule blueprint).items.filterMap servedKey? =
      (template.resolverItem blueprint.services :: blueprint.services.flatMap fun service =>
        [service.routeItem blueprint.routePrefix, service.factoryItem]).filterMap servedKey? := rfl
  rw [hitems, List.filterMap_cons_none (servedKey?_resolverItem template blueprint.services), hservices]

end Reading

/-! ## Finding the methods of each service -/

theorem methodsBehind_append (key : String × String) (first second : List ((String × String) × String)) :
    methodsBehind key (first ++ second) = methodsBehind key first ++ methodsBehind key second :=
  List.filterMap_append

theorem methodsBehind_own (service : Service) :
    methodsBehind service.key (service.methods.map (service.key, ·)) = service.methods := by
  rw [methodsBehind, List.filterMap_map]
  exact (List.filterMap_congr fun method _ => if_pos rfl).trans List.filterMap_some

theorem methodsBehind_other {service : Service} {key : String × String} (hkey : service.key ≠ key) :
    methodsBehind key (service.methods.map (service.key, ·)) = [] := by
  rw [methodsBehind, List.filterMap_map, List.filterMap_eq_nil_iff]
  exact fun method _ => if_neg hkey

theorem methodsBehind_of_notMem {services : List Service} {key : String × String}
    (hkey : key ∉ services.map Service.key) : methodsBehind key (keyedMethods services) = [] := by
  induction services with
  | nil => rfl
  | cons service services ih =>
    rw [List.map_cons, List.mem_cons, not_or] at hkey
    rw [keyedMethods, List.flatMap_cons, methodsBehind_append, methodsBehind_other (Ne.symm hkey.1)]
    exact ih hkey.2

/-- Among the methods of services with distinct keys, those behind the key of a service are its own. -/
theorem methodsBehind_keyedMethods {services : List Service} (hkeys : (services.map Service.key).Nodup)
    {service : Service} (hservice : service ∈ services) :
    methodsBehind service.key (keyedMethods services) = service.methods := by
  induction services with
  | nil => exact absurd hservice List.not_mem_nil
  | cons head services ih =>
    rw [List.map_cons, List.nodup_cons] at hkeys
    obtain ⟨hhead, hrest⟩ := hkeys
    rw [keyedMethods, List.flatMap_cons, methodsBehind_append]
    rcases List.mem_cons.mp hservice with rfl | hservice
    · rw [methodsBehind_own]
      exact (congrArg _ (methodsBehind_of_notMem hhead)).trans (List.append_nil _)
    · have hne : head.key ≠ service.key := fun heq => hhead (heq ▸ List.mem_map_of_mem hservice)
      rw [methodsBehind_other hne]
      exact ih hrest hservice

/-- Services with distinct keys are read back as they were. -/
theorem servicesOf_clientModule (template : Template) {blueprint : Blueprint}
    (hkeys : (blueprint.services.map Service.key).Nodup) :
    servicesOf (template.clientModule blueprint) = blueprint.services := by
  rw [servicesOf, servedKey?_clientModule, checkedMethod?_clientModule, List.map_map]
  refine (List.map_congr_left fun service hservice => ?_).trans (List.map_id _)
  rw [Function.comp_apply, methodsBehind_keyedMethods hkeys hservice]
  rfl

/-! ## Blueprints of one client -/

theorem messageModule_inj {library : Library} {moduleName moduleName' : String}
    (heq : library.messageModule moduleName = library.messageModule moduleName') : moduleName = moduleName' := by
  have hmodule : ∀ name, library.messageModule name = "./" ++ name ++ ".pb" := by
    cases library
    exact fun name => rfl
  rwa [hmodule, hmodule, String.append_left_inj, String.append_right_inj] at heq

theorem route_inj {service : Service} {routePrefix routePrefix' : String}
    (heq : service.route routePrefix = service.route routePrefix') : routePrefix = routePrefix' := by
  have hroute : ∀ front, service.route front =
      front ++ "/" ++ service.package ++ "." ++ service.name ++ "/" := fun front => rfl
  simpa only [hroute, String.append_left_inj] using heq

/-- A client tells the services it was made from, if they have distinct keys, the name of the module that its
messages come from, and what its routes begin with, if it has any. -/
theorem expand_injective (template : Template) (first second : Blueprint) (module : Module)
    (hfirst : template.expand first = .ok module) (hsecond : template.expand second = .ok module)
    (hkeys : (first.services.map fun service => (service.package, service.name)).Nodup)
    (hkeys' : (second.services.map fun service => (service.package, service.name)).Nodup) :
    first.services = second.services ∧ first.moduleName = second.moduleName ∧
      (first.services ≠ [] → first.routePrefix = second.routePrefix) := by
  have hmodules : template.clientModule first = template.clientModule second :=
    (expand_eq_ok template hfirst).symm.trans (expand_eq_ok template hsecond)
  have hservices : first.services = second.services := by
    rw [← servicesOf_clientModule template hkeys, ← servicesOf_clientModule template hkeys', hmodules]
  have hitem : ∀ position : Nat, (template.clientModule first).items[position]? =
      (template.clientModule second).items[position]? := fun position => by rw [hmodules]
  refine ⟨hservices, ?_, ?_⟩
  · have himport := Item.importFrom.inj (Option.some.inj (hitem 1))
    exact messageModule_inj himport.2
  · intro hsome
    obtain ⟨service, rest, hfront⟩ := List.exists_cons_of_ne_nil hsome
    have hroute : ∀ blueprint : Blueprint, blueprint.services = service :: rest →
        (template.clientModule blueprint).items[5]? = some (service.routeItem blueprint.routePrefix) := by
      intro blueprint hblueprint
      rw [Template.clientModule, hblueprint]
      rfl
    have heq := hitem 5
    rw [hroute first hfront, hroute second (hservices ▸ hfront)] at heq
    exact route_inj (Expr.str.inj (Item.const.inj (Option.some.inj heq)).2.2)

/-- Rules of naming that give the empty text for everything, and two blueprints that differ in what they hide:
the package is lost, but the services are not, of which two have one name and one has no methods. -/
theorem expand_injective_hidden_package :
    let template : Template := { helpers := { lowerInitial := fun _ => "", importBinding := fun _ => "" } }
    let services : List Service := [⟨"Cart", "shop", ["Add", "Add"]⟩, ⟨"Idle", "shop", []⟩, ⟨"Cart", "old", ["Add"]⟩]
    let first : Blueprint := ⟨"a.proto", "shop", "a", "/twirp", services⟩
    let second : Blueprint := ⟨"b.proto", "old", "a", "/twirp", services⟩
    let module := template.clientModule first
    first ≠ second ∧ template.expand first = .ok module ∧ template.expand second = .ok module ∧
      (services.map fun service => (service.package, service.name)).Nodup ∧
      first.services = second.services ∧ first.moduleName = second.moduleName ∧
      first.routePrefix = second.routePrefix := by
  intro template services first second module
  have hfirst : template.expand first = .ok module := rfl
  have hsecond : template.expand second = .ok module := rfl
  have hkeys : (services.map fun service => (service.package, service.name)).Nodup := by decide
  obtain ⟨hservices, hmodule, hroutes⟩ := expand_injective template first second module hfirst hsecond hkeys hkeys
  exact ⟨by decide, hfirst, hsecond, hkeys, hservices, hmodule, hroutes (List.cons_ne_nil _ _)⟩

end TwirpClient.Client
