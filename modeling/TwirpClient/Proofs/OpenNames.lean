import TwirpClient.Proofs.Recovery
import TwirpClient.Proofs.Versions

/-!
# Open names

What the two open rules of naming decide in a client. `Module.refit` gives a module, whoever wrote it, other texts
in two kinds of places: the binding of its first import, and the last property of the target of each check, for
which it looks only at the name that the check gives. A client that is made with other helpers is the same client
refitted (`refit_clientModule`); nothing else in it was ever shown to them, and neither was the check of the
methods' names.
-/

namespace TwirpClient.Code

/-! ## Refitting a module -/

/-- A check with another property at the end of its target, chosen by the name that it gives. -/
def Stmt.retarget (property : String → String) : Stmt → Stmt
  | .when (.binary left operator (.member object _)) [.give (.str name)] =>
    .when (.binary left operator (.member object (property name))) [.give (.str name)]
  | stmt => stmt

/-- A function with other properties in its checks. -/
def Item.retarget (property : String → String) : Item → Item
  | .const exported name (.arrow parameters result body) =>
    .const exported name (.arrow parameters result (body.map (Stmt.retarget property)))
  | item => item

/-- Items with another binding in the first import. -/
def rebindFirst (binding : String) : List Item → List Item
  | [] => []
  | .importFrom _ source :: rest => .importFrom binding source :: rest
  | item :: rest => item :: rebindFirst binding rest

/-- A module with another binding in its first import and other properties in its checks. -/
def Module.refit (module : Module) (binding : String) (property : String → String) : Module where
  items := rebindFirst binding (module.items.map (Item.retarget property))

/-! ## Reading the places -/

/-- What an import binds and where it is from. -/
def Item.imported? : Item → Option (String × String)
  | .importFrom binding source => some (binding, source)
  | _ => none

/-- What a check compares with, and the name that it gives. -/
def Stmt.aim? : Stmt → Option (Expr × String)
  | .when (.binary _ _ target) [.give (.str name)] => some (target, name)
  | _ => none

end TwirpClient.Code

namespace TwirpClient.Client

open Code

/-- What follows the checks of the function that finds the names of methods. -/
def resolverTail (noChecks : Bool) : List Stmt :=
  (if noChecks then [] else [.blank]) ++ [.throw unknownMethod]

/-- The items of the services. -/
def Blueprint.serviceItems (blueprint : Blueprint) : List Item :=
  blueprint.services.flatMap fun service => [service.routeItem blueprint.routePrefix, service.factoryItem]

section Parts

variable (template : Template) (helpers helpers' : Helpers) (library : Library) (blueprint : Blueprint)

/-- The checks, one for each declared method, and a tail that no helper has a part in. -/
theorem resolverBody_eq :
    template.resolverBody blueprint.services =
      (blueprint.declared.map fun declared => template.methodCheck declared.1 declared.2) ++
        resolverTail blueprint.declared.isEmpty := by
  rw [Template.resolverBody, methodChecks_eq_map, List.isEmpty_map, List.append_assoc]
  rfl

theorem items_clientModule :
    (template.clientModule blueprint).items =
      [.comment header,
        .importFrom (template.helpers.importBinding blueprint.package)
          (template.library.messageModule blueprint.moduleName),
        .importFrom ("\x7b" ++ adapterFactory ++ "\x7d") template.library.adapterModule,
        .importFrom transportName transportModule,
        template.resolverItem blueprint.services] ++ blueprint.serviceItems :=
  rfl

/-! ## Refitting a client -/

theorem retarget_resolverTail (property : String → String) (noChecks : Bool) :
    (resolverTail noChecks).map (Stmt.retarget property) = resolverTail noChecks := by
  cases noChecks with
  | true => rfl
  | false => rfl

theorem retarget_resolverItem :
    ((Template.mk helpers library).resolverItem blueprint.services).retarget helpers'.lowerInitial =
      (Template.mk helpers' library).resolverItem blueprint.services := by
  have hbody : ((Template.mk helpers library).resolverBody blueprint.services).map
        (Stmt.retarget helpers'.lowerInitial) =
      (Template.mk helpers' library).resolverBody blueprint.services := by
    rw [resolverBody_eq, resolverBody_eq, List.map_append, List.map_map, retarget_resolverTail]
    rfl
  exact congrArg (fun body => Item.const false resolverName (.arrow [⟨"fn", "any"⟩] (some "string") body)) hbody

/-- The functions that create clients hold no checks. -/
theorem retarget_serviceItems (property : String → String) :
    blueprint.serviceItems.map (Item.retarget property) = blueprint.serviceItems := by
  rw [Blueprint.serviceItems, List.map_flatMap]
  rfl

theorem refit_clientModule :
    ((Template.mk helpers library).clientModule blueprint).refit (helpers'.importBinding blueprint.package)
        helpers'.lowerInitial =
      (Template.mk helpers' library).clientModule blueprint := by
  rw [Module.refit, items_clientModule, List.map_append, retarget_serviceItems]
  simp only [List.map_cons, List.map_nil]
  rw [retarget_resolverItem]
  rfl

/-! ## What stands in the places -/

theorem aims_resolverTail (noChecks : Bool) : (resolverTail noChecks).filterMap Stmt.aim? = [] := by
  cases noChecks with
  | true => rfl
  | false => rfl

theorem aims_clientModule :
    ((template.clientModule blueprint).items.flatMap functionBody).filterMap Stmt.aim? =
      blueprint.declared.map fun declared =>
        (prototypeMember declared.1.package declared.1.name (template.helpers.lowerInitial declared.2),
          declared.2) := by
  have hbodies : (template.clientModule blueprint).items.flatMap functionBody =
      template.resolverBody blueprint.services ++ blueprint.serviceItems.flatMap functionBody := rfl
  have hservices : (blueprint.serviceItems.flatMap functionBody).filterMap Stmt.aim? = [] := by
    rw [Blueprint.serviceItems, List.flatMap_assoc, List.filterMap_flatMap]
    exact List.flatMap_eq_nil_iff.mpr fun service _ => rfl
  rw [hbodies, List.filterMap_append, hservices, List.append_nil, resolverBody_eq, List.filterMap_append,
    aims_resolverTail, List.append_nil, List.filterMap_map]
  exact congrFun List.filterMap_eq_map' blueprint.declared

/-- Away from the first import and the function that finds the names of methods, two clients are the same. -/
theorem getElem?_clientModule {place : Nat} (himport : place ≠ 1) (hresolver : place ≠ 4) :
    ((Template.mk helpers library).clientModule blueprint).items[place]? =
      ((Template.mk helpers' library).clientModule blueprint).items[place]? := by
  match place with
  | 0 | 2 | 3 => rfl
  | 1 => exact absurd rfl himport
  | 4 => exact absurd rfl hresolver
  | place + 5 => rfl

end Parts

/-- The helpers decide on their own places and nothing else. With all helpers a blueprint has the same fault, or
none; and then a client with other helpers is the same one refitted, item by item. The places that are refitted
are the binding of the first import, which is what the helper gives for the package, and one property for each
declared method, which is what the helper gives for its name. -/
theorem Template.expand_helpers (library : Library) (blueprint : Blueprint) (helpers helpers' : Helpers) :
    let under (helpers : Helpers) := (Template.mk helpers library).expand blueprint
    (∀ fault, under helpers = .error fault ↔ under helpers' = .error fault) ∧
    ∀ module, under helpers = .ok module → ∃ module', under helpers' = .ok module' ∧
      module' = module.refit (helpers'.importBinding blueprint.package) helpers'.lowerInitial ∧
      (∀ place, place ≠ 1 → place ≠ 4 → module.items[place]? = module'.items[place]?) ∧
      module.items.findSome? Item.imported? =
        some (helpers.importBinding blueprint.package, library.messageModule blueprint.moduleName) ∧
      (module.items.flatMap functionBody).filterMap Stmt.aim? = blueprint.declared.map fun declared =>
        (prototypeMember declared.1.package declared.1.name (helpers.lowerInitial declared.2), declared.2) := by
  intro under
  simp only [under, Template.expand_eq]
  cases blueprint.services.find? Service.hasUnnamedMethod with
  | some service => exact ⟨fun fault => Iff.rfl, nofun⟩
  | none =>
    refine ⟨fun fault => ⟨nofun, nofun⟩, ?_⟩
    rintro module hmodule
    obtain rfl := Except.ok.inj hmodule
    exact ⟨_, rfl, (refit_clientModule helpers helpers' library blueprint).symm,
      fun _ => getElem?_clientModule helpers helpers' library blueprint, rfl, aims_clientModule _ blueprint⟩

/-- Helpers that give nothing make all methods stand at one place of each service. The names that are given for
them, and the factory of a service without a name, stay. -/
theorem Template.expand_helpers_silent :
    let blueprint : Blueprint :=
      { source := "", package := "", moduleName := "shop", routePrefix := "/twirp"
        services := [⟨"Cart", "", ["Get", "get"]⟩, ⟨"", "", []⟩] }
    let silent : Helpers := { lowerInitial := fun _ => "", importBinding := fun _ => "" }
    let module := (Template.mk silent .pbjs).clientModule blueprint
    let module' := (Template.mk {} .pbjs).clientModule blueprint
    module.items.findSome? Item.imported? = some ("", "./shop.pb") ∧
      (module.items.flatMap functionBody).filterMap Stmt.aim? =
        [(prototypeMember "" "Cart" "", "Get"), (prototypeMember "" "Cart" "", "get")] ∧
      module'.items[8]? = module.items[8]? ∧ module' = module.refit (Naming.importBinding "") Naming.lowerInitial := by
  intro blueprint silent module module'
  obtain ⟨-, htwo⟩ := Template.expand_helpers .pbjs blueprint silent {}
  obtain ⟨_, hmodule', hrefit, hsame, hfirst, haims⟩ := htwo module rfl
  obtain rfl := Except.ok.inj hmodule'
  exact ⟨hfirst, haims, (hsame 8 (by decide) (by decide)).symm, hrefit⟩

end TwirpClient.Client
