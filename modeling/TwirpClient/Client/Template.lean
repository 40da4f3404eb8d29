import TwirpClient.Client.Blueprint
import TwirpClient.Code.Basic
import TwirpClient.Options

/-!
# The client template

How a blueprint becomes the code of a client. The module begins with a comment and three imports. A private
function follows that finds the name of a method from its place on the prototype of its service, by one
check per method in the order of declaration; this is how the adapter learns which route a call belongs to.
Then each service has two constants: its route, and a function that creates a client for it.

Service names are used as they are, even empty ones. A method without a name has no place on a prototype,
so a blueprint with such a method has no client.
-/

namespace TwirpClient.Client

open Code

/-! ## Fixed names -/

/-- The comment in front of every client. -/
def header : String := "Generated by protoc-gen-twirp_typescript. DO NOT EDIT"

/-- The function of a client that finds the name of a method. -/
def resolverName : String := "getServiceMethodName"

/-- The function of the adapter module that makes a service speak the protocol. -/
def adapterFactory : String := "createTwirpAdapter"

/-- The name that the transport is imported under. -/
def transportName : String := "Axios"

/-- The module that the transport is imported from. -/
def transportModule : String := "axios"

/-- The encoding of messages that a client accepts. -/
def contentType : String := "application/protobuf"

/-! ## Parts of a client -/

/-- The two rules of naming that a template leaves open. -/
structure Helpers where
  /-- The property of a method on the prototype of its service. -/
  lowerInitial : String → String := Naming.lowerInitial
  /-- What is imported for a package. -/
  importBinding : String → String := Naming.importBinding

instance : Inhabited Helpers := ⟨{}⟩

/-- A template: the open rules of naming, and the library that the client is written against. -/
structure Template where
  helpers : Helpers := {}
  library : Library := .pbjs

/-- The expression `<package>.<Service>`, with the dot even for an empty package. -/
def Service.namespaceExpr (service : Service) : Expr :=
  .member (.ident service.package) service.name

/-- The type `<package>.<Service>`. -/
def Service.typeName (service : Service) : String :=
  s!"{service.package}.{service.name}"

/-- The constant that holds the route of a service. -/
def Service.routeName (service : Service) : String :=
  s!"{service.name}PathPrefix"

/-- The function that creates a client of a service. -/
def Service.factoryName (service : Service) : String :=
  s!"create{service.name}"

/-- The route of a service, below which each of its methods has one. -/
def Service.route (service : Service) (routePrefix : String) : String :=
  s!"{routePrefix}/{service.package}.{service.name}/"

/-- The constant `<Service>PathPrefix`. -/
def Service.routeItem (service : Service) (routePrefix : String) : Item :=
  .const true service.routeName (.str (service.route routePrefix))

/-- The function `create<Service>`. It makes a transport for the route and hands the adapted transport to the
service. -/
def Service.factoryItem (service : Service) : Item :=
  let headers := Expr.object [("Accept", .str contentType)]
  let config := Expr.object
    [("baseURL", .binary (.ident "baseURL") .plus (.ident service.routeName)), ("headers", headers)]
  let transport := Expr.call (.member (.ident transportName) "create") [config]
  let adapter := Expr.call (.ident adapterFactory) [.ident "axios", .ident resolverName]
  .const true service.factoryName <|
    .arrow [⟨"baseURL", "string"⟩] (some service.typeName)
      [.const "axios" transport,
       .blank,
       .give (.call (.member service.namespaceExpr "create") [adapter])]

namespace Template

/-- The check `if (fn === <package>.<Service>.prototype.<method>)`, under which the method's name is given. -/
def methodCheck (template : Template) (service : Service) (method : String) : Stmt :=
  let target := Expr.member (.member service.namespaceExpr "prototype") (template.helpers.lowerInitial method)
  .when (.binary (.ident "fn") .strictEqual target) [.give (.str method)]

/-- The checks of all methods, service by service. -/
def methodChecks (template : Template) (services : List Service) : List Stmt :=
  services.flatMap fun service => service.methods.map (template.methodCheck service)

/-- The checks, an empty line behind them if there are any, and the failure of a function that none of them
knows. -/
def resolverBody (template : Template) (services : List Service) : List Stmt :=
  let checks := template.methodChecks services
  checks ++ (if checks.isEmpty then [] else [.blank]) ++ [.throw (.new "Error" [.str "Unknown Method"])]

/-- The function that finds the name of a method. -/
def resolverItem (template : Template) (services : List Service) : Item :=
  .const false resolverName (.arrow [⟨"fn", "any"⟩] (some "string") (template.resolverBody services))

/-- The module of a client. -/
def clientModule (template : Template) (blueprint : Blueprint) : Module where
  items :=
    [.comment header,
     .importFrom (template.helpers.importBinding blueprint.package)
       (template.library.messageModule blueprint.moduleName),
     .importFrom ("\x7b" ++ adapterFactory ++ "\x7d") template.library.adapterModule,
     .importFrom transportName transportModule,
     template.resolverItem blueprint.services] ++
    blueprint.services.flatMap fun service =>
      [service.routeItem blueprint.routePrefix, service.factoryItem]

end Template

/-! ## Expansion -/

/-- Whether a service has a method without a name. -/
def Service.hasUnnamedMethod (service : Service) : Bool :=
  service.methods.any (· == "")

/-- The fault of a blueprint with such a service. -/
def Blueprint.unnamedMethodFault (blueprint : Blueprint) (service : Service) : Fault :=
  .expansion blueprint.source s!"service {service.name} has a method without a name"

/-- The module of a client, or the fault of the first service that does not fit the template. -/
def Template.expand (template : Template) (blueprint : Blueprint) : Except Fault Module :=
  match blueprint.services.find? Service.hasUnnamedMethod with
  | some service => .error (blueprint.unnamedMethodFault service)
  | none => .ok (template.clientModule blueprint)

end TwirpClient.Client
