import TwirpClient.Plugin.Basic

/-!
# Sample schemas

Small schemas to try a client on: one service with one method, several services of one package with an
import, and the well-known file that no client is generated for; and a request as the compiler sends it, with
the imported file first and only the last file asked for.
-/

namespace TwirpClient.Sample

open Schema

/-- A method whose two message types are named after it. -/
def method (name : String) : Method where
  name := some name
  inputType := some s!".{name}Request"
  outputType := some s!".{name}Response"

/-- A service with methods of these names. -/
def service (name : String) (methods : List String) : Service where
  name := some name
  methods := methods.map method

/-- A file in the third version of the schema language. -/
def file (name package : String) (services : List Service) : File where
  name := some name
  package := some package
  services := services
  dialect := some "proto3"

/-- One service with one method. -/
def greeter : File :=
  file "service.proto" "example.api" [service "Greeter" ["SayHello"]]

/-- Several services, the last without a method, and an import. -/
def shop : File :=
  { file "acme/shop/v1/shop.proto" "acme.shop.v1"
      [service "Catalog" ["ListProducts", "GetProduct"], service "Checkout" ["PlaceOrder"],
       service "Health" []] with
    dependencies := [timestampPath] }

/-- The well-known file of the Timestamp message. -/
def timestamp : File :=
  file timestampPath "google.protobuf" []

/-- A request for the client of `shop`. -/
def request (parameter : Option String) : Plugin.Request where
  requested := [shop.path]
  parameter := parameter
  files := [timestamp, shop]

end TwirpClient.Sample
