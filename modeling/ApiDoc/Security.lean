import ApiDoc.Settings
import ApiDoc.Text.Basic

/-!
# Security

The schemes of a document follow from the configured authentication flows.  A
route is secured when one of its middlewares is a guard; the parameters of the
guard are the scopes it asks for.
-/

namespace ApiDoc.Security

/-- An address on the host, which is reached over HTTP unless it says otherwise. -/
def endpoint (host path : String) : String :=
  let text := host.toList
  let full :=
    if Text.startsWith "http://".toList text || Text.startsWith "https://".toList text then text
    else "http://".toList ++ text
  String.ofList (Text.dropEndWhile (· = '/') full) ++ path

/-- The scheme of an OAuth2 flow, with the addresses that this flow needs. -/
def oauthScheme (s : Settings) (flow : String) : SecurityScheme :=
  let authorizes := ["implicit", "authorizationCode"].contains flow
  let issues := ["password", "application", "authorizationCode"].contains flow
  let entry : OAuthFlow :=
    { authorizationUrl := if authorizes then some (endpoint s.host "/oauth/authorize") else none
      tokenUrl := if issues then some (endpoint s.host "/oauth/token") else none
      scopes := s.scopes }
  { type := "oauth2", flows := some [(flow, entry)] }

/-- The scheme of a definition; nothing for an unknown one. -/
def scheme? (s : Settings) (definition flow : String) : Option SecurityScheme :=
  match definition with
  | "OAuth2" => some (oauthScheme s flow)
  | "bearerAuth" =>
      some { type := flow, scheme := some "bearer", bearerFormat := some "JWT" }
  | _ => none

/-- The schemes of all configured flows. -/
def schemes (s : Settings) : Dict SecurityScheme :=
  s.flows.filterMap fun (definition, flow) =>
    (scheme? s definition flow).map fun scheme => (definition, scheme)

/-- The parameters after the colon of a middleware. -/
def parameters (middleware : String) : List String :=
  match Text.cutFirst? ':' middleware.toList with
  | none => []
  | some (_, rest) =>
      ((Text.splitOn ',' rest).map Text.trim |>.filter (!·.isEmpty)).map String.ofList

/-- The last middleware that is a guard. -/
def guard? (s : Settings) (middlewares : List String) : Option String :=
  middlewares.reverse.find? s.guards.contains

/-- What a secured route asks for: every configured definition, where OAuth2 comes
with scopes. -/
def requirement (s : Settings) (scopes : List String) : SecurityRequirement :=
  Dict.keys s.flows |>.map fun definition =>
    (definition, if definition = "OAuth2" then scopes else [])

/-- The requirements of a route; nothing when no middleware is a guard. -/
def ofRoute? (s : Settings) (middlewares : List String) : Option (List SecurityRequirement) :=
  (guard? s middlewares).map fun middleware => [requirement s (parameters middleware)]

end ApiDoc.Security
