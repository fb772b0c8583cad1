/-
Zesterm.Cloud.Http — the one HTTPS request of `zest-cloud`'s `http.rs`: the
splitting of a configured URL and the bytes an exchange writes.

Texts are UTF-8 on the wire, and the length of a body is in bytes. An error
carries what it is about and leaves the rendering of it out. Reading the
response is left out, and so is TLS.
-/
import Zesterm.Lib.Http
import Zesterm.Mcp.Addr

namespace Zesterm

/-! ## Endpoints -/

/-- `HTTPS_PORT`. -/
def httpsPort : Nat := 443

/-- Why a configured URL cannot be requested. -/
inductive Malformed where
  | notHttps
  | fragment
  | bracketed
  | userinfo
  | noPath
  | notAPort (port : Str)
  | noHost
  | colonInHost
  deriving DecidableEq

/-- A configured `https://host[:port]/path`. -/
structure HttpEndpoint where
  host : Str
  port : Nat
  path : Str
  deriving DecidableEq

/-- The authority split at its last colon, if it has one. -/
def HttpEndpoint.hostPort (authority : Str) : Except Malformed (Str × Nat) :=
  match Mcp.rsplitOnce ':' authority with
  | some (host, port) =>
    match parseUnsigned 65535 port with
    | some n => .ok (host, n)
    | none => .error (.notAPort port)
  | none => .ok (authority, httpsPort)

/-- `Endpoint::parse`. -/
def HttpEndpoint.parse (url : Str) : Except Malformed HttpEndpoint :=
  match stripPrefix "https://".toList url with
  | none => .error .notHttps
  | some rest =>
    if url.contains '#' then .error .fragment
    else
      let authority := rest.takeWhile (· != '/')
      let path := if rest.contains '/' then rest.dropWhile (· != '/') else ['/']
      if authority.head? = some '[' then .error .bracketed
      else if authority.contains '@' then .error .userinfo
      else if authority.contains '?' then .error .noPath
      else
        match HttpEndpoint.hostPort authority with
        | .error e => .error e
        | .ok (host, port) =>
          if host.isEmpty then .error .noHost
          else if host.contains ':' then .error .colonInHost
          else .ok { host, port, path }

/-- What goes in `host:`. -/
def HttpEndpoint.authority (host : Str) (port : Nat) : Str :=
  if port = httpsPort then host else host ++ ':' :: showNat port

/-! ## The request -/

inductive HttpMethod where
  | get
  | post
  deriving DecidableEq

def HttpMethod.asStr : HttpMethod → Str
  | .get => "GET".toList
  | .post => "POST".toList

/-- Why a header is refused: by its name, or by the value of that name. -/
inductive HeaderError where
  | name (name : Str)
  | value (name : Str)
  deriving DecidableEq

/-- `is_header_name_byte`: letters, digits and the fifteen marks of a token. -/
def isHeaderNameByte (b : UInt8) : Bool :=
  (48 ≤ b.toNat && b.toNat ≤ 57) || (65 ≤ b.toNat && b.toNat ≤ 90) ||
    (97 ≤ b.toNat && b.toNat ≤ 122) || [33, 35, 36, 37, 38, 39, 42, 43, 45, 46, 94, 95, 96, 124, 126].contains b

def headerLine (name value : Str) : Str := name ++ ':' :: ' ' :: (value ++ ['\r', '\n'])

/-- The lines of the caller's headers, each checked before it is added. -/
def headerLines : (headers : List (Str × Str)) → Except HeaderError Str
  | [] => .ok []
  | (name, value) :: headers =>
    if name.isEmpty || !(toUtf8 name).all isHeaderNameByte then .error (.name name)
    else if (toUtf8 value).any fun b => b == 13 || b == 10 || b == 0 then .error (.value name)
    else
      match headerLines headers with
      | .ok lines => .ok (headerLine name value ++ lines)
      | .error e => .error e

/-- The two headers of a body. -/
def bodyLines : (body : Option Str) → Str
  | some body =>
    headerLine "content-type".toList "application/json".toList ++
      headerLine "content-length".toList (showNat (utf8Len body))
  | none => []

/-- What `exchange_with` writes. -/
def requestText (authority : Str) (method : HttpMethod) (path : Str) (headers : List (Str × Str))
    (body : Option Str) : Except HeaderError Str :=
  match headerLines headers with
  | .error e => .error e
  | .ok lines =>
    .ok (method.asStr ++ ' ' :: (path ++ ' ' :: ("HTTP/1.1".toList ++ '\r' :: '\n' ::
      (headerLine "host".toList authority ++ (lines ++ (bodyLines body ++
        (headerLine "connection".toList "close".toList ++ '\r' :: '\n' :: body.getD [])))))))

end Zesterm
