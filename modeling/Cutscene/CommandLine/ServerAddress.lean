import Cutscene.Number.Decimal
import Cutscene.Text.Pieces

/-!
# Addresses of servers

The address of a Redis server is a URL such as `redis://host:6379/0`, with the number of a database
at its end. `ServerAddress.refusal?` says what is wrong with a text that is to be such an address.
-/

namespace Cutscene.CommandLine.ServerAddress

/-- Why an address is refused. -/
inductive Refusal where
  | malformed
  | withoutHost
  | encrypted
  | badDatabase
deriving DecidableEq, Repr

/-- What is said of a refusal. -/
def Refusal.message (r : Refusal) : String :=
  let reason := match r with
    | .malformed => "Redis URL did not parse"
    | .withoutHost => "Missing hostname"
    | .encrypted => "can't connect with TLS, the feature is not enabled"
    | .badDatabase => "Invalid database number"
  reason ++ "- InvalidClientConfig"

/-- The scheme of a URL in small letters, and what follows it. -/
def scheme? (url : List Char) : Option (String × List Char) := do
  let (scheme, rest) ← Text.cutOnce ':' url
  match scheme with
  | c :: cs =>
    if c.isAlpha && cs.all fun c => c.isAlphanum || c == '+' || c == '-' || c == '.' then
      return (.ofList (scheme.map Char.toLower), rest)
    else none
  | [] => none

/-- The host and the port in an authority, user and password aside. -/
def hostAndPort (authority : List Char) : List Char × List Char :=
  let place := ((Text.cut '@' authority).getLast?).getD []
  match Text.cutOnce ']' place with
  | some (host, port) => (host ++ [']'], port.drop 1)
  | none => (Text.cutOnce ':' place).getD (place, [])

/-- A port is a number of sixteen bits, or left out. -/
def isPort (port : List Char) : Bool :=
  port.all Char.isDigit && (Number.readDigits 0 port).1 < UInt16.size

/-- A path with the number of a database, or without one. -/
def isDatabase (path : List Char) : Bool :=
  let inner := ((path.dropWhile (· == '/')).reverse.dropWhile (· == '/')).reverse
  inner.isEmpty || (match Number.readInt? inner with
    | some n => Number.FitsInt64 n
    | none => false)

/-- The part of a URL before its query and fragment. -/
def beforeQuery (url : List Char) : List Char := url.takeWhile fun c => c != '?' && c != '#'

/-- What is wrong with the address of a server after its scheme. -/
def hostRefusal? (secure : Bool) (rest : List Char) : Option Refusal :=
  match beforeQuery rest with
  | '/' :: '/' :: rest =>
    let authority := rest.takeWhile (· != '/')
    let (host, port) := hostAndPort authority
    if !isPort port || (host.isEmpty && !authority.isEmpty) then some .malformed
    else if host.isEmpty then some .withoutHost
    else if secure then some .encrypted
    else if isDatabase (rest.dropWhile (· != '/')) then none
    else some .badDatabase
  | _ => some .withoutHost

/-- What is wrong with a text that is to be an address. -/
def refusal? (url : String) : Option Refusal :=
  match scheme? (url.toList.filter fun c => c != '\n' && c != '\r' && c != '\t') with
  | none => some .malformed
  | some (scheme, rest) =>
    if scheme = "redis" ∨ scheme = "valkey" then hostRefusal? false rest
    else if scheme = "rediss" ∨ scheme = "valkeys" then hostRefusal? true rest
    else if ["unix", "redis+unix", "valkey+unix"].contains scheme then none
    else some .malformed

end Cutscene.CommandLine.ServerAddress
