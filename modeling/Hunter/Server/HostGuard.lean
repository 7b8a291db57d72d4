import Hunter.Checked
import Hunter.Text

set_option autoImplicit false

namespace Hunter
open Checked Delimited

/-- `Host` names the server answers to beyond loopback. -/
inductive HostAllowList where
  | names (listed : List Text)
  | any
deriving DecidableEq, Repr

def HostAllowList.allows (list : HostAllowList) (name : Text) : Bool :=
  let name := name.map Char.toLower
  ["localhost".toList, "127.0.0.1".toList, "::1".toList].contains name ||
    match list with
    | .any => true
    | .names listed => listed.contains name

/-- The name part of a `Host` header; only an all-digit port behind a name without colons is
taken off. -/
def hostName (host : Text) : Text :=
  match stripPrefix ['['] host with
  | some rest =>
    match splitOnce [']'] rest with
    | some (name, _) => name
    | none => host
  | none =>
    match rsplitOnce [':'] host with
    | some (name, port) =>
      if !name.contains ':' && !port.isEmpty && port.all Char.isDigit then name else host
    | none => host

inductive ApiError where
  | forbidden
deriving DecidableEq, Repr

/-- `toStr` reads a header value as text, which not every value is. -/
def requireAllowedHost (toStr : List UInt8 → Option Text) (header : Option (List UInt8))
    (allowed : HostAllowList) : Except ApiError Unit :=
  let host := (header.bind toStr).getD []
  if host.isEmpty || allowed.allows (hostName host) then .ok () else .error .forbidden

end Hunter
