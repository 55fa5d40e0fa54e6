import ImageTrust.Url.Host

/-!
URLs by their parts. A path is either a list of segments, to which another path can be related, or
an opaque text. Parts hold the characters they are written with, percent-encoded where they have to
be, so writing a URL only puts its parts together.
-/

namespace ImageTrust

namespace Url

inductive Path where
  | segments (names : List String)
  | opaqueText (text : String)
  deriving DecidableEq, Repr

end Url

structure Url where
  scheme : String
  username : String
  password : String
  host : Option Url.Host
  port : Option Nat
  path : Url.Path
  query : Option String
  fragment : Option String
  deriving DecidableEq, Repr

namespace Url

/-- The port a scheme uses when none is given. -/
def defaultPort? (scheme : String) : Option Nat :=
  [("http", 80), ("ws", 80), ("https", 443), ("wss", 443), ("ftp", 21)].lookup scheme

/-- Whether a scheme has special rules: it names a host and its path is never empty. -/
def isSpecialScheme (scheme : String) : Bool :=
  ["http", "https", "ws", "wss", "ftp", "file"].contains scheme

def isSpecial (u : Url) : Bool :=
  isSpecialScheme u.scheme

def pathText (u : Url) : String :=
  match u.path with
  | .opaqueText text => text
  | .segments names => String.join (names.map ("/" ++ ·))

def userText (u : Url) : String :=
  if u.username.isEmpty && u.password.isEmpty then ""
  else u.username ++ (if u.password.isEmpty then "" else ":" ++ u.password) ++ "@"

/-- What stands between scheme and path. Without a host, a path that begins with two slashes is kept
apart from them. -/
def authorityText (u : Url) : String :=
  match u.host with
  | some host =>
    let port := match u.port with
      | some n => ":" ++ toString n
      | none => ""
    "//" ++ u.userText ++ host.text ++ port
  | none =>
    match u.path with
    | .segments ("" :: _ :: _) => "/."
    | _ => ""

/-- A part behind its mark, when there is one. -/
def markedText (mark : String) : Option String → String
  | some text => mark ++ text
  | none => ""

def text (u : Url) : String :=
  u.scheme ++ ":" ++ u.authorityText ++ u.pathText ++ markedText "?" u.query
    ++ markedText "#" u.fragment

/-- The segments of the path, when it has any. -/
def segments? (u : Url) : Option (List String) :=
  match u.path with
  | .segments [] => none
  | .segments names => some names
  | .opaqueText _ => none

end Url

end ImageTrust
