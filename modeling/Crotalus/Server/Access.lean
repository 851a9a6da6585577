import Crotalus.Server.State

namespace Crotalus

/-! `cr_access.c`. -/

/-- `access_list_get`: without virtual hosts there is one list. -/
def accessListGet (e : Config) (hostname : Text) : List AccessNode :=
  e.accessHostList (if e.virtualhost then hostname else e.serverName)

/-- The first rule whose pattern matches the origin decides. -/
def firstMatch (fnmatch : Text → Text → Bool) (origin : Text) : List AccessNode → Access
  | [] => .allow
  | n :: ns => if fnmatch n.hostPattern origin then n.type else firstMatch fnmatch origin ns

/-- The file name is not looked at. -/
def accessAllow (e : Config) (hostname origin _filename : Text) : Access :=
  firstMatch e.fnmatch origin (accessListGet e hostname)

/-- The decision `init_get` asks for. -/
def Request.access (e : Config) (r : Request) : Access :=
  accessAllow e (r.host.getD e.serverName) r.remoteIpAddr (r.pathname.getD [])

def accessFilterAllow (e : Config) (f : FilterKind) (mimeType : Text) : Bool :=
  strcaseEq (e.filterType f) mimeType

end Crotalus
